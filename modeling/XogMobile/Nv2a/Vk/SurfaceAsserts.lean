import XogMobile.Nv2a.Vk.SurfaceUpdate

/-!
# The assertions of the surface cache

Besides the checks of what the guest programmed, an update can fail in three ways: a bound surface
that is not marked is evicted, a new surface is put where there is one, and the bound surfaces differ
in size. The second never happens. The others do not happen as long as a new target does not overlap
the surface that stays bound for the other target (`partOk`).
-/

namespace XogMobile.Nv2a.Vk

open Lib Function Option Bool Except

variable {σ : Type}

structure EvictsBound (d : NV2AState σ) (a : Abort) (color : Bool) (q : Nat) : Prop where
  abort : a = .evictsBound color
  bound : d.r.binding color = some q
  unmarked : (d.pg.surface color).bufferDirty = false

theorem EvictsBound.of_evicted {d d₁ : NV2AState σ} {a : Abort} {color : Bool} {q : Nat}
    {victim : SurfaceBinding → Bool} {ps : List Nat} (hevicted : Evicted victim ps d d₁) (h : EvictsBound d₁ a color q) :
    EvictsBound d a color q ∧ d₁.r.mem q = d.r.mem q := by
  obtain ⟨hbound, hclear⟩ := (hevicted.binding color q).mp h.bound
  exact ⟨⟨h.abort, hbound, hevicted.pg ▸ h.unmarked⟩, hevicted.mem q hclear⟩

namespace NV2AState

variable {H : Host σ} {d d' : NV2AState σ} {p : Nat} {target : SurfaceBinding} {color : Bool}
  {i : PartInputs} {dims : Word × Word} {a : Abort} {victim : SurfaceBinding → Bool}

theorem unbindIfBound_error (h : d.unbindIfBound color p = .error a) : EvictsBound d a color p := by
  unfold unbindIfBound at h
  split at h
  · next hbound =>
    split at h
    · cases h
    · next hmarked => exact ⟨(error.inj h).symm, hbound, eq_false_iff.mpr hmarked⟩
  · cases h

theorem invalidateSurface_error {found : SurfaceBinding} (h : d.invalidateSurface p found = .error a) : ∃ color, EvictsBound d a color p := by
  obtain h | ⟨d₁, h₁, h⟩ := bind_eq_error.mp h
  · exact ⟨true, unbindIfBound_error h⟩
  · obtain ⟨hpg, -, -, -, -, hbinding⟩ := unbindIfBound_ok h₁
    have herror := unbindIfBound_error (map_eq_error.mp h)
    exact ⟨false, herror.abort, ((hbinding false p).mp herror.bound).1, hpg ▸ herror.unmarked⟩

theorem evictSurface_error (h : d.evictSurface H p = .error a) : ∃ color, EvictsBound d a color p := by
  obtain ⟨color, herror⟩ := invalidateSurface_error h
  refine ⟨color, herror.abort, ?_, herror.unmarked⟩
  rw [← (d.r.surfaceDownloadIfDirty_same H p).binding]
  exact herror.bound

theorem evictWhere_error {ps : List Nat} (hinv : CacheInv H d.r) (hps : ps.Sublist d.r.surfaces)
    (h : evictWhere H victim ps d = .error a) :
    ∃ color q, EvictsBound d a color q ∧ victim (d.r.mem q) = true := by
  induction ps generalizing d with
  | nil => cases h
  | cons p ps ih =>
    rw [evictWhere] at h
    split at h
    · next hvictim =>
      obtain h | ⟨d₁, h₁, h⟩ := bind_eq_error.mp h
      · obtain ⟨color, herror⟩ := evictSurface_error h
        exact ⟨color, p, herror, hvictim⟩
      · obtain ⟨color, q, herror, hq⟩ := ih
          (evictSurface_inv hinv (hps.subset List.mem_cons_self) h₁) (evictSurface_rest hps h₁) h
        obtain ⟨herror, hmem⟩ := herror.of_evicted (evictSurface_evicted hinv hvictim h₁)
        exact ⟨color, q, herror, hmem ▸ hq⟩
    · exact ih hinv (List.sublist_of_cons_sublist hps) h

theorem createSurface_error (hinv : CacheInv H d.r) (hget : d.r.surfaceGet target.vramAddr = none)
    (h : d.createSurface H color target = .error a) :
    ∃ c q, EvictsBound d a c q ∧ checkSurfacesOverlap target (d.r.mem q) = true := by
  have hfresh := takeSurface_fresh hinv target
  have hself := hfresh.mem_self
  have h := map_eq_error.mp h
  unfold surfacePut at h
  have hget₀ : VkState.surfaceGet ((takeSurface d.r target).1.set (takeSurface d.r target).2 target)
      target.vramAddr = none := by
    refine VkState.surfaceGet_eq_none fun p hp => ?_
    rw [hfresh.surfaces] at hp
    rw [hfresh.mem_of_mem hp]
    exact VkState.ne_of_surfaceGet_eq_none hget hp
  rw [hself, hget₀] at h
  have hinv₀ := hfresh.inv hinv
  obtain ⟨c, q, herror, hq⟩ := evictWhere_error hinv₀ (.refl _) (map_eq_error.mp h)
  have hbound := herror.bound
  rw [hfresh.binding] at hbound
  rw [hfresh.mem_of_mem (hinv.bound c q hbound).1] at hq
  exact ⟨c, q, ⟨herror.abort, hbound, herror.unmarked⟩, hq⟩

variable {ramin : Ramin} {upload : Bool}

theorem populateSurfaceBindingTargetSized_error {width height : Word}
    (h : d.populateSurfaceBindingTargetSized H ramin color width height = .error a) :
    a = .refused := by
  unfold populateSurfaceBindingTargetSized at h
  split at h
  · dsimp only at h
    split at h
    · cases h
    · exact (error.inj h).symm
  · exact (error.inj h).symm

theorem populateSurfaceBindingTarget_error
    (h : d.populateSurfaceBindingTarget H ramin color = .error a) : a = .refused := by
  unfold populateSurfaceBindingTarget at h
  split at h
  · exact populateSurfaceBindingTargetSized_error h
  · exact (error.inj h).symm

theorem isCompatible_error {s : SurfaceBinding} (h : d.isCompatible H i color s target = .error a) : a = .refused := by
  unfold isCompatible at h
  split at h
  · exact (error.inj h).symm
  · split at h
    · cases h
    · split at h
      · split at h
        · cases h
        · exact populateSurfaceBindingTargetSized_error (map_eq_error.mp h)
      · split at h <;> cases h

theorem findSurface_error {found : Option Nat} (hinv : CacheInv H d.r) (hfound : d.r.surfaceGet target.vramAddr = found)
    (hnot : ∀ c p, found = some p → d.r.binding c ≠ some p)
    (h : d.findSurface H i color target found = .error a) :
    a = .refused ∨ ∃ c q, EvictsBound d a c q ∧ checkSurfacesOverlap target (d.r.mem q) = true := by
  cases found with
  | none => exact .inr (createSurface_error hinv hfound h)
  | some p =>
    obtain ⟨hp, haddr⟩ := VkState.surfaceGet_eq_some hfound
    obtain h | ⟨compatible, -, h⟩ := bind_eq_error.mp h
    · exact .inl (isCompatible_error h)
    · split at h
      · cases h
      · obtain h | ⟨d₁, h₁, h⟩ := bind_eq_error.mp h
        · obtain ⟨c, herror⟩ := evictSurface_error h
          exact absurd herror.bound (hnot c p rfl)
        · have hone : Evicted (fun _ => true) [p] d d₁ := evictSurface_evicted hinv rfl h₁
          have hne : ∀ q ∈ d₁.r.surfaces, (d₁.r.mem q).vramAddr ≠ target.vramAddr := by
            intro q hq
            obtain ⟨hq, hclear⟩ := (hone.surfaces q).mp hq
            rw [hone.mem q hclear, ← haddr]
            intro hsame
            rw [hinv.eq_of_vramAddr hq hp hsame] at hclear
            exact nomatch hclear List.mem_cons_self
          obtain ⟨c, q, herror, hq⟩ := createSurface_error
            (evictSurface_inv hinv hp h₁) (VkState.surfaceGet_eq_none hne) h
          obtain ⟨herror, hmem⟩ := herror.of_evicted hone
          exact .inr ⟨c, q, herror, hmem ▸ hq⟩

theorem vramAddr_ne_of_unbindForTarget (hinv : CacheInv H d.r) {c : Bool} {q : Nat}
    (h : (d.unbindForTarget color (d.r.surfaceGet target.vramAddr)).r.binding c = some q) :
    (d.r.mem q).vramAddr ≠ target.vramAddr := by
  obtain ⟨-, hq, hother⟩ := unbindForTarget_binding h
  have hactive := (hinv.bound c q hq).1
  intro haddr
  cases hget : d.r.surfaceGet target.vramAddr with
  | none => exact VkState.ne_of_surfaceGet_eq_none hget hactive haddr
  | some p =>
    obtain ⟨hp, haddr'⟩ := VkState.surfaceGet_eq_some hget
    rw [hinv.eq_of_vramAddr hactive hp (haddr.trans haddr'.symm)] at hother
    exact hother hget

theorem rebindSurface_error (hinv : CacheInv H d.r) (h : d.rebindSurface H i color target = .error a) :
    a = .refused ∨ ∃ q, EvictsBound d a (!color) q ∧
      (d.r.mem q).vramAddr ≠ target.vramAddr ∧ checkSurfacesOverlap target (d.r.mem q) = true := by
  have h := map_eq_error.mp h
  have hget : (d.unbindForTarget color (d.r.surfaceGet target.vramAddr)).r.surfaceGet target.vramAddr
      = d.r.surfaceGet target.vramAddr := by
    rw [VkState.surfaceGet, VkState.surfaceGet, unbindForTarget_surfaces, unbindForTarget_mem]
  obtain rfl | ⟨c, q, herror, hq⟩ := findSurface_error (unbindForTarget_inv hinv color _) hget
    (fun c p hp hbound => (unbindForTarget_binding hbound).2.2 hp) h
  · exact .inl rfl
  · obtain ⟨rfl, hbound, -⟩ := unbindForTarget_binding herror.bound
    rw [unbindForTarget_mem] at hq
    exact .inr ⟨q, ⟨herror.abort, hbound, herror.unmarked⟩, vramAddr_ne_of_unbindForTarget hinv herror.bound, hq⟩

/-- The update of a target does not run into the surface bound for the other one: that one is at the
same address and is unbound, or it does not overlap the new target or is marked. A flush that binds
colour must not find zeta bound elsewhere. -/
def partOk (H : Host σ) (d : NV2AState σ) (i : PartInputs) (upload color : Bool) : Bool :=
  match d.populateSurfaceBindingTarget H i.ramin color, d.r.binding (!color) with
  | .ok target, some q =>
    !d.rebinds H i upload color || (d.r.mem q).vramAddr == target.vramAddr ||
      ((upload || !color) && (!checkSurfacesOverlap target (d.r.mem q) ||
        (d.pg.surface (!color)).bufferDirty))
  | _, _ => true

theorem partOk_cases {q : Nat} (hok : d.partOk H i upload color = true)
    (htarget : d.populateSurfaceBindingTarget H i.ramin color = .ok target)
    (hrebinds : d.rebinds H i upload color = true) (hq : d.r.binding (!color) = some q)
    (hne : (d.r.mem q).vramAddr ≠ target.vramAddr) :
    (upload = true ∨ color = false) ∧ (checkSurfacesOverlap target (d.r.mem q) = false ∨
      (d.pg.surface (!color)).bufferDirty = true) := by
  simp only [partOk, htarget, hq, hrebinds, Bool.not_true, Bool.false_or, or_eq_true,
    beq_iff_eq, and_eq_true, not_eq_true'] at hok
  exact hok.resolve_left hne

theorem updateSurfacePart_error (hinv : CacheInv H d.r) (hok : d.partOk H i upload color = true)
    (h : d.updateSurfacePart H i upload color = .error a) : a = .refused := by
  obtain h | ⟨target, htarget, h⟩ := bind_eq_error.mp h
  · exact populateSurfaceBindingTarget_error h
  · have h := map_eq_error.mp h
    split at h
    · next hrebinds =>
      obtain rfl | ⟨q, herror, hne, hoverlap⟩ := rebindSurface_error hinv h
      · rfl
      · obtain ⟨-, hclear | hmarked⟩ := partOk_cases hok htarget hrebinds herror.bound hne
        · rw [hoverlap] at hclear
          exact nomatch hclear
        · rw [herror.unmarked] at hmarked
          exact nomatch hmarked
    · cases h

end NV2AState

def VkState.Agree (r : VkState σ) : Prop := ∀ p q, r.BothBound p q → (r.mem p).dims = (r.mem q).dims

def NV2AState.Marked (d : NV2AState σ) : Prop :=
  ∀ p q, d.r.BothBound p q → (d.r.mem p).dims ≠ (d.r.mem q).dims →
    (d.pg.surface false).bufferDirty = true

theorem SameCache.agree {r r' : VkState σ} (h : SameCache r r') (hagree : r.Agree) : r'.Agree := by
  intro p q hpq
  rw [VkState.BothBound, h.binding] at hpq
  rw [(h.mem p).dims, (h.mem q).dims]
  exact hagree p q hpq

theorem VkState.Agree.unbind {r : VkState σ} (hagree : r.Agree) (color : Bool) : (r.unbindSurface color).Agree := by
  rintro p q ⟨hp, hq⟩
  rw [unbindSurface_mem]
  exact hagree p q ⟨(unbindSurface_binding_eq_some hp).2, (unbindSurface_binding_eq_some hq).2⟩

namespace NV2AState

variable {H : Host σ} {d d' : NV2AState σ} {p : Nat} {target : SurfaceBinding} {color : Bool}
  {i : PartInputs} {a : Abort}

theorem unbindMarked_agree (hagree : d.r.Agree) (color : Bool) : (d.unbindMarked color).r.Agree := by
  unfold unbindMarked
  split
  · exact hagree.unbind color
  · exact hagree

theorem Marked.unbindMarked (h : d.Marked) : (d.unbindMarked false).r.Agree := by
  intro p q hpq
  unfold NV2AState.unbindMarked at hpq ⊢
  split at hpq
  · exact absurd rfl (VkState.unbindSurface_binding_eq_some hpq.2).1
  · next hmarked =>
    rw [if_neg hmarked]
    by_contra hdims
    exact hmarked (h p q hpq hdims)

variable {write upload colorWrite zetaWrite : Bool} {u : UpdateInputs} {r : VkState σ}

section

variable (hinv : CacheInv H d.r)
include hinv

theorem updateSurfacePart_agree (hagree : d.r.Agree)
    (h : d.updateSurfacePart H i upload false = .ok d') : d'.r.Agree := by
  obtain ⟨target, d₁, -, hsame, -, rfl | ⟨-, out, hfound, rfl⟩⟩ := updateSurfacePart_ok hinv h
  · exact hsame.agree hagree
  · exact hsame.agree ((bindFound_rebound hfound).sizes rfl)

theorem flushColor_agree (hagree : d.r.Agree) (hok : d.partOk H i false true = true)
    (h : d.updateSurfacePart H i false true = .ok d') : d'.r.Agree := by
  obtain ⟨target, d₁, htarget, hsame, -, rfl | ⟨hrebinds, out, hfound, rfl⟩⟩ := updateSurfacePart_ok hinv h
  · exact hsame.agree hagree
  · refine hsame.agree ?_
    rintro p q ⟨-, hq⟩
    rw [bindFound_binding hfound] at hq
    obtain ⟨hq, -⟩ := hfound.binding false q hq
    have hne := vramAddr_ne_of_unbindForTarget hinv hq
    obtain ⟨hflush, -⟩ := partOk_cases hok htarget hrebinds (unbindForTarget_binding hq).2.1 hne
    exact absurd hflush (by decide)

end

def uploadPartOk (H : Host σ) (d : NV2AState σ) (i : PartInputs) (color write : Bool) : Bool :=
  !write || (d.unbindMarked color).partOk H i true color

def flushPartOk (H : Host σ) (d : NV2AState σ) (i : PartInputs) (color write : Bool) : Bool :=
  !d.hasDraws color write || d.partOk H i false color

/-- `partOk` for colour, and for zeta after colour. -/
def updatePartsOk (H : Host σ) (d : NV2AState σ) (u : UpdateInputs)
    (upload colorWrite zetaWrite : Bool) : Bool :=
  if upload then
    d.checkFramebuffer.uploadPartOk H u.color true colorWrite &&
      match d.checkFramebuffer.uploadPart H u.color true colorWrite with
      | .ok d => d.uploadPartOk H u.zeta false zetaWrite
      | .error _ => true
  else
    d.flushPartOk H u.color true colorWrite &&
      match d.flushPart H u.color true colorWrite with
      | .ok d => d.flushPartOk H u.zeta false zetaWrite
      | .error _ => true

section

variable (hinv : CacheInv H d.r)
include hinv

theorem uploadColor_marked (hagree : d.r.Agree) (hok : d.uploadPartOk H i true write = true) :
    Yields (· = .refused) Marked (d.uploadPart H i true write) := by
  have hinv' := unbindMarked_inv hinv true
  have hmarked : (d.unbindMarked true).Marked := fun p q hpq hdims =>
    absurd (unbindMarked_agree hagree true p q hpq) hdims
  cases write with
  | true =>
    refine yields_iff.mpr ⟨fun a => updateSurfacePart_error hinv' hok, fun d' h => ?_⟩
    obtain ⟨target, d₁, -, -, hsame, hcases⟩ := updateSurfacePart_ok hinv' h
    obtain rfl := hsame rfl
    obtain rfl | ⟨-, out, hfound, rfl⟩ := hcases
    · exact hmarked
    · exact (bindFound_rebound hfound).marked rfl
  | false => exact hmarked

theorem uploadZeta_agree (hmarked : d.Marked) (hok : d.uploadPartOk H i false write = true) :
    Yields (· = .refused) (·.r.Agree) (d.uploadPart H i false write) := by
  have hinv' := unbindMarked_inv hinv false
  cases write with
  | true =>
    exact yields_iff.mpr ⟨fun a => updateSurfacePart_error hinv' hok, fun d' =>
      updateSurfacePart_agree hinv' hmarked.unbindMarked⟩
  | false => exact hmarked.unbindMarked

theorem flushPart_agree (hagree : d.r.Agree) (hok : d.flushPartOk H i color write = true) :
    Yields (· = .refused) (·.r.Agree) (d.flushPart H i color write) := by
  unfold flushPart
  split
  · next hdraws =>
    rw [flushPartOk, hdraws] at hok
    refine yields_iff.mpr ⟨fun a => updateSurfacePart_error hinv hok, fun d' h => ?_⟩
    cases color with
    | true => exact flushColor_agree hinv hagree hok h
    | false => exact updateSurfacePart_agree hinv hagree h
  · exact hagree

theorem updateParts_agree (hagree : d.r.Agree) (hok : d.updatePartsOk H u upload colorWrite zetaWrite = true) :
    Yields (· = .refused) (·.r.Agree) (d.updateParts H u upload colorWrite zetaWrite) := by
  unfold updatePartsOk at hok
  cases upload with
  | true =>
    rw [if_pos rfl, and_eq_true] at hok
    rw [← d.checkFramebuffer_r] at hinv hagree
    refine (uploadColor_marked hinv hagree hok.1).bind fun d₁ h₁ hmarked => ?_
    rw [h₁] at hok
    exact uploadZeta_agree (uploadPart_inv hinv h₁) hmarked hok.2
  | false =>
    rw [if_neg Bool.false_ne_true, and_eq_true] at hok
    refine (flushPart_agree hinv hagree hok.1).bind fun d₁ h₁ hagree₁ => ?_
    rw [h₁] at hok
    exact flushPart_agree (flushPart_inv hinv h₁) hagree₁ hok.2

end

theorem set_frameTime {s : SurfaceBinding} (q : Nat) (h : s.frameTime = (r.mem p).frameTime) :
    ((r.set p s).mem q).frameTime = (r.mem q).frameTime := by
  change (update r.mem p s q).frameTime = _
  by_cases hq : q = p
  · subst hq
    rw [update_self, h]
  · rw [update_of_ne hq]

theorem uploadSurfaceData_frameTime (r : VkState σ) (p q : Nat) (force : Bool) :
    ((r.uploadSurfaceData H p force).mem q).frameTime = (r.mem q).frameTime := by
  dsimp only [VkState.uploadSurfaceData]
  split
  · rfl
  · exact set_frameTime q rfl

theorem touchBinding_frameTime {q : Nat} (h : d.r.binding color = some q ∨ (d.r.mem q).frameTime = d.pg.frameTime) :
    ((d.touchBinding H upload color).r.mem q).frameTime = d.pg.frameTime := by
  dsimp only [touchBinding]
  cases hbinding : d.r.binding color with
  | none =>
    rw [hbinding] at h
    exact h.resolve_left (some_ne_none q).symm
  | some p =>
    have htime : ((d.r.set p { d.r.mem p with frameTime := d.pg.frameTime }).mem q).frameTime
        = d.pg.frameTime := by
      change (update d.r.mem p _ q).frameTime = _
      by_cases hq : q = p
      · subst hq
        rw [update_self]
      · rw [update_of_ne hq]
        rw [hbinding] at h
        exact h.resolve_left fun hp => hq (some.inj hp).symm
    dsimp only [elim_some]
    cases upload with
    | false => exact htime
    | true =>
      refine (set_frameTime q ?_).trans ((uploadSurfaceData_frameTime _ p q false).trans htime)
      rfl

theorem sameSizes_of_agree (h : r.Agree) : sameSizes r = true := by
  unfold sameSizes
  split
  · next p q hp hq =>
    have hdims := h p q ⟨hp, hq⟩
    rw [and_eq_true, beq_iff_eq, beq_iff_eq]
    exact ⟨congrArg Prod.fst hdims, congrArg Prod.snd hdims⟩
  · rfl

theorem touchBindings_frameTime {q : Nat} (h : d.r.binding color = some q) :
    (((d.touchBinding H upload true).touchBinding H upload false).r.mem q).frameTime
      = d.pg.frameTime := by
  have hsame := d.touchBinding_same H upload true
  refine touchBinding_frameTime (d := d.touchBinding H upload true) ?_
  cases color with
  | true => exact .inr (touchBinding_frameTime (.inl h))
  | false => exact .inl (hsame.binding ▸ h)

theorem finishUpdate_agree (hinv : CacheInv H d.r) (hagree : d.r.Agree) :
    Yields (· = .refused) (·.r.Agree) (d.finishUpdate H upload) := by
  have hsame := d.touchBindings_same H upload
  have hinv' := hsame.inv hinv
  unfold finishUpdate
  rw [if_pos (sameSizes_of_agree (hsame.agree hagree))]
  refine Yields.map (yields_iff.mpr ⟨fun a h => ?_, fun d₁ h₁ => ?_⟩) fun _ => id
  · obtain ⟨c, q, herror, hold⟩ := evictWhere_error hinv' (.refl _) h
    have hbound := herror.bound
    rw [hsame.binding] at hbound
    rw [touchBindings_frameTime hbound] at hold
    have hframe : ((d.touchBinding H upload true).touchBinding H upload false).pg.frameTime
        = d.pg.frameTime := rfl
    rw [hframe, BitVec.sub_self] at hold
    exact absurd hold (by decide)
  · obtain ⟨-, hevicted⟩ := evictWhere_ok hinv' (.refl _) h₁
    rintro p q ⟨hp, hq⟩
    obtain ⟨hp, hp'⟩ := (hevicted.binding true p).mp hp
    obtain ⟨hq, hq'⟩ := (hevicted.binding false q).mp hq
    change (d₁.r.mem p).dims = (d₁.r.mem q).dims
    rw [hevicted.mem p hp', hevicted.mem q hq']
    exact hsame.agree hagree p q ⟨hp, hq⟩

def updateOk (H : Host σ) (d : NV2AState σ) (u : UpdateInputs)
    (upload colorWrite zetaWrite : Bool) : Bool :=
  d.loadZFormat.updatePartsOk H u upload (colorWrite && d.canWrite true)
    (zetaWrite && d.canWrite false)

theorem surfaceUpdate_agree (hinv : CacheInv H d.r) (hagree : d.r.Agree)
    (hok : d.updateOk H u upload colorWrite zetaWrite = true) :
    Yields (· = .refused) (·.r.Agree) (d.surfaceUpdate H u upload colorWrite zetaWrite) := by
  rw [← d.loadZFormat_r] at hinv hagree
  exact (updateParts_agree hinv hagree hok).bind fun d₁ h₁ hagree₁ =>
    finishUpdate_agree (updateParts_inv hinv h₁) hagree₁

theorem surfaceFlush_unbound (color : Bool) : ((d.r.unbindSurface true).unbindSurface false).binding color = none := by
  rw [eq_none_iff_forall_ne_some]
  intro q hq
  obtain ⟨hfalse, hq⟩ := VkState.unbindSurface_binding_eq_some hq
  exact hfalse (eq_false_of_not_eq_true (VkState.unbindSurface_binding_eq_some hq).1)

theorem surfaceFlush_agree (hinv : CacheInv H d.r) : Yields (· = .refused) (·.r.Agree) (d.surfaceFlush H) := by
  have hinv' := (hinv.unbind true).unbind false
  have hunbound (c : Bool) (q : Nat) : ((d.r.unbindSurface true).unbindSurface false).binding c ≠ some q := by
    rw [surfaceFlush_unbound]
    exact (some_ne_none q).symm
  refine Yields.map (yields_iff.mpr ⟨fun a h => ?_, fun d₁ h₁ => ?_⟩) fun _ => id
  · obtain ⟨c, q, herror, -⟩ := evictWhere_error hinv' (.refl _) h
    exact absurd herror.bound (hunbound c q)
  · obtain ⟨-, hevicted⟩ := evictWhere_ok hinv' (.refl _) h₁
    rintro p q ⟨hp, -⟩
    exact absurd ((hevicted.binding true p).mp hp).1 (hunbound true p)

def eventOk (H : Host σ) (d : NV2AState σ) (e : SurfaceEvent σ) : Bool :=
  (d.updateCall e).all fun c => c.state.updateOk H c.inputs c.upload c.colorWrite c.zetaWrite

variable {e : SurfaceEvent σ}

theorem updateOk_of_eventOk {c : UpdateCall σ} (hok : d.eventOk H e = true) (hcall : d.updateCall e = some c) :
    c.state.updateOk H c.inputs c.upload c.colorWrite c.zetaWrite = true := by
  rw [eventOk, hcall] at hok
  exact hok

theorem exec_agree (hinv : CacheInv H d.r) (hagree : d.r.Agree) (hok : d.eventOk H e = true) :
    Yields (· = .refused) (·.r.Agree) (d.exec H e) := by
  cases d.outcome H e with
  | same d₁ hsame hexec =>
    rw [hexec]
    exact hsame.agree hagree
  | update c f hcall hstate hsame hexec =>
    rw [hexec]
    exact (surfaceUpdate_agree (hstate.symm ▸ hinv) (hstate.symm ▸ hagree)
      (updateOk_of_eventOk hok hcall)).map fun d₁ => (hsame d₁).agree
  | flush d₁ f hsame hr hexec =>
    rw [hexec]
    exact (surfaceFlush_agree (hsame.inv hinv)).map fun d₂ h => (hr d₂).symm ▸ h

end NV2AState

/-- In every run whose updates all meet the condition, an update fails in no other way than by a check
of what the guest programmed, and leaves bound surfaces of one size. -/
theorem surface_asserts_hold {H : Host σ} {d d' : NV2AState σ} {mem : Nat → SurfaceBinding}
    {store : σ} {es : List (SurfaceEvent σ)} {e : SurfaceEvent σ} (hinit : d.r = .init mem store)
    (hrun : run (NV2AState.step H) d es = some d')
    (hmeets : Meets (NV2AState.step H) (fun d e => d.eventOk H e = true) d (es ++ [e])) :
    (∀ a, d'.exec H e = .error a → a = .refused) ∧
      ∀ d'', d'.exec H e = .ok d'' → ∀ p q, d''.r.binding true = some p →
        d''.r.binding false = some q → (d''.r.mem p).dims = (d''.r.mem q).dims := by
  obtain ⟨hmeets, hlast⟩ := meets_append.mp hmeets
  have hok : d'.eventOk H e = true := (hlast d' hrun).1
  have hagree₀ : d.r.Agree := by
    rw [hinit]
    rintro p q ⟨hp, -⟩
    exact absurd hp (some_ne_none p).symm
  obtain ⟨hinv, hagree⟩ := run_invariant_of_meets (fun d => CacheInv H d.r ∧ d.r.Agree)
    (fun d e d' hd hok hstep =>
      ⟨NV2AState.exec_inv hd.1 (toOption_eq_some.mp hstep),
        (yields_iff.mp (NV2AState.exec_agree hd.1 hd.2 hok)).2 d' (toOption_eq_some.mp hstep)⟩)
    ⟨hinit ▸ VkState.init_inv mem store, hagree₀⟩ hmeets hrun
  obtain ⟨herror, hagree'⟩ := yields_iff.mp (NV2AState.exec_agree hinv hagree hok)
  exact ⟨herror, fun d'' h p q hp hq => hagree' d'' h p q ⟨hp, hq⟩⟩

theorem surface_asserts_hold_overlapping :
    ∃ d', run (NV2AState.step plainHost) plainBoot overlappingDraws = some d' ∧
      (∀ a, d'.exec plainHost (.drawBegin plainInputs) = .error a → a = .refused) ∧
      ∀ d'', d'.exec plainHost (.drawBegin plainInputs) = .ok d'' → ∀ p q,
        d''.r.binding true = some p → d''.r.binding false = some q →
          (d''.r.mem p).dims = (d''.r.mem q).dims := by
  refine exists_some_of_isSome (by decide +kernel) fun d' hrun => ?_
  exact surface_asserts_hold rfl hrun (by decide +kernel)

/-- Zeta begins inside colour: the draw creates the colour surface and binds it, and the zeta surface
evicts it. -/
theorem surface_assert_fails :
    (run (NV2AState.step plainHost) plainBoot (programTargets 0 0x200)).map
      (fun d => (d.exec plainHost (.drawBegin plainInputs)).map fun _ => ())
        = some (.error (.evictsBound true)) := by
  decide +kernel

end XogMobile.Nv2a.Vk
