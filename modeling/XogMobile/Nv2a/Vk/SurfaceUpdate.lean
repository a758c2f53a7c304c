import XogMobile.Nv2a.Vk.SurfaceCache

/-!
# Updates of the render targets

`pgraph_vk_surface_update` finds or creates a surface for each target and binds it. Every path keeps
`CacheInv`, and so does everything else that happens to the surfaces. On the way the sizes of the two
targets are followed: a new zeta surface has the size of the bound colour surface, and a new colour
surface marks zeta if the sizes differ.
-/

namespace XogMobile.Nv2a.Vk

open Lib Function Option

variable {σ : Type}

structure Target (color : Bool) (dims : Word × Word) (target : SurfaceBinding) : Prop where
  bounded : target.Bounded
  color : target.color = color
  dims : target.dims = dims
  unsaved : target.unsaved = false

theorem address_lt_of_nvDmaLoad {ramin : Ramin} {addr : Word} {dma : DMAObject}
    (h : nvDmaLoad ramin addr = some dma) : dma.address.toNat < 2 ^ 32 := by
  unfold nvDmaLoad at h
  split at h
  · rw [← some.inj h, BitVec.toNat_setWidth_of_le (by omega)]
    exact BitVec.isLt _
  · cases h

namespace NV2AState

variable {H : Host σ} {d d' : NV2AState σ} {p : Nat} {target : SurfaceBinding} {color : Bool}
  {i : PartInputs}

theorem populateSurfaceBindingTargetSized_ok {ramin : Ramin} {width height : Word}
    (h : d.populateSurfaceBindingTargetSized H ramin color width height = .ok target) :
    Target color (width, height) target := by
  unfold populateSurfaceBindingTargetSized at h
  split at h
  · next format dma hformat hdma =>
    dsimp only at h
    split at h
    · cases h
      have haddress := address_lt_of_nvDmaLoad hdma
      refine ⟨⟨?_, ?_⟩, rfl, rfl, rfl⟩
      · rw [BitVec.toNat_add, BitVec.toNat_setWidth_of_le (by omega)]
        exact (Nat.mod_le _ _).trans_lt (by omega)
      · rw [BitVec.toNat_setWidth_of_le (by omega)]
        exact BitVec.isLt _
    · cases h
  · cases h

theorem populateSurfaceBindingTarget_ok {ramin : Ramin}
    (h : d.populateSurfaceBindingTarget H ramin color = .ok target) :
    ∃ dims, d.targetDimensions color = some dims ∧ Target color dims target := by
  unfold populateSurfaceBindingTarget at h
  split at h
  · next dims hdims => exact ⟨dims, hdims, populateSurfaceBindingTargetSized_ok h⟩
  · cases h

theorem setSurface_surface_self (d : NV2AState σ) (color : Bool) (f : Surface → Surface) :
    (d.setSurface color f).pg.surface color = f (d.pg.surface color) := update_self _ _ _

theorem markZeta_r (d : NV2AState σ) (color : Bool) (target : SurfaceBinding) : (d.markZeta color target).r = d.r := by
  unfold markZeta
  split
  · split <;> rfl
  · rfl

theorem markZeta_marked {q : Nat} (hq : d.r.binding false = some q) (hdims : (d.r.mem q).dims ≠ target.dims) :
    ((d.markZeta true target).pg.surface false).bufferDirty = true := by
  have hne : (d.r.mem q).width ≠ target.width ∨ (d.r.mem q).height ≠ target.height := by
    by_contra hsame
    rw [not_or, not_not, not_not] at hsame
    exact hdims (Prod.ext hsame.1 hsame.2)
  simp only [markZeta, hq]
  rw [if_pos hne, setSurface_surface_self]

end NV2AState

/-- The surface found for a target is active and of its kind. Nothing new is bound yet. The sizes of
the two targets agree, or zeta is marked. -/
structure Found (H : Host σ) (color : Bool) (d : NV2AState σ) (out : NV2AState σ × Nat) : Prop where
  inv : CacheInv H out.1.r
  active : out.2 ∈ out.1.r.surfaces
  kind : (out.1.r.mem out.2).color = color
  binding : ∀ c q, out.1.r.binding c = some q → d.r.binding c = some q ∧
    (out.1.r.mem q).dims = (d.r.mem q).dims
  marked : color = true → ∀ q, out.1.r.binding false = some q →
    (out.1.r.mem q).dims ≠ (out.1.r.mem out.2).dims → (out.1.pg.surface false).bufferDirty = true
  sizes : color = false → ∀ q, out.1.r.binding true = some q →
    (out.1.r.mem out.2).dims = (out.1.r.mem q).dims

namespace NV2AState

variable {H : Host σ} {d d' : NV2AState σ} {p : Nat} {target : SurfaceBinding} {color : Bool}
  {i : PartInputs} {dims : Word × Word}

variable {out : NV2AState σ × Nat} {s : SurfaceBinding} {found : Option Nat}

theorem createSurface_found (hinv : CacheInv H d.r) (htarget : Target color dims target)
    (hsizes : color = false → ∀ q, d.r.binding true = some q → (d.r.mem q).dims = dims)
    (h : d.createSurface H color target = .ok out) : Found H color d out := by
  have hfresh := takeSurface_fresh hinv target
  obtain ⟨d₂, hput, rfl⟩ := map_eq_ok.mp h
  have hinv₀ := hfresh.inv hinv
  have hself := hfresh.mem_self
  have hinv₂ : CacheInv H d₂.r := surfacePut_inv hinv₀ hfresh.not_mem hfresh.not_mem_invalid
    (by rw [hself]; exact htarget.bounded) (by rw [hself]; exact .of_unsaved htarget.unsaved) hput
  obtain ⟨-, d₁, rfl, hinv₁, hevicted⟩ := surfacePut_ok hinv₀ hput
  have hmem : d₁.r.mem (takeSurface d.r target).2 = target := by
    rw [hevicted.mem _ fun hp => absurd hp hfresh.not_mem]
    exact hself
  have hbinding : ∀ c q, d₁.r.binding c = some q → d.r.binding c = some q ∧ d₁.r.mem q = d.r.mem q := by
    intro c q hq
    obtain ⟨hq, hclear⟩ := (hevicted.binding c q).mp hq
    rw [hfresh.binding] at hq
    exact ⟨hq, (hevicted.mem q hclear).trans (hfresh.mem_of_mem (hinv.bound c q hq).1)⟩
  refine ⟨?_, ?_, ?_, ?_, ?_, ?_⟩
  · rw [markZeta_r]
    exact hinv₂
  · rw [markZeta_r]
    exact List.mem_cons_self
  · rw [markZeta_r]
    exact (congrArg SurfaceBinding.color hmem).trans htarget.color
  · intro c q hq
    rw [markZeta_r] at hq ⊢
    obtain ⟨hq, hsame⟩ := hbinding c q hq
    exact ⟨hq, congrArg SurfaceBinding.dims hsame⟩
  · rintro rfl q hq hdims
    rw [markZeta_r] at hq hdims
    refine markZeta_marked hq ?_
    rw [← hmem]
    exact hdims
  · intro hcolor q hq
    rw [markZeta_r] at hq ⊢
    obtain ⟨hq, hsame⟩ := hbinding true q hq
    rw [hmem, hsame, htarget.dims, hsizes hcolor q hq]

theorem isCompatible_color (h : d.isCompatible H i color s target = .ok true) : s.color = target.color := by
  unfold isCompatible at h
  split at h
  · cases h
  · split at h
    · cases h
    · next hcheck =>
      rw [Bool.not_eq_true', Bool.not_eq_false] at hcheck
      simp only [checkSurfaceCompatibility, Bool.and_eq_true, beq_iff_eq] at hcheck
      exact hcheck.1.1.1

theorem isCompatible_dims (h : d.isCompatible H i false s target = .ok true) {q : Nat}
    (hq : d.r.binding true = some q) : s.dims = (d.r.mem q).dims := by
  unfold isCompatible at h
  rw [hq] at h
  split at h
  · cases h
  · split at h
    · cases h
    · have hsame := Except.ok.inj h
      rw [Bool.and_eq_true, beq_iff_eq, beq_iff_eq] at hsame
      exact Prod.ext hsame.1 hsame.2

theorem hitSurface_same (d : NV2AState σ) (memDirty color : Bool) (p : Nat) :
    SameCache d.r (d.hitSurface memDirty color p).r :=
  .of_update rfl rfl rfl rfl rfl ⟨rfl, rfl, rfl, rfl, id⟩

theorem hitSurface_marked (d : NV2AState σ) (memDirty : Bool) (p : Nat) :
    ((d.hitSurface memDirty true p).pg.surface false).bufferDirty = true := by
  exact Bool.or_true _

theorem findSurface_found (hinv : CacheInv H d.r) (hfound : ∀ p, found = some p → p ∈ d.r.surfaces)
    (htarget : Target color dims target)
    (hsizes : color = false → ∀ q, d.r.binding true = some q → (d.r.mem q).dims = dims)
    (h : d.findSurface H i color target found = .ok out) : Found H color d out := by
  cases found with
  | none => exact createSurface_found hinv htarget hsizes h
  | some p =>
    have hp := hfound p rfl
    obtain ⟨compatible, hcompatible, h⟩ := bind_eq_ok.mp h
    split at h
    · next hok =>
      subst hok
      cases h
      have hsame := d.hitSurface_same (!H.tcgEnabled && i.memDirty) color p
      refine ⟨hsame.inv hinv, hsame.surfaces ▸ hp, ?_, ?_, ?_, ?_⟩
      · rw [(hsame.mem p).color, isCompatible_color hcompatible]
        exact htarget.color
      · intro c q hq
        exact ⟨hq, (hsame.mem q).dims⟩
      · rintro rfl q - -
        exact d.hitSurface_marked _ p
      · rintro rfl q hq
        rw [(hsame.mem p).dims, (hsame.mem q).dims]
        exact isCompatible_dims hcompatible hq
    · obtain ⟨d₁, h₁, h⟩ := bind_eq_ok.mp h
      have hevicted : Evicted (fun _ => true) [p] d d₁ := evictSurface_evicted hinv rfl h₁
      have hbinding : ∀ c q, d₁.r.binding c = some q → d.r.binding c = some q ∧ d₁.r.mem q = d.r.mem q := by
        intro c q hq
        obtain ⟨hq, hclear⟩ := (hevicted.binding c q).mp hq
        exact ⟨hq, hevicted.mem q hclear⟩
      have hfound' := createSurface_found (evictSurface_inv hinv hp h₁) htarget
        (fun hcolor q hq => by
          obtain ⟨hq, hsame⟩ := hbinding true q hq
          rw [hsame]
          exact hsizes hcolor q hq) h
      refine { hfound' with binding := fun c q hq => ?_ }
      obtain ⟨hq, hdims⟩ := hfound'.binding c q hq
      obtain ⟨hq, hsame⟩ := hbinding c q hq
      exact ⟨hq, hsame ▸ hdims⟩

theorem unbindForTarget_inv (hinv : CacheInv H d.r) (color : Bool) (found : Option Nat) :
    CacheInv H (d.unbindForTarget color found).r := by
  dsimp only [unbindForTarget]
  split
  · exact (hinv.unbind color).unbind (!color)
  · exact hinv.unbind color

theorem unbindForTarget_mem (d : NV2AState σ) (color : Bool) (found : Option Nat) :
    (d.unbindForTarget color found).r.mem = d.r.mem := by
  dsimp only [unbindForTarget]
  split
  · rw [VkState.unbindSurface_mem, VkState.unbindSurface_mem]
  · exact VkState.unbindSurface_mem

theorem unbindForTarget_surfaces (d : NV2AState σ) (color : Bool) (found : Option Nat) :
    (d.unbindForTarget color found).r.surfaces = d.r.surfaces := by
  dsimp only [unbindForTarget]
  split
  · rw [VkState.unbindSurface_surfaces, VkState.unbindSurface_surfaces]
  · exact VkState.unbindSurface_surfaces

theorem unbindForTarget_binding {c : Bool} {q : Nat} (h : (d.unbindForTarget color found).r.binding c = some q) :
    c = !color ∧ d.r.binding c = some q ∧ found ≠ some q := by
  dsimp only [unbindForTarget] at h
  split at h
  · obtain ⟨hc, h⟩ := VkState.unbindSurface_binding_eq_some h
    obtain ⟨hc', -⟩ := VkState.unbindSurface_binding_eq_some h
    exact absurd (Bool.eq_not_of_ne hc') hc
  · next hother =>
    obtain ⟨hc, hq⟩ := VkState.unbindSurface_binding_eq_some h
    have hc' : c = !color := Bool.eq_not_of_ne hc
    refine ⟨hc', hq, ?_⟩
    rintro rfl
    exact hother ⟨rfl, hc' ▸ h⟩

end NV2AState

def VkState.BothBound (r : VkState σ) (p q : Nat) : Prop :=
  r.binding true = some p ∧ r.binding false = some q

structure Rebound (H : Host σ) (color : Bool) (d' : NV2AState σ) : Prop where
  inv : CacheInv H d'.r
  marked : color = true → ∀ p q, d'.r.BothBound p q → (d'.r.mem p).dims ≠ (d'.r.mem q).dims →
    (d'.pg.surface false).bufferDirty = true
  sizes : color = false → ∀ p q, d'.r.BothBound p q → (d'.r.mem p).dims = (d'.r.mem q).dims

namespace NV2AState

variable {H : Host σ} {d d' : NV2AState σ} {target : SurfaceBinding} {color : Bool} {i : PartInputs}
  {dims : Word × Word}

def bindFound (color : Bool) (out : NV2AState σ × Nat) : NV2AState σ :=
  { out.1 with r := out.1.r.bindSurface out.2 }.setSurface color fun s =>
    { s with bufferDirty := false }

variable {out : NV2AState σ × Nat} {upload write colorWrite zetaWrite : Bool} {u : UpdateInputs}

theorem bindFound_binding (h : Found H color d out) (c : Bool) :
    (bindFound color out).r.binding c = if c = color then some out.2 else out.1.r.binding c := by
  change update out.1.r.binding (out.1.r.mem out.2).color (some out.2) c = _
  rw [h.kind, update_apply]

theorem bindFound_rebound (h : Found H color d out) : Rebound H color (bindFound color out) := by
  refine ⟨h.inv.bind h.active, ?_, ?_⟩
  · rintro rfl p q ⟨hp, hq⟩ hdims
    rw [bindFound_binding h] at hp
    rw [bindFound_binding h] at hq
    cases hp
    exact h.marked rfl q hq hdims.symm
  · rintro rfl p q ⟨hp, hq⟩
    rw [bindFound_binding h] at hp
    rw [bindFound_binding h] at hq
    cases hq
    exact (h.sizes rfl p hp).symm

theorem rebindSurface_found (hinv : CacheInv H d.r) (htarget : Target color dims target)
    (hsizes : color = false → ∀ q, d.r.binding true = some q → (d.r.mem q).dims = dims)
    (h : d.rebindSurface H i color target = .ok d') :
    ∃ out, Found H color (d.unbindForTarget color (d.r.surfaceGet target.vramAddr)) out ∧ d' = bindFound color out := by
  obtain ⟨out, hout, rfl⟩ := map_eq_ok.mp h
  refine ⟨out, findSurface_found (unbindForTarget_inv hinv color _) ?_ htarget ?_ hout, rfl⟩
  · intro p hp
    rw [unbindForTarget_surfaces]
    exact (VkState.surfaceGet_eq_some hp).1
  · intro hcolor q hq
    rw [unbindForTarget_mem]
    exact hsizes hcolor q (unbindForTarget_binding hq).2.1

theorem settleDraws_same (H : Host σ) (d : NV2AState σ) (color : Bool) : SameCache d.r (d.settleDraws H color).r := by
  dsimp only [settleDraws]
  split
  · exact .refl d.r
  · exact .elim fun p => d.r.downloadSurface_same H p true

theorem targetDimensions_zeta {q : Nat} (hdims : d.targetDimensions false = some dims)
    (hq : d.r.binding true = some q) : (d.r.mem q).dims = dims := by
  simp only [targetDimensions, hq] at hdims
  exact some.inj hdims

theorem updateSurfacePart_ok (hinv : CacheInv H d.r) (h : d.updateSurfacePart H i upload color = .ok d') :
    ∃ target d₁, d.populateSurfaceBindingTarget H i.ramin color = .ok target ∧
      SameCache d₁.r d'.r ∧ (upload = true → d' = d₁) ∧
      (d₁ = d ∨ d.rebinds H i upload color = true ∧
        ∃ out, Found H color (d.unbindForTarget color (d.r.surfaceGet target.vramAddr)) out ∧
          d₁ = bindFound color out) := by
  obtain ⟨target, htarget, h⟩ := bind_eq_ok.mp h
  obtain ⟨d₁, h₁, rfl⟩ := map_eq_ok.mp h
  refine ⟨target, d₁, htarget, ?_, ?_, ?_⟩
  · split
    · exact d₁.settleDraws_same H color
    · exact .refl d₁.r
  · rintro rfl
    rfl
  · obtain ⟨dims, hdims, htarget⟩ := populateSurfaceBindingTarget_ok htarget
    split at h₁
    · next hrebinds =>
      refine .inr ⟨hrebinds, rebindSurface_found hinv htarget ?_ h₁⟩
      rintro rfl q hq
      exact targetDimensions_zeta hdims hq
    · cases h₁
      exact .inl rfl

theorem updateSurfacePart_inv (hinv : CacheInv H d.r)
    (h : d.updateSurfacePart H i upload color = .ok d') : CacheInv H d'.r := by
  obtain ⟨target, d₁, -, hsame, -, rfl | ⟨-, out, hfound, rfl⟩⟩ := updateSurfacePart_ok hinv h
  · exact hsame.inv hinv
  · exact hsame.inv (bindFound_rebound hfound).inv

theorem unbindMarked_inv (hinv : CacheInv H d.r) (color : Bool) : CacheInv H (d.unbindMarked color).r := by
  unfold unbindMarked
  split
  · exact hinv.unbind color
  · exact hinv

theorem uploadPart_inv (hinv : CacheInv H d.r) (h : d.uploadPart H i color write = .ok d') : CacheInv H d'.r := by
  cases write with
  | true => exact updateSurfacePart_inv (unbindMarked_inv hinv color) h
  | false =>
    cases h
    exact unbindMarked_inv hinv color

theorem flushPart_inv (hinv : CacheInv H d.r) (h : d.flushPart H i color write = .ok d') : CacheInv H d'.r := by
  unfold flushPart at h
  split at h
  · exact updateSurfacePart_inv hinv h
  · cases h
    exact hinv

theorem checkFramebuffer_r (d : NV2AState σ) : d.checkFramebuffer.r = d.r := by
  unfold checkFramebuffer
  split <;> rfl

theorem updateParts_inv (hinv : CacheInv H d.r)
    (h : d.updateParts H u upload colorWrite zetaWrite = .ok d') : CacheInv H d'.r := by
  cases upload with
  | true =>
    obtain ⟨d₁, h₁, h⟩ := bind_eq_ok.mp h
    exact uploadPart_inv (uploadPart_inv (d.checkFramebuffer_r.symm ▸ hinv) h₁) h
  | false =>
    obtain ⟨d₁, h₁, h⟩ := bind_eq_ok.mp h
    exact flushPart_inv (flushPart_inv hinv h₁) h

theorem touchBinding_same (H : Host σ) (d : NV2AState σ) (upload color : Bool) :
    SameCache d.r (d.touchBinding H upload color).r := by
  refine .elim fun p => ?_
  have htime : SameCache d.r (d.r.set p { d.r.mem p with frameTime := d.pg.frameTime }) := .set ⟨rfl, rfl, rfl, rfl, id⟩
  cases upload with
  | false => exact htime
  | true =>
    refine htime.trans ((VkState.uploadSurfaceData_same H _ p false).trans ?_)
    exact .set ⟨rfl, rfl, rfl, rfl, id⟩

theorem touchBindings_same (H : Host σ) (d : NV2AState σ) (upload : Bool) :
    SameCache d.r ((d.touchBinding H upload true).touchBinding H upload false).r :=
  (d.touchBinding_same H upload true).trans (touchBinding_same H _ upload false)

theorem finishUpdate_inv (hinv : CacheInv H d.r) (h : d.finishUpdate H upload = .ok d') : CacheInv H d'.r := by
  unfold finishUpdate at h
  dsimp only at h
  split at h
  · obtain ⟨d₁, h₁, rfl⟩ := map_eq_ok.mp h
    exact (evictWhere_ok ((d.touchBindings_same H upload).inv hinv) (.refl _) h₁).1.prune _
  · cases h

theorem loadZFormat_r (d : NV2AState σ) : d.loadZFormat.r = d.r := by rw [loadZFormat]

theorem surfaceUpdate_inv (hinv : CacheInv H d.r)
    (h : d.surfaceUpdate H u upload colorWrite zetaWrite = .ok d') : CacheInv H d'.r := by
  obtain ⟨d₁, h₁, h⟩ := bind_eq_ok.mp h
  rw [← d.loadZFormat_r] at hinv
  exact finishUpdate_inv (updateParts_inv hinv h₁) h

theorem surfaceFlush_inv (hinv : CacheInv H d.r) (h : d.surfaceFlush H = .ok d') : CacheInv H d'.r := by
  obtain ⟨d₁, h₁, rfl⟩ := map_eq_ok.mp h
  exact (evictWhere_ok ((hinv.unbind true).unbind false) (.refl _) h₁).1.prune 0

theorem same_ite {c : Prop} [Decidable c] (h : SameCache d.r d'.r) : SameCache d.r (if c then d' else d).r := by
  rw [apply_ite NV2AState.r]
  exact .ite h

variable (H d)

theorem markTarget_same (color dirty : Bool) : SameCache d.r (d.markTarget color dirty).r := by
  refine .elim fun p => .set ⟨rfl, rfl, rfl, rfl, fun htracked hunsaved => ?_⟩
  rw [markDrawn, Bool.or_eq_true] at hunsaved ⊢
  exact hunsaved.imp_left htracked

theorem setSurfaceDirty_same (color zeta : Bool) : SameCache d.r (d.setSurfaceDirty color zeta).r :=
  (d.markTarget_same true _).trans (markTarget_same _ false _)

theorem blitSource_same (r : VkState σ) (addr : Hwaddr) : SameCache r (blitSource H r addr) :=
  .elim fun p => r.surfaceDownloadIfDirty_same H p

theorem blitDest_same (r : VkState σ) (addr : Hwaddr) (height rowPixels : Nat) :
    SameCache r (blitDest H r addr height rowPixels) := by
  refine .elim fun p => SameCache.trans ?_ (.set ⟨rfl, rfl, rfl, rfl, id⟩)
  split
  · exact r.surfaceDownloadIfDirty_same H p
  · exact .set ⟨rfl, rfl, rfl, rfl, fun _ => nofun⟩

theorem renderDisplay_same (addr : Hwaddr) : SameCache d.r (d.renderDisplay H addr).r :=
  .elim fun p => .ite (d.r.uploadSurfaceData_same H p _)

theorem getFramebufferSurface_same (addr : Hwaddr) : SameCache d.r (d.getFramebufferSurface addr).r := by
  refine .elim fun p => .ite (SameCache.trans ?_ (VkState.waitForSurfaceDownload_same p))
  exact .set ⟨rfl, rfl, rfl, rfl, id⟩

theorem useAsTexture_same (addr : Hwaddr) : SameCache d.r (d.useAsTexture H addr).r :=
  .elim fun p => d.r.uploadSurfaceData_same H p false

theorem request_same (what : Request) : SameCache d.r (d.request what).r := by
  cases what <;> exact .of_mem rfl rfl rfl rfl rfl

theorem processPending_eq (display : Hwaddr) : ∃ d₁ : NV2AState σ, SameCache d.r d₁.r ∧ d.processPending H display =
      if d₁.flushPending then (d₁.surfaceFlush H).map fun d => { d with flushPending := false }
      else .ok d₁ := by
  set d₁ := if d.r.downloadsPending then { d with r := d.r.processPendingDownloads H } else d
  set d₂ := if d₁.r.downloadDirtySurfacesPending then { d₁ with r := d₁.r.downloadDirtySurfaces H }
    else d₁
  set d₃ := if d₂.syncPending then { d₂.renderDisplay H display with syncPending := false } else d₂
  have hsame₁ : SameCache d.r d₁.r := same_ite VkState.processPendingDownloads_same
  have hsame₂ : SameCache d₁.r d₂.r := same_ite VkState.downloadDirtySurfaces_same
  have hsame₃ : SameCache d₂.r d₃.r := same_ite (renderDisplay_same H d₂ display)
  exact ⟨d₃, (hsame₁.trans hsame₂).trans hsame₃, rfl⟩

end NV2AState

structure UpdateCall (σ : Type) where
  state : NV2AState σ
  inputs : NV2AState.UpdateInputs
  (upload colorWrite zetaWrite : Bool)

def UpdateCall.exec (H : Host σ) (c : UpdateCall σ) : Except Abort (NV2AState σ) :=
  c.state.surfaceUpdate H c.inputs c.upload c.colorWrite c.zetaWrite

namespace NV2AState

variable {H : Host σ} {d d' : NV2AState σ} {e : SurfaceEvent σ}

def updateCall (d : NV2AState σ) : SurfaceEvent σ → Option (UpdateCall σ)
  | .method m _ u => if m.updates then some ⟨d, u, false, true, true⟩ else none
  | .drawBegin u => some ⟨d, u, true, true, d.pg.depthOrStencilTest⟩
  | .clearSurface parameter u =>
    some ⟨{ d with pg := { d.pg with clearing := true } }, u, true, parameter &&& 0xF0 != 0,
      parameter &&& 0x3 != 0⟩
  | .imageBlit _ _ _ _ u => some ⟨d, u, false, true, true⟩
  | _ => none

/-- What an event comes to: nothing that the cache keeps changes, or the surfaces are updated, or they
are flushed. -/
inductive Outcome (H : Host σ) (d : NV2AState σ) (e : SurfaceEvent σ) : Prop
  | same (d' : NV2AState σ) (hsame : SameCache d.r d'.r) (hexec : d.exec H e = .ok d')
  | update (c : UpdateCall σ) (f : NV2AState σ → NV2AState σ) (hcall : d.updateCall e = some c)
      (hstate : c.state.r = d.r) (hsame : ∀ d₁, SameCache d₁.r (f d₁).r)
      (hexec : d.exec H e = (c.exec H).map f)
  | flush (d₁ : NV2AState σ) (f : NV2AState σ → NV2AState σ) (hsame : SameCache d.r d₁.r)
      (hr : ∀ d₂, (f d₂).r = d₂.r) (hexec : d.exec H e = (d₁.surfaceFlush H).map f)

theorem outcome (H : Host σ) (d : NV2AState σ) (e : SurfaceEvent σ) : Outcome H d e := by
  cases e with
  | method m parameter u =>
    by_cases hupdates : m.updates = true
    · refine .update ⟨d, u, false, true, true⟩ _ (if_pos hupdates) rfl (fun d₁ => ?_)
        (congrArg (Except.map _) (if_pos hupdates))
      exact .refl d₁.r
    · refine .same _ ?_ (congrArg (Except.map _) (if_neg hupdates))
      exact .refl d.r
  | drawBegin u =>
    exact .update ⟨d, u, true, true, d.pg.depthOrStencilTest⟩ id rfl rfl (fun d₁ => .refl d₁.r)
      (congrFun Except.map_id _).symm
  | drawEnd =>
    refine .same _ ?_ rfl
    unfold drawEnd
    split
    · exact .refl d.r
    · exact d.setSurfaceDirty_same _ _
  | clearSurface parameter u =>
    refine .update ⟨{ d with pg := { d.pg with clearing := true } }, u, true,
      parameter &&& 0xF0 != 0, parameter &&& 0x3 != 0⟩ _ rfl rfl (fun d₁ => ?_) rfl
    dsimp only
    split
    · exact setSurfaceDirty_same _ _ _
    · exact .refl d₁.r
  | imageBlit source dest height rowPixels u =>
    exact .update ⟨d, u, false, true, true⟩ _ rfl rfl (fun d₁ =>
      (blitSource_same H d₁.r source).trans (blitDest_same H _ dest height rowPixels)) rfl
  | textureUse addr => exact .same _ (d.useAsTexture_same H addr) rfl
  | memoryUse start size => exact .same _ (VkState.downloadSurfacesInRangeIfDirty_same start size) rfl
  | cpuAccess addr len write => exact .same _ (VkState.surfaceAccessCallback_same addr len write) rfl
  | getFramebufferSurface addr => exact .same _ (d.getFramebufferSurface_same addr) rfl
  | request what => exact .same _ (d.request_same what) rfl
  | processPending display =>
    obtain ⟨d₁, hsame, heq⟩ := d.processPending_eq H display
    by_cases hflush : d₁.flushPending = true
    · refine .flush d₁ _ hsame (fun d₂ => ?_) (heq.trans (if_pos hflush))
      rfl
    · exact .same d₁ hsame (heq.trans (if_neg hflush))
  | reg | memory =>
    refine .same _ ?_ rfl
    exact .of_mem rfl rfl rfl rfl rfl

theorem exec_inv (hinv : CacheInv H d.r) (h : d.exec H e = .ok d') : CacheInv H d'.r := by
  cases d.outcome H e with
  | same d₁ hsame hexec =>
    obtain rfl := Except.ok.inj (hexec.symm.trans h)
    exact hsame.inv hinv
  | update c f hcall hstate hsame hexec =>
    obtain ⟨d₁, h₁, rfl⟩ := map_eq_ok.mp (hexec.symm.trans h)
    exact (hsame d₁).inv (surfaceUpdate_inv (hstate.symm ▸ hinv) h₁)
  | flush d₁ f hsame hr hexec =>
    obtain ⟨d₂, h₂, rfl⟩ := map_eq_ok.mp (hexec.symm.trans h)
    exact hr d₂ ▸ surfaceFlush_inv (hsame.inv hinv) h₂

end NV2AState

theorem VkState.init_inv (mem : Nat → SurfaceBinding) (store : σ) : CacheInv H (VkState.init mem store) := by
  refine ⟨.nil, .nil, ?_, .nil, ?_, ?_, ?_, ?_⟩ <;> simp [init]

theorem cacheInv_of_run {H : Host σ} {d d' : NV2AState σ} {mem : Nat → SurfaceBinding} {store : σ}
    {es : List (SurfaceEvent σ)} (hinit : d.r = .init mem store)
    (hrun : run (NV2AState.step H) d es = some d') : CacheInv H d'.r := by
  refine run_invariant (fun d => CacheInv H d.r) (fun d e d' hinv hstep => ?_) ?_ hrun
  · exact NV2AState.exec_inv hinv (toOption_eq_some.mp hstep)
  · rw [hinit]
    exact VkState.init_inv mem store

def plainHost : Host Unit where
  tcgEnabled := true
  d24UnormS8Uint := true
  writeBack _ _ := id
  upload _ _ := id

def plainRamin : Ramin := fun addr => if addr = 0 then 0x3d else if addr = 4 then 0x07FFFFFF else 0

def plainInputs : NV2AState.UpdateInputs :=
  ⟨⟨plainRamin, plainRamin, false⟩, ⟨plainRamin, plainRamin, false⟩⟩

def blankSurface : SurfaceBinding :=
  ⟨0, .zero, false, false, 0, 0, 0, 0, 0, false, false, false, ⟨0, .r8Unorm, .colorAttachment⟩,
    false, false⟩

def plainBoot : NV2AState Unit where
  pg := {
    regs := fun addr => if addr = control0 then 0x3D004000 else 0
    dma := fun _ => 0
    surface := fun _ => ⟨false, false, false, 0, 0⟩
    surfaceType := 0
    surfaceShape := .zero
    lastSurfaceShape := .zero
    surfaceBindingDim := blankSurface.dim
    clearing := false
    frameTime := 0 }
  r := .init (fun _ => blankSurface) ()
  syncPending := false
  flushPending := false

def programTargets (colorOffset zetaOffset : Word) : List (SurfaceEvent σ) :=
  [.method .setSurfaceFormat 0x00000128 plainInputs,
    .method .setSurfaceClipHorizontal 0x00100000 plainInputs,
    .method .setSurfaceClipVertical 0x00100000 plainInputs,
    .method .setSurfacePitch 0x00400040 plainInputs,
    .method .setSurfaceColorOffset colorOffset plainInputs,
    .method .setSurfaceZetaOffset zetaOffset plainInputs]

def overlappingDraws : List (SurfaceEvent Unit) :=
  programTargets 0 0x1000 ++ [.drawBegin plainInputs, .drawEnd] ++
    [.method .setSurfaceColorOffset 0x200 plainInputs, .drawBegin plainInputs, .drawEnd]

end XogMobile.Nv2a.Vk
