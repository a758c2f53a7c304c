import XogMobile.Nv2a.Vk.Surface
import XogMobile.Lib.Except
import Mathlib.Order.Interval.Set.Disjoint
import Mathlib.Order.CompletePartialOrder
import Mathlib.Data.List.Pairwise

/-!
# What the surface cache keeps

Active surfaces stand for disjoint parts of guest memory, the two bindings are active surfaces of
their own kind, and a surface leaves only with nothing unsaved. All of it is carried by `CacheInv`.
Most operations change one surface in fields that the invariant does not read (`Alike`); the lists
are changed by a removal (`Removed`) and an insertion.
-/

namespace XogMobile.Nv2a.Vk

open Lib Function List Option

variable {σ : Type} {H : Host σ}

def SurfaceBinding.bytes (s : SurfaceBinding) : Set Nat :=
  Set.Ico s.vramAddr.toNat (s.vramAddr.toNat + s.size.toNat)

structure SurfaceBinding.Apart (s t : SurfaceBinding) : Prop where
  bytes : Disjoint s.bytes t.bytes
  vramAddr : s.vramAddr ≠ t.vramAddr

/-- What was drawn to the surface and not written back before was written back for the move. A surface
without pixels has nothing to write. -/
def Eviction.Saved (H : Host σ) (x : Eviction σ) : Prop :=
  x.surface.unsaved = true ∨ x.surface.drawDirty = true →
    x.surface.width = 0 ∨ x.surface.height = 0 ∨ ∃ before, x.store = H.writeBack x.slot x.surface before

structure SurfaceBinding.Bounded (s : SurfaceBinding) : Prop where
  vramAddr : s.vramAddr.toNat < 2 ^ 33
  size : s.size.toNat < 2 ^ 32

def SurfaceBinding.Tracked (s : SurfaceBinding) : Prop := s.unsaved = true → s.drawDirty = true

/-- Surfaces are disjoint, bound ones are listed, and evicted ones were saved. -/
structure CacheInv (H : Host σ) (r : VkState σ) : Prop where
  nodup : r.surfaces.Nodup
  invalidNodup : r.invalidSurfaces.Nodup
  fresh : ∀ p ∈ r.invalidSurfaces, p ∉ r.surfaces
  apart : r.surfaces.Pairwise fun p q => (r.mem p).Apart (r.mem q)
  bounded : ∀ p ∈ r.surfaces, (r.mem p).Bounded
  tracked : ∀ p ∈ r.surfaces, (r.mem p).Tracked
  bound : ∀ color p, r.binding color = some p → p ∈ r.surfaces ∧ (r.mem p).color = color
  saved : ∀ x ∈ r.evicted, x.Saved H

variable {s t : SurfaceBinding}

theorem SurfaceBinding.Apart.symm (h : s.Apart t) : t.Apart s := ⟨h.bytes.symm, h.vramAddr.symm⟩

theorem disjoint_of_not_overlap (hs : s.Bounded) (ht : t.Bounded)
    (h : checkSurfacesOverlap s t = false) : Disjoint s.bytes t.bytes := by
  have hs' : (s.vramAddr + s.size).toNat = s.vramAddr.toNat + s.size.toNat := by
    have := hs.vramAddr
    have := hs.size
    rw [BitVec.toNat_add, Nat.mod_eq_of_lt (by omega)]
  have ht' : (t.vramAddr + t.size).toNat = t.vramAddr.toNat + t.size.toNat := by
    have := ht.vramAddr
    have := ht.size
    rw [BitVec.toNat_add, Nat.mod_eq_of_lt (by omega)]
  simp only [checkSurfacesOverlap, checkSurfaceOverlapsRange, Bool.not_eq_false', Bool.or_eq_true,
    decide_eq_true_eq, BitVec.le_def, ht'] at h
  rw [SurfaceBinding.bytes, SurfaceBinding.bytes, Set.Ico_disjoint_Ico]
  omega

def SurfaceBinding.dims (s : SurfaceBinding) : Word × Word := (s.width, s.height)

/-- The same place and shape, still tracked. -/
structure Alike (s s' : SurfaceBinding) : Prop where
  vramAddr : s'.vramAddr = s.vramAddr
  size : s'.size = s.size
  color : s'.color = s.color
  dims : s'.dims = s.dims
  tracked : s.Tracked → s'.Tracked

theorem Alike.refl (s : SurfaceBinding) : Alike s s := ⟨rfl, rfl, rfl, rfl, id⟩

theorem CacheInv.of_alike {r r' : VkState σ} (h : CacheInv H r) (hsurfaces : r'.surfaces.Sublist r.surfaces)
    (hmem : ∀ p ∈ r'.surfaces, Alike (r.mem p) (r'.mem p)) (hinvalid : r'.invalidSurfaces.Nodup)
    (hfresh : ∀ p ∈ r'.invalidSurfaces, p ∉ r'.surfaces)
    (hbound : ∀ color p, r'.binding color = some p → r.binding color = some p ∧ p ∈ r'.surfaces)
    (hsaved : ∀ x ∈ r'.evicted, x.Saved H) : CacheInv H r' where
  nodup := h.nodup.sublist hsurfaces
  invalidNodup := hinvalid
  fresh := hfresh
  apart := by
    refine (h.apart.sublist hsurfaces).imp_of_mem fun {p q} hp hq hpq => ⟨?_, ?_⟩
    · have hbytes := hpq.bytes
      rw [SurfaceBinding.bytes, SurfaceBinding.bytes] at hbytes ⊢
      rw [(hmem p hp).vramAddr, (hmem p hp).size, (hmem q hq).vramAddr, (hmem q hq).size]
      exact hbytes
    · rw [(hmem p hp).vramAddr, (hmem q hq).vramAddr]
      exact hpq.vramAddr
  bounded p hp := by
    have hbounded := h.bounded p (hsurfaces.subset hp)
    exact ⟨(hmem p hp).vramAddr ▸ hbounded.vramAddr, (hmem p hp).size ▸ hbounded.size⟩
  tracked p hp := (hmem p hp).tracked (h.tracked p (hsurfaces.subset hp))
  bound color p hp := by
    obtain ⟨hp, hactive⟩ := hbound color p hp
    exact ⟨hactive, (hmem p hactive).color.trans (h.bound color p hp).2⟩
  saved := hsaved

structure SameCache (r r' : VkState σ) : Prop where
  surfaces : r'.surfaces = r.surfaces
  invalidSurfaces : r'.invalidSurfaces = r.invalidSurfaces
  binding : r'.binding = r.binding
  evicted : r'.evicted = r.evicted
  mem : ∀ p, Alike (r.mem p) (r'.mem p)

namespace SameCache

variable {r r' r'' : VkState σ}

theorem refl (r : VkState σ) : SameCache r r := ⟨rfl, rfl, rfl, rfl, fun p => .refl (r.mem p)⟩

theorem trans (h : SameCache r r') (h' : SameCache r' r'') : SameCache r r'' where
  surfaces := h'.surfaces.trans h.surfaces
  invalidSurfaces := h'.invalidSurfaces.trans h.invalidSurfaces
  binding := h'.binding.trans h.binding
  evicted := h'.evicted.trans h.evicted
  mem p :=
    { vramAddr := (h'.mem p).vramAddr.trans (h.mem p).vramAddr
      size := (h'.mem p).size.trans (h.mem p).size
      color := (h'.mem p).color.trans (h.mem p).color
      dims := (h'.mem p).dims.trans (h.mem p).dims
      tracked := fun ht => (h'.mem p).tracked ((h.mem p).tracked ht) }

variable {s : SurfaceBinding}

theorem of_update {p : Nat} (hmem : r'.mem = update r.mem p s)
    (hsurfaces : r'.surfaces = r.surfaces) (hinvalid : r'.invalidSurfaces = r.invalidSurfaces)
    (hbinding : r'.binding = r.binding) (hevicted : r'.evicted = r.evicted)
    (hs : Alike (r.mem p) s) : SameCache r r' := by
  refine ⟨hsurfaces, hinvalid, hbinding, hevicted, fun q => ?_⟩
  rw [hmem]
  by_cases hq : q = p
  · subst hq
    rw [update_self]
    exact hs
  · rw [update_of_ne hq]
    exact .refl _

theorem set {p : Nat} (hs : Alike (r.mem p) s) : SameCache r (r.set p s) := of_update rfl rfl rfl rfl rfl hs

theorem of_mem (hmem : r'.mem = r.mem) (hsurfaces : r'.surfaces = r.surfaces)
    (hinvalid : r'.invalidSurfaces = r.invalidSurfaces) (hbinding : r'.binding = r.binding)
    (hevicted : r'.evicted = r.evicted) : SameCache r r' :=
  ⟨hsurfaces, hinvalid, hbinding, hevicted, fun p => hmem ▸ .refl (r.mem p)⟩

theorem foldl {f : VkState σ → Nat → VkState σ} (hf : ∀ r p, SameCache r (f r p)) (ps : List Nat)
    (r : VkState σ) : SameCache r (ps.foldl f r) := by
  induction ps generalizing r with
  | nil => exact refl r
  | cons p ps ih => exact (hf r p).trans (ih (f r p))

theorem elim {x : Option Nat} {f : Nat → VkState σ} (hf : ∀ p, SameCache r (f p)) : SameCache r (x.elim r f) := by
  cases x with
  | none => exact refl r
  | some p => exact hf p

theorem ite {c : Prop} [Decidable c] (h : SameCache r r') : SameCache r (if c then r' else r) := by
  split
  · exact h
  · exact refl r

theorem inv (h : SameCache r r') (hinv : CacheInv H r) : CacheInv H r' := by
  refine hinv.of_alike (h.surfaces ▸ .refl _) (fun p _ => h.mem p)
    (h.invalidSurfaces ▸ hinv.invalidNodup) ?_ (fun c p hp => ?_) (h.evicted ▸ hinv.saved)
  · rw [h.surfaces, h.invalidSurfaces]
    exact hinv.fresh
  · rw [h.binding] at hp
    exact ⟨hp, h.surfaces ▸ (hinv.bound c p hp).1⟩

end SameCache

namespace VkState

variable {r : VkState σ}

theorem downloadSurface_same (H : Host σ) (r : VkState σ) (p : Nat) (force : Bool) :
    SameCache r (r.downloadSurface H p force) := by
  dsimp only [downloadSurface]
  split
  · exact .refl r
  · exact .of_update rfl rfl rfl rfl rfl ⟨rfl, rfl, rfl, rfl, fun _ => nofun⟩

theorem surfaceDownloadIfDirty_same (H : Host σ) (r : VkState σ) (p : Nat) :
    SameCache r (r.surfaceDownloadIfDirty H p) :=
  .ite (downloadSurface_same H r p true)

theorem surfaceDownloadIfDirty_mem {p q : Nat} (hne : q ≠ p) : (r.surfaceDownloadIfDirty H p).mem q = r.mem q := by
  dsimp only [surfaceDownloadIfDirty, downloadSurface]
  split
  · split
    · rfl
    · exact update_of_ne hne _ _
  · rfl

theorem surfaceDownloadIfDirty_saved {p : Nat} (h : (r.mem p).Tracked) :
    Eviction.Saved H ⟨p, r.mem p, (r.surfaceDownloadIfDirty H p).store⟩ := by
  intro hdrawn
  have hdirty : (r.mem p).drawDirty = true := hdrawn.elim h id
  dsimp only [surfaceDownloadIfDirty, downloadSurface]
  rw [if_pos hdirty]
  split
  · next hempty =>
    simp only [Bool.or_true, Bool.not_true, Bool.false_or, Bool.or_eq_true, beq_iff_eq] at hempty
    exact or_assoc.mp (.inl hempty)
  · exact .inr (.inr ⟨r.store, rfl⟩)

theorem uploadSurfaceData_same (H : Host σ) (r : VkState σ) (p : Nat) (force : Bool) :
    SameCache r (r.uploadSurfaceData H p force) := by
  dsimp only [uploadSurfaceData]
  split
  · exact .refl r
  · exact .of_update rfl rfl rfl rfl rfl ⟨rfl, rfl, rfl, rfl, id⟩

theorem downloadSurfacesInRangeIfDirty_same (start size : Hwaddr) :
    SameCache r (r.downloadSurfacesInRangeIfDirty H start size) :=
  SameCache.foldl (fun r p => .ite (surfaceDownloadIfDirty_same H r p)) _ r

theorem processPendingDownloads_same : SameCache r (r.processPendingDownloads H) :=
  (SameCache.foldl (fun r p => downloadSurface_same H r p false) r.surfaces r).trans
    (.of_mem rfl rfl rfl rfl rfl)

theorem downloadDirtySurfaces_same : SameCache r (r.downloadDirtySurfaces H) :=
  (SameCache.foldl (surfaceDownloadIfDirty_same H) r.surfaces r).trans (.of_mem rfl rfl rfl rfl rfl)

theorem surfaceAccessCallback_same (addr len : Hwaddr) (write : Bool) :
    SameCache r (r.surfaceAccessCallback addr len write) := by
  refine SameCache.trans (SameCache.foldl (fun r p => ?_) _ r) (.of_mem rfl rfl rfl rfl rfl)
  exact .set ⟨rfl, rfl, rfl, rfl, id⟩

theorem waitForSurfaceDownload_same (p : Nat) : SameCache r (r.waitForSurfaceDownload p) :=
  .ite (.of_update rfl rfl rfl rfl rfl ⟨rfl, rfl, rfl, rfl, id⟩)

variable {color : Bool}

theorem unbindSurface_binding (r : VkState σ) (color : Bool) :
    (r.unbindSurface color).binding = update r.binding color none := by
  unfold unbindSurface
  split
  · rfl
  · next hnone =>
    rw [Bool.not_eq_true, isSome_eq_false_iff, isNone_iff_eq_none] at hnone
    rw [← hnone, update_eq_self]

theorem unbindSurface_binding_eq_some {c : Bool} {p : Nat}
    (h : (r.unbindSurface color).binding c = some p) : c ≠ color ∧ r.binding c = some p := by
  rw [unbindSurface_binding] at h
  by_cases hc : c = color
  · subst hc
    rw [update_self] at h
    exact nomatch h
  · rw [update_of_ne hc] at h
    exact ⟨hc, h⟩

@[simp] theorem unbindSurface_mem : (r.unbindSurface color).mem = r.mem := by
  unfold unbindSurface
  split <;> rfl

@[simp] theorem unbindSurface_surfaces : (r.unbindSurface color).surfaces = r.surfaces := by
  unfold unbindSurface
  split <;> rfl

@[simp] theorem unbindSurface_invalidSurfaces :
    (r.unbindSurface color).invalidSurfaces = r.invalidSurfaces := by
  unfold unbindSurface
  split <;> rfl

@[simp] theorem unbindSurface_evicted : (r.unbindSurface color).evicted = r.evicted := by
  unfold unbindSurface
  split <;> rfl

theorem unbindSurface_store : (r.unbindSurface color).store = r.store := by
  unfold unbindSurface
  split <;> rfl

end VkState

namespace CacheInv

variable {r r' : VkState σ} {p : Nat}

theorem unbind (h : CacheInv H r) (color : Bool) : CacheInv H (r.unbindSurface color) := by
  refine h.of_alike (by simp) (fun p _ => by simp [Alike.refl]) (by simpa using h.invalidNodup)
    (by simpa using h.fresh) (fun c p hp => ?_) (by simpa using h.saved)
  obtain ⟨-, hp⟩ := VkState.unbindSurface_binding_eq_some hp
  simpa [hp] using (h.bound c p hp).1

theorem bind (h : CacheInv H r) (hp : p ∈ r.surfaces) : CacheInv H (r.bindSurface p) where
  __ := h
  bound := by
    intro c q hq
    change update r.binding (r.mem p).color (some p) c = some q at hq
    by_cases hc : c = (r.mem p).color
    · subst hc
      rw [update_self] at hq
      cases hq
      exact ⟨hp, rfl⟩
    · rw [update_of_ne hc] at hq
      exact h.bound c q hq

theorem binding_ne (h : CacheInv H r) {p q : Nat} (hp : r.binding true = some p)
    (hq : r.binding false = some q) : p ≠ q := by
  intro hpq
  subst hpq
  have hcolor := (h.bound true p hp).2
  rw [(h.bound false p hq).2] at hcolor
  exact nomatch hcolor

theorem eq_of_vramAddr (h : CacheInv H r) {p q : Nat} (hp : p ∈ r.surfaces) (hq : q ∈ r.surfaces)
    (haddr : (r.mem p).vramAddr = (r.mem q).vramAddr) : p = q := by
  have : Std.Symm fun p q => (r.mem p).Apart (r.mem q) := ⟨fun _ _ hapart => hapart.symm⟩
  by_contra hne
  exact absurd haddr (h.apart.forall hp hq hne).vramAddr

theorem prune (h : CacheInv H r) (keep : Nat) : CacheInv H (r.pruneInvalidSurfaces keep) :=
  { h with
    invalidNodup := h.invalidNodup.sublist (take_sublist keep _)
    fresh := fun p hp => h.fresh p (mem_of_mem_take hp) }

end CacheInv

/-- `invalidate_surface` has unbound `p` and taken it out. -/
structure Removed (p : Nat) (found : SurfaceBinding) (r r' : VkState σ) : Prop where
  mem : r'.mem = r.mem
  surfaces : r'.surfaces = r.surfaces.erase p
  invalidSurfaces : r'.invalidSurfaces = p :: r.invalidSurfaces
  binding : ∀ color q, r'.binding color = some q ↔ r.binding color = some q ∧ q ≠ p
  store : r'.store = r.store
  evicted : r'.evicted = ⟨p, found, r.store⟩ :: r.evicted

namespace NV2AState

variable {d d' : NV2AState σ} {p : Nat} {found : SurfaceBinding}

theorem unbindIfBound_ok {color : Bool} (h : d.unbindIfBound color p = .ok d') :
    d'.pg = d.pg ∧ d'.r.mem = d.r.mem ∧ d'.r.surfaces = d.r.surfaces ∧
      d'.r.invalidSurfaces = d.r.invalidSurfaces ∧ d'.r.evicted = d.r.evicted ∧
      ∀ c q, d'.r.binding c = some q ↔ d.r.binding c = some q ∧ (c = color → q ≠ p) := by
  unfold unbindIfBound at h
  split at h
  · next hbound =>
    split at h
    · cases h
      refine ⟨rfl, by simp, by simp, by simp, by simp, fun c q => ?_⟩
      rw [VkState.unbindSurface_binding]
      by_cases hc : c = color
      · subst hc
        rw [update_self, hbound]
        exact ⟨nofun, fun h' => absurd (some.inj h'.1).symm (h'.2 rfl)⟩
      · rw [update_of_ne hc]
        exact ⟨fun h' => ⟨h', fun hc' => absurd hc' hc⟩, And.left⟩
    · cases h
  · next hbound =>
    cases h
    refine ⟨rfl, rfl, rfl, rfl, rfl, fun c q => ⟨fun h' => ⟨h', ?_⟩, And.left⟩⟩
    rintro rfl rfl
    exact hbound h'

theorem unbindIfBound_store {color : Bool} (h : d.unbindIfBound color p = .ok d') : d'.r.store = d.r.store := by
  unfold unbindIfBound at h
  split at h
  · split at h
    · cases h
      exact VkState.unbindSurface_store
    · cases h
  · cases h
    rfl

theorem invalidateSurface_ok (h : d.invalidateSurface p found = .ok d') :
    d'.pg = d.pg ∧ Removed p found d.r d'.r := by
  obtain ⟨d₁, h₁, h⟩ := bind_eq_ok.mp h
  obtain ⟨d₂, h₂, rfl⟩ := map_eq_ok.mp h
  obtain ⟨hpg, hmem, hsurfaces, hinvalid, hevicted, hbinding⟩ := unbindIfBound_ok h₁
  obtain ⟨hpg', hmem', hsurfaces', hinvalid', hevicted', hbinding'⟩ := unbindIfBound_ok h₂
  have hstore := (unbindIfBound_store h₂).trans (unbindIfBound_store h₁)
  refine ⟨hpg'.trans hpg, hmem'.trans hmem, ?_, ?_, fun c q => ?_, hstore, ?_⟩
  · rw [hsurfaces', hsurfaces]
  · rw [hinvalid', hinvalid]
  · rw [hbinding', hbinding]
    cases c <;> simp
  · rw [hevicted', hevicted, hstore]

end NV2AState

theorem CacheInv.removed {r r' : VkState σ} {p : Nat} {found : SurfaceBinding} (h : CacheInv H r)
    (hp : p ∈ r.surfaces) (hsaved : Eviction.Saved H ⟨p, found, r.store⟩) (hr : Removed p found r r') :
    CacheInv H r' := by
  refine h.of_alike (hr.surfaces ▸ erase_sublist) (fun q _ => hr.mem ▸ .refl _) ?_ (fun q hq => ?_)
    (fun c q hq => ?_) (hr.evicted ▸ forall_mem_cons.mpr ⟨hsaved, h.saved⟩)
  · rw [hr.invalidSurfaces, nodup_cons]
    exact ⟨fun hinvalid => h.fresh p hinvalid hp, h.invalidNodup⟩
  · rw [hr.surfaces, h.nodup.mem_erase_iff]
    rw [hr.invalidSurfaces, mem_cons] at hq
    rintro ⟨hne, hmem⟩
    exact hq.elim hne fun hq => h.fresh q hq hmem
  · obtain ⟨hq, hne⟩ := (hr.binding c q).mp hq
    exact ⟨hq, hr.surfaces ▸ (mem_erase_of_ne hne).mpr (h.bound c q hq).1⟩

/-- What a loop that evicts some of the surfaces `ps` leaves. -/
structure Evicted (victim : SurfaceBinding → Bool) (ps : List Nat) (d d' : NV2AState σ) : Prop where
  pg : d'.pg = d.pg
  mem : ∀ q, (q ∈ ps → victim (d.r.mem q) = false) → d'.r.mem q = d.r.mem q
  surfaces : ∀ q, q ∈ d'.r.surfaces ↔
    q ∈ d.r.surfaces ∧ (q ∈ ps → victim (d.r.mem q) = false)
  invalidSurfaces : ∀ q ∈ d'.r.invalidSurfaces, q ∈ d.r.invalidSurfaces ∨ q ∈ ps
  binding : ∀ color q, d'.r.binding color = some q ↔
    d.r.binding color = some q ∧ (q ∈ ps → victim (d.r.mem q) = false)

namespace NV2AState

variable {d d' : NV2AState σ} {p : Nat} {victim : SurfaceBinding → Bool}

theorem evictSurface_inv (hinv : CacheInv H d.r) (hp : p ∈ d.r.surfaces)
    (h : d.evictSurface H p = .ok d') : CacheInv H d'.r := by
  have hsame := d.r.surfaceDownloadIfDirty_same H p
  have hp' : p ∈ (d.r.surfaceDownloadIfDirty H p).surfaces := hsame.surfaces ▸ hp
  exact (hsame.inv hinv).removed hp'
    (VkState.surfaceDownloadIfDirty_saved (hinv.tracked p hp)) (invalidateSurface_ok h).2

theorem evictSurface_surfaces (h : d.evictSurface H p = .ok d') : d'.r.surfaces = d.r.surfaces.erase p := by
  rw [(invalidateSurface_ok h).2.surfaces]
  exact congrArg (List.erase · p) (d.r.surfaceDownloadIfDirty_same H p).surfaces

theorem evictSurface_evicted (hinv : CacheInv H d.r) (hvictim : victim (d.r.mem p) = true)
    (h : d.evictSurface H p = .ok d') : Evicted victim [p] d d' := by
  have hsame := d.r.surfaceDownloadIfDirty_same H p
  obtain ⟨hpg, hremoved⟩ := invalidateSurface_ok h
  have hiff : ∀ q, (q ∈ [p] → victim (d.r.mem q) = false) ↔ q ≠ p := by
    intro q
    refine ⟨?_, fun hne hq => absurd (mem_singleton.mp hq) hne⟩
    rintro hq rfl
    exact absurd (hvictim.symm.trans (hq mem_cons_self)) Bool.noConfusion
  refine ⟨hpg, fun q hq => ?_, fun q => ?_, fun q hq => ?_, fun c q => ?_⟩
  · rw [hremoved.mem]
    exact VkState.surfaceDownloadIfDirty_mem ((hiff q).mp hq)
  · rw [evictSurface_surfaces h, hinv.nodup.mem_erase_iff, hiff, and_comm]
  · rw [hremoved.invalidSurfaces] at hq
    rw [hsame.invalidSurfaces, mem_cons] at hq
    exact hq.symm.imp_right mem_singleton.mpr
  · rw [hremoved.binding, hiff]
    rw [hsame.binding]

theorem evicted_keep (h : victim (d.r.mem p) = false) : Evicted victim [p] d d := by
  have hclear : ∀ q ∈ [p], victim (d.r.mem q) = false := fun q hq => mem_singleton.mp hq ▸ h
  exact ⟨rfl, fun _ _ => rfl, fun q => (and_iff_left (hclear q)).symm, fun _ => .inl,
    fun c q => (and_iff_left (hclear q)).symm⟩

theorem evicted_cons {d₁ : NV2AState σ} {ps : List Nat} (h : Evicted victim [p] d d₁)
    (hrest : Evicted victim ps d₁ d') : Evicted victim (p :: ps) d d' := by
  -- A surface that the first round leaves alone is judged by the rest as it was.
  have hiff : ∀ q, (q ∈ [p] → victim (d.r.mem q) = false) ∧
      (q ∈ ps → victim (d₁.r.mem q) = false) ↔ (q ∈ p :: ps → victim (d.r.mem q) = false) := by
    intro q
    have hcons : q ∈ p :: ps ↔ q ∈ [p] ∨ q ∈ ps := mem_append (s := [p])
    rw [hcons, or_imp]
    exact and_congr_right fun hq => by rw [h.mem q hq]
  refine ⟨hrest.pg.trans h.pg, fun q hq => ?_, fun q => ?_, fun q hq => ?_, fun c q => ?_⟩
  · obtain ⟨hq₁, hq₂⟩ := (hiff q).mpr hq
    exact (hrest.mem q hq₂).trans (h.mem q hq₁)
  · rw [hrest.surfaces, h.surfaces, and_assoc, hiff]
  · obtain hq | hq := hrest.invalidSurfaces q hq
    · exact (h.invalidSurfaces q hq).imp_right (mem_append_left ps)
    · exact .inr (.tail p hq)
  · rw [hrest.binding, h.binding, and_assoc, hiff]

theorem evictSurface_rest {ps : List Nat} (hps : (p :: ps).Sublist d.r.surfaces)
    (h : d.evictSurface H p = .ok d') : ps.Sublist d'.r.surfaces := by
  have herase := hps.erase p
  rw [erase_cons_head] at herase
  rw [evictSurface_surfaces h]
  exact herase

theorem evictWhere_ok {ps : List Nat} (hinv : CacheInv H d.r) (hps : ps.Sublist d.r.surfaces)
    (h : evictWhere H victim ps d = .ok d') : CacheInv H d'.r ∧ Evicted victim ps d d' := by
  induction ps generalizing d with
  | nil =>
    cases h
    exact ⟨hinv, rfl, fun _ _ => rfl, by simp, by simp, by simp⟩
  | cons p ps ih =>
    rw [evictWhere] at h
    split at h
    · next hvictim =>
      obtain ⟨d₁, h₁, h⟩ := bind_eq_ok.mp h
      have hinv₁ := evictSurface_inv hinv (hps.subset mem_cons_self) h₁
      exact (ih hinv₁ (evictSurface_rest hps h₁) h).imp_right
        (evicted_cons (evictSurface_evicted hinv hvictim h₁))
    · next hvictim =>
      exact (ih hinv (sublist_of_cons_sublist hps) h).imp_right
        (evicted_cons (evicted_keep (Bool.eq_false_iff.mpr hvictim)))

end NV2AState

theorem SurfaceBinding.Tracked.of_unsaved {s : SurfaceBinding} (h : s.unsaved = false) : s.Tracked := by
  intro hunsaved
  rw [h] at hunsaved
  exact nomatch hunsaved

namespace VkState

variable {r : VkState σ} {p : Nat}

theorem le_foldr_max {ps : List Nat} (h : p ∈ ps) : p ≤ ps.foldr max 0 := by
  induction ps with
  | nil => exact nomatch h
  | cons q ps ih =>
    obtain rfl | h := mem_cons.mp h
    · exact Nat.le_max_left _ _
    · exact (ih h).trans (Nat.le_max_right _ _)

theorem malloc_not_mem (h : p ∈ r.surfaces ++ r.invalidSurfaces) : p ≠ r.malloc := by
  have hle := le_foldr_max h
  rw [malloc]
  omega

variable {addr : Hwaddr}

theorem ne_of_surfaceGet_eq_none (h : r.surfaceGet addr = none) (hp : p ∈ r.surfaces) : (r.mem p).vramAddr ≠ addr := by
  have hne := find?_eq_none.mp h p hp
  rwa [beq_iff_eq] at hne

theorem surfaceGet_eq_none (h : ∀ p ∈ r.surfaces, (r.mem p).vramAddr ≠ addr) : r.surfaceGet addr = none := by
  refine find?_eq_none.mpr fun p hp => ?_
  rw [beq_iff_eq]
  exact h p hp

theorem surfaceGet_eq_some (h : r.surfaceGet addr = some p) : p ∈ r.surfaces ∧ (r.mem p).vramAddr = addr := by
  have heq := find?_some h
  rw [beq_iff_eq] at heq
  exact ⟨mem_of_find?_eq_some h, heq⟩

end VkState

structure Fresh (p : Nat) (target : SurfaceBinding) (r r' : VkState σ) : Prop where
  not_mem : p ∉ r'.surfaces
  not_mem_invalid : p ∉ r'.invalidSurfaces
  mem : r'.mem = update r.mem p target
  surfaces : r'.surfaces = r.surfaces
  invalidSurfaces : r'.invalidSurfaces.Sublist r.invalidSurfaces
  binding : r'.binding = r.binding
  evicted : r'.evicted = r.evicted

namespace Fresh

variable {p : Nat} {target : SurfaceBinding} {r r' : VkState σ}

theorem mem_of_mem (h : Fresh p target r r') {q : Nat} (hq : q ∈ r.surfaces) : r'.mem q = r.mem q := by
  have hne : q ≠ p := by
    rintro rfl
    exact h.not_mem (h.surfaces ▸ hq)
  rw [h.mem, update_of_ne hne]

theorem mem_self (h : Fresh p target r r') : r'.mem p = target := by
  rw [h.mem, update_self]

theorem inv (h : Fresh p target r r') (hinv : CacheInv H r) : CacheInv H r' := by
  refine hinv.of_alike (h.surfaces ▸ .refl _) (fun q hq => ?_)
    (hinv.invalidNodup.sublist h.invalidSurfaces) (fun q hq => ?_) (fun c q hq => ?_)
    (h.evicted ▸ hinv.saved)
  · rw [h.surfaces] at hq
    rw [h.mem_of_mem hq]
    exact .refl _
  · rw [h.surfaces]
    exact hinv.fresh q (h.invalidSurfaces.subset hq)
  · rw [h.binding] at hq
    exact ⟨hq, h.surfaces ▸ (hinv.bound c q hq).1⟩

end Fresh

namespace NV2AState

variable {d d' : NV2AState σ} {p : Nat} {target : SurfaceBinding}

theorem takeSurface_fresh {r : VkState σ} (hinv : CacheInv H r) (target : SurfaceBinding) :
    Fresh (takeSurface r target).2 target r ((takeSurface r target).1.set (takeSurface r target).2 target) := by
  unfold takeSurface
  split
  · next p hp =>
    have hinvalid : p ∈ r.invalidSurfaces := mem_of_find?_eq_some hp
    refine ⟨hinv.fresh p hinvalid, ?_, rfl, rfl, erase_sublist, rfl, rfl⟩
    intro herase
    exact (hinv.invalidNodup.mem_erase_iff.mp herase).1 rfl
  · refine ⟨fun hp => ?_, fun hp => ?_, rfl, rfl, .refl _, rfl, rfl⟩
    · exact VkState.malloc_not_mem (mem_append_left _ hp) rfl
    · exact VkState.malloc_not_mem (mem_append_right _ hp) rfl

theorem surfacePut_ok (hinv : CacheInv H d.r) (h : d.surfacePut H p = .ok d') :
    d.r.surfaceGet (d.r.mem p).vramAddr = none ∧
      ∃ d₁, d' = { d₁ with r := { d₁.r with surfaces := p :: d₁.r.surfaces } } ∧ CacheInv H d₁.r ∧
        Evicted (fun other => checkSurfacesOverlap (d.r.mem p) other) d.r.surfaces d d₁ := by
  unfold surfacePut at h
  split at h
  · cases h
  · next hget =>
    obtain ⟨d₁, h₁, rfl⟩ := map_eq_ok.mp h
    rw [Bool.not_eq_true, isSome_eq_false_iff, isNone_iff_eq_none] at hget
    exact ⟨hget, d₁, rfl, evictWhere_ok hinv (.refl _) h₁⟩

theorem surfacePut_inv (hinv : CacheInv H d.r) (hnot : p ∉ d.r.surfaces)
    (hnot' : p ∉ d.r.invalidSurfaces) (hbounded : (d.r.mem p).Bounded)
    (htracked : (d.r.mem p).Tracked) (h : d.surfacePut H p = .ok d') : CacheInv H d'.r := by
  obtain ⟨hget, d₁, rfl, hinv₁, hevicted⟩ := surfacePut_ok hinv h
  have hmem : d₁.r.mem p = d.r.mem p := hevicted.mem p fun hp => absurd hp hnot
  have hnot₁ : p ∉ d₁.r.surfaces := fun hp => hnot ((hevicted.surfaces p).mp hp).1
  have hkept : ∀ q ∈ d₁.r.surfaces, q ∈ d.r.surfaces ∧ d₁.r.mem q = d.r.mem q ∧
      checkSurfacesOverlap (d.r.mem p) (d.r.mem q) = false := by
    intro q hq
    obtain ⟨hq, hclear⟩ := (hevicted.surfaces q).mp hq
    exact ⟨hq, hevicted.mem q hclear, hclear hq⟩
  refine
    { hinv₁ with
      nodup := nodup_cons.mpr ⟨hnot₁, hinv₁.nodup⟩
      fresh := fun q hq => ?_
      apart := pairwise_cons.mpr ⟨fun q hq => ?_, hinv₁.apart⟩
      bounded := forall_mem_cons.mpr ⟨hmem ▸ hbounded, hinv₁.bounded⟩
      tracked := forall_mem_cons.mpr ⟨hmem ▸ htracked, hinv₁.tracked⟩
      bound := fun c q hq => ?_ }
  · rw [mem_cons]
    rintro (rfl | hq')
    · exact (hevicted.invalidSurfaces q hq).elim hnot' hnot
    · exact hinv₁.fresh q hq hq'
  · obtain ⟨hq', hsame, hclear⟩ := hkept q hq
    rw [hmem, hsame]
    exact ⟨disjoint_of_not_overlap hbounded (hinv.bounded q hq') hclear,
      (VkState.ne_of_surfaceGet_eq_none hget hq').symm⟩
  · obtain ⟨hq', hcolor⟩ := hinv₁.bound c q hq
    exact ⟨.tail p hq', hcolor⟩

end NV2AState

end XogMobile.Nv2a.Vk
