import XogMobile.Nv2a.Vk.SurfaceUpdate

/-!
# Guest memory under the surfaces

Here the state behind the surfaces is guest memory and the images. A download copies the bytes of an
image to memory, row by row or swizzled, and an upload copies them back. The memory the guest means is
`logical`: what was drawn to a surface and not written back yet covers what is stored. The surface cache
may write back, evict and create surfaces as it likes without changing it (`Settled`).
-/

namespace XogMobile.Nv2a.Vk

open Lib Function List Option

abbrev Byte := BitVec 8

/-- VRAM, and the bytes of each surface's image. -/
structure Memory where
  vram : Nat → Byte
  image : Nat → Nat → Nat → Byte

structure Move where
  (offset row column : Nat)
  deriving DecidableEq

/-- `generate_swizzle_masks`. Later rounds of the loop change nothing. -/
def generateSwizzleMasks (width height : Word) : Word × Word :=
  let masks := (List.range 32).foldl (fun (masks : Word × Word × Word) i =>
    let bit : Word := 1 <<< i
    let (x, y, maskBit) := masks
    let (x, maskBit) := if bit < width then (x ||| maskBit, maskBit <<< 1) else (x, maskBit)
    if bit < height then (x, y ||| maskBit, maskBit <<< 1) else (x, y, maskBit)) (0, 0, 1)
  (masks.1, masks.2.1)

def swizzleOffsets (mask count : Word) : List Nat :=
  (List.iterate (fun off => (off - mask) &&& mask) 0 count.toNat).map BitVec.toNat

namespace SurfaceBinding

variable (s : SurfaceBinding)

/-- `memcpy_image`. -/
def linearMoves : List Move :=
  (List.range s.height.toNat).flatMap fun row =>
    (List.range (min (s.width * s.format.bytesPerPixel).toNat s.pitch.toNat)).map fun column =>
      ⟨row * s.pitch.toNat + column, row, column⟩

/-- `memcpy_image` to a buffer and `swizzle_rect` from it. -/
def swizzledMoves : List Move :=
  let (maskX, maskY) := generateSwizzleMasks s.width s.height
  let bytes := s.format.bytesPerPixel.toNat
  (swizzleOffsets maskY s.height).zipIdx.flatMap fun (offY, y) =>
    (swizzleOffsets maskX s.width).zipIdx.flatMap fun (offX, x) =>
      (List.range bytes).map fun k =>
        let source := y * s.pitch.toNat + x * bytes + k
        ⟨(offY + offX) * bytes + k, source / s.pitch.toNat, source % s.pitch.toNat⟩

def moves : List Move := if s.swizzle then s.swizzledMoves else s.linearMoves

def moveTo (a : Nat) : Option Move :=
  s.moves.reverse.find? fun m => s.vramAddr.toNat + m.offset == a

def contents (image : Nat → Nat → Byte) (a : Nat) : Option Byte :=
  (s.moveTo a).map fun m => image m.row m.column

def pixels : Set Nat := {a | (s.moveTo a).isSome = true}

variable {s : SurfaceBinding}

theorem contents_eq_none {image : Nat → Nat → Byte} {a : Nat} : s.contents image a = none ↔ a ∉ s.pixels := by
  rw [contents, map_eq_none_iff, pixels, Set.mem_ofPred_eq, Bool.not_eq_true, isSome_eq_false_iff, isNone_iff_eq_none]

theorem contents_eq_some {a : Nat} (ha : a ∈ s.pixels) (image : Nat → Nat → Byte) : ∃ b, s.contents image a = some b :=
  ne_none_iff_exists'.mp fun hnone => contents_eq_none.mp hnone ha

theorem mem_pixels {a : Nat} : a ∈ s.pixels ↔ ∃ m ∈ s.moves, s.vramAddr.toNat + m.offset = a := by
  simp [pixels, moveTo]

theorem pixels_eq_empty (h : s.width = 0 ∨ s.height = 0) : s.pixels = ∅ := by
  have hmoves : s.moves = [] := by
    unfold moves
    split
    · obtain h | h := h <;> simp [swizzledMoves, swizzleOffsets, h]
    · obtain h | h := h <;> simp [linearMoves, h]
  ext a
  simp [pixels, moveTo, hmoves]

theorem contents_ne_some (h : s.width = 0 ∨ s.height = 0) {image : Nat → Nat → Byte} {a : Nat} {b : Byte} :
    s.contents image a ≠ some b := by
  rw [contents_eq_none.mpr (pixels_eq_empty h ▸ Set.notMem_empty a)]
  exact nofun

end SurfaceBinding

def memoryHost (tcgEnabled d24UnormS8Uint : Bool) : Host Memory where
  tcgEnabled
  d24UnormS8Uint
  writeBack p s m := { m with vram := fun a => (s.contents (m.image p) a).getD (m.vram a) }
  upload p s m :=
    { m with image := update m.image p fun row column =>
        ((s.moves.reverse.find? fun move => move.row == row && move.column == column).map fun move =>
          m.vram (s.vramAddr.toNat + move.offset)).getD (m.image p row column) }

/-- In every run the active surfaces stand for disjoint bytes at different addresses, the bindings
are two different active surfaces, and a surface that was drawn to and not written back has all its bytes
in VRAM when it is given up. -/
theorem surfaces_disjoint_bound_saved {tcg d24 : Bool} {d d' : NV2AState Memory}
    {mem : Nat → SurfaceBinding} {store : Memory} {es : List (SurfaceEvent Memory)}
    (hinit : d.r = .init mem store) (hrun : run (NV2AState.step (memoryHost tcg d24)) d es = some d') :
    d'.r.surfaces.Pairwise (fun p q => Disjoint (d'.r.mem p).bytes (d'.r.mem q).bytes ∧
      (d'.r.mem p).vramAddr ≠ (d'.r.mem q).vramAddr) ∧
    (∀ color p, d'.r.binding color = some p → p ∈ d'.r.surfaces) ∧
    (∀ p q, d'.r.binding true = some p → d'.r.binding false = some q → p ≠ q) ∧
    ∀ x ∈ d'.r.evicted, x.surface.unsaved = true ∨ x.surface.drawDirty = true →
      ∀ a b, x.surface.contents (x.store.image x.slot) a = some b → x.store.vram a = b := by
  have hinv := cacheInv_of_run hinit hrun
  refine ⟨hinv.apart.imp fun h => ⟨h.bytes, h.vramAddr⟩, fun color p hp => ?_, fun p q hp hq => ?_,
    fun x hx hdrawn a b hb => ?_⟩
  · exact (hinv.bound color p hp).1
  · exact hinv.binding_ne hp hq
  · obtain hempty | hempty | ⟨before, hstore⟩ := hinv.saved x hx hdrawn
    · exact absurd hb (SurfaceBinding.contents_ne_some (.inl hempty))
    · exact absurd hb (SurfaceBinding.contents_ne_some (.inr hempty))
    · rw [hstore] at hb ⊢
      change x.surface.contents (before.image x.slot) a = some b at hb
      change (x.surface.contents (before.image x.slot) a).getD _ = b
      rw [hb, getD_some]

def drawnOver : List (SurfaceEvent Memory) :=
  programTargets 0 0x1000 ++
    [.drawBegin plainInputs, .memory fun m => { m with image := fun _ _ _ => 7 }, .drawEnd,
      .method .setSurfaceColorOffset 0x200 plainInputs, .drawBegin plainInputs]

def memoryBoot : NV2AState Memory :=
  { plainBoot with r := .init (fun _ => blankSurface) ⟨fun _ => 0, fun _ _ _ => 0⟩ }

/-- A colour surface is drawn to and given up for one that begins inside it. -/
theorem surfaces_disjoint_bound_saved_overlapping :
    ∃ d', run (NV2AState.step (memoryHost true true)) memoryBoot drawnOver = some d' ∧
      (d'.r.evicted.map fun x => (x.surface.vramAddr.toNat, x.surface.unsaved, x.store.vram 0x83)) =
        [(0, true, 7)] ∧ d'.r.surfaces.length = 2 ∧
      d'.r.surfaces.Pairwise (fun p q => Disjoint (d'.r.mem p).bytes (d'.r.mem q).bytes ∧
        (d'.r.mem p).vramAddr ≠ (d'.r.mem q).vramAddr) ∧
      (∀ color p, d'.r.binding color = some p → p ∈ d'.r.surfaces) ∧
      (∀ p q, d'.r.binding true = some p → d'.r.binding false = some q → p ≠ q) ∧
      ∀ x ∈ d'.r.evicted, x.surface.unsaved = true ∨ x.surface.drawDirty = true →
        ∀ a b, x.surface.contents (x.store.image x.slot) a = some b → x.store.vram a = b := by
  obtain ⟨d', hrun, hevicted, hsurfaces⟩ : ∃ d',
      run (NV2AState.step (memoryHost true true)) memoryBoot drawnOver = some d' ∧
      (d'.r.evicted.map fun x => (x.surface.vramAddr.toNat, x.surface.unsaved, x.store.vram 0x83)) =
        [(0, true, 7)] ∧ d'.r.surfaces.length = 2 := by decide +kernel
  exact ⟨d', hrun, hevicted, hsurfaces, surfaces_disjoint_bound_saved rfl hrun⟩

namespace VkState

variable (r : VkState Memory)

/-- A listed surface with draws that are not in VRAM. -/
def Dirty (p : Nat) : Prop := p ∈ r.surfaces ∧ (r.mem p).drawDirty = true

def overlay (a : Nat) : Option Byte :=
  r.surfaces.findSome? fun p =>
    if (r.mem p).drawDirty then (r.mem p).contents (r.store.image p) a else none

def logical (a : Nat) : Byte := (r.overlay a).getD (r.store.vram a)

/-- No two dirty surfaces have a byte in common. -/
def Laid : Prop :=
  ∀ p q, r.Dirty p → r.Dirty q → p ≠ q → Disjoint (r.mem p).pixels (r.mem q).pixels

variable {r : VkState Memory}

theorem overlay_eq_none {a : Nat} : r.overlay a = none ↔ ∀ p, r.Dirty p → a ∉ (r.mem p).pixels := by
  rw [overlay, findSome?_eq_none_iff]
  refine ⟨fun h p hp => ?_, fun h p hp => ?_⟩
  · have hnone := h p hp.1
    rw [if_pos hp.2] at hnone
    exact SurfaceBinding.contents_eq_none.mp hnone
  · split
    · next hdirty => exact SurfaceBinding.contents_eq_none.mpr (h p ⟨hp, hdirty⟩)
    · rfl

theorem overlay_of_mem (hlaid : r.Laid) {p a : Nat} (hp : r.Dirty p) (ha : a ∈ (r.mem p).pixels) :
    r.overlay a = (r.mem p).contents (r.store.image p) a := by
  obtain ⟨b, hb⟩ := ne_none_iff_exists'.mp fun hnone => overlay_eq_none.mp hnone p hp ha
  obtain ⟨q, hq, hqb⟩ := exists_of_findSome?_eq_some hb
  split at hqb
  · next hdirty =>
    have hqa : a ∈ (r.mem q).pixels := by
      by_contra hnot
      rw [SurfaceBinding.contents_eq_none.mpr hnot] at hqb
      exact nomatch hqb
    have hpq : q = p := by
      by_contra hne
      exact Set.disjoint_left.mp (hlaid q p ⟨hq, hdirty⟩ hp hne) hqa ha
    rw [hb, ← hqb, hpq]
  · cases hqb

end VkState

structure Unmoved (s s' : SurfaceBinding) : Prop where
  vramAddr : s'.vramAddr = s.vramAddr
  dims : s'.dims = s.dims
  moveTo : s'.moveTo = s.moveTo
  drawDirty : s'.drawDirty = s.drawDirty

namespace Unmoved

variable {s s' s'' : SurfaceBinding}

theorem refl (s : SurfaceBinding) : Unmoved s s := ⟨rfl, rfl, rfl, rfl⟩

theorem trans (h : Unmoved s s') (h' : Unmoved s' s'') : Unmoved s s'' :=
  ⟨h'.vramAddr.trans h.vramAddr, h'.dims.trans h.dims, h'.moveTo.trans h.moveTo, h'.drawDirty.trans h.drawDirty⟩

theorem pixels (h : Unmoved s s') : s'.pixels = s.pixels := by
  rw [SurfaceBinding.pixels, SurfaceBinding.pixels, h.moveTo]

theorem contents (h : Unmoved s s') (image : Nat → Nat → Byte) (a : Nat) :
    s'.contents image a = s.contents image a := by
  rw [SurfaceBinding.contents, SurfaceBinding.contents, h.moveTo]

end Unmoved

/-- What was drawn is still drawn or was written back, but for the bytes `lost`. Nothing is drawn anew
and no other byte of memory changed. -/
structure Settled (lost : Set Nat) (r r' : VkState Memory) : Prop where
  dirty : ∀ p, r'.Dirty p →
    r.Dirty p ∧ Unmoved (r.mem p) (r'.mem p) ∧ r'.store.image p = r.store.image p
  written : ∀ p a, a ∉ lost → r.Dirty p → ¬ r'.Dirty p → a ∈ (r.mem p).pixels →
    some (r'.store.vram a) = (r.mem p).contents (r.store.image p) a
  kept : ∀ a, a ∉ lost → (∀ p, r.Dirty p → a ∉ (r.mem p).pixels) →
    r'.store.vram a = r.store.vram a

namespace Settled

variable {lost : Set Nat} {r r' r'' : VkState Memory}

theorem laid (h : Settled lost r r') (hlaid : r.Laid) : r'.Laid := by
  intro p q hp hq hne
  obtain ⟨hp, hsame, -⟩ := h.dirty p hp
  obtain ⟨hq, hsame', -⟩ := h.dirty q hq
  rw [hsame.pixels, hsame'.pixels]
  exact hlaid p q hp hq hne

theorem logical (h : Settled lost r r') (hlaid : r.Laid) {a : Nat} (ha : a ∉ lost) : r'.logical a = r.logical a := by
  by_cases hnone' : r'.overlay a = none
  · rw [VkState.logical, hnone', getD_none]
    have hclear := VkState.overlay_eq_none.mp hnone'
    by_cases hnone : r.overlay a = none
    · rw [VkState.logical, hnone]
      exact h.kept a ha (VkState.overlay_eq_none.mp hnone)
    · -- The surface that covered the byte was written back.
      rw [VkState.overlay_eq_none] at hnone
      push Not at hnone
      obtain ⟨p, hp, hpa⟩ := hnone
      have hclean : ¬ r'.Dirty p := by
        intro hp'
        apply hclear p hp'
        rw [(h.dirty p hp').2.1.pixels]
        exact hpa
      rw [VkState.logical, VkState.overlay_of_mem hlaid hp hpa, ← h.written p a ha hp hclean hpa, getD_some]
  · rw [VkState.overlay_eq_none] at hnone'
    push Not at hnone'
    obtain ⟨p, hp', hpa⟩ := hnone'
    obtain ⟨hp, hsame, himage⟩ := h.dirty p hp'
    obtain ⟨b, hb⟩ := SurfaceBinding.contents_eq_some hpa (r'.store.image p)
    rw [VkState.logical, VkState.logical, VkState.overlay_of_mem (h.laid hlaid) hp' hpa,
      VkState.overlay_of_mem hlaid hp (hsame.pixels ▸ hpa), ← hsame.contents, ← himage, hb,
      getD_some, getD_some]

theorem mono {lost' : Set Nat} (h : Settled lost r r') (hlost : lost ⊆ lost') : Settled lost' r r' where
  dirty := h.dirty
  written p a ha := h.written p a fun ha' => ha (hlost ha')
  kept a ha := h.kept a fun ha' => ha (hlost ha')

theorem trans (hlaid : r.Laid) (h : Settled lost r r') (h' : Settled lost r' r'') : Settled lost r r'' where
  dirty p hp := by
    obtain ⟨hp, hsame', himage'⟩ := h'.dirty p hp
    obtain ⟨hp, hsame, himage⟩ := h.dirty p hp
    exact ⟨hp, hsame.trans hsame', himage'.trans himage⟩
  written p a ha hp hclean hpa := by
    by_cases hp' : r'.Dirty p
    · obtain ⟨-, hsame, himage⟩ := h.dirty p hp'
      rw [h'.written p a ha hp' hclean (hsame.pixels ▸ hpa), hsame.contents, himage]
    · rw [← h.written p a ha hp hp' hpa]
      refine congrArg some (h'.kept a ha fun q hq hqa => ?_)
      obtain ⟨hq₀, hsame, -⟩ := h.dirty q hq
      have hne : p ≠ q := by
        rintro rfl
        exact hp' hq
      exact Set.disjoint_left.mp (hlaid p q hp hq₀ hne) hpa (hsame.pixels ▸ hqa)
  kept a ha hclear := by
    rw [h'.kept a ha, h.kept a ha hclear]
    intro q hq
    obtain ⟨hq, hsame, -⟩ := h.dirty q hq
    rw [hsame.pixels]
    exact hclear q hq

theorem of_surfaces (hdirty : ∀ p, r'.Dirty p → r.Dirty p ∧ Unmoved (r.mem p) (r'.mem p))
    (hleft : ∀ p, r.Dirty p → ¬ r'.Dirty p → (r.mem p).pixels = ∅) (hstore : r'.store = r.store) :
    Settled lost r r' where
  dirty p hp := ⟨(hdirty p hp).1, (hdirty p hp).2, by rw [hstore]⟩
  written p a _ hp hclean hpa := by
    rw [hleft p hp hclean] at hpa
    exact absurd hpa (Set.notMem_empty a)
  kept a _ _ := by rw [hstore]

theorem of_unmoved (hsurfaces : r'.surfaces = r.surfaces)
    (hmem : ∀ p, Unmoved (r.mem p) (r'.mem p)) (hstore : r'.store = r.store) : Settled lost r r' := by
  have hiff : ∀ p, r'.Dirty p ↔ r.Dirty p := by
    intro p
    rw [VkState.Dirty, VkState.Dirty, hsurfaces, (hmem p).drawDirty]
  exact of_surfaces (fun p hp => ⟨(hiff p).mp hp, hmem p⟩)
    (fun p hp hclean => absurd ((hiff p).mpr hp) hclean) hstore

theorem refl (r : VkState Memory) : Settled lost r r := of_unmoved rfl (fun p => .refl (r.mem p)) rfl

theorem set {p : Nat} {s : SurfaceBinding} (hs : Unmoved (r.mem p) s) : Settled lost r (r.set p s) := by
  refine of_unmoved rfl (fun q => ?_) rfl
  change Unmoved (r.mem q) (update r.mem p s q)
  by_cases hq : q = p
  · subst hq
    rw [update_self]
    exact hs
  · rw [update_of_ne hq]
    exact .refl _

theorem of_one (p : Nat) (hdirty : ∀ q, r'.Dirty q ↔ q ≠ p ∧ r.Dirty q)
    (hmem : ∀ q, q ≠ p → r'.mem q = r.mem q) (himage : r'.store.image = r.store.image)
    (hwritten : ∀ a, a ∉ lost → r.Dirty p → a ∈ (r.mem p).pixels →
      some (r'.store.vram a) = (r.mem p).contents (r.store.image p) a)
    (hkept : ∀ a, a ∉ lost → (∀ q, r.Dirty q → a ∉ (r.mem q).pixels) →
      r'.store.vram a = r.store.vram a) : Settled lost r r' where
  dirty q hq := by
    obtain ⟨hne, hq⟩ := (hdirty q).mp hq
    exact ⟨hq, hmem q hne ▸ .refl _, congrFun himage q⟩
  written q a ha hq hclean hqa := by
    have hqp : q = p := by
      by_contra hne
      exact hclean ((hdirty q).mpr ⟨hne, hq⟩)
    subst hqp
    exact hwritten a ha hq hqa
  kept := hkept

end Settled

theorem VkState.dirty_update {r r' : VkState Memory} {p : Nat} {s : SurfaceBinding}
    (hsurfaces : r'.surfaces = r.surfaces) (hmem : r'.mem = update r.mem p s)
    (hs : s.drawDirty = false) (q : Nat) : r'.Dirty q ↔ q ≠ p ∧ r.Dirty q := by
  rw [Dirty, Dirty, hsurfaces, hmem]
  by_cases hq : q = p
  · subst hq
    simp [hs]
  · simp [hq]

namespace VkState

variable {lost : Set Nat} {tcg d24 : Bool} {r : VkState Memory} {p : Nat}

theorem downloadSurface_settled (hp : r.Dirty p) : Settled lost r (r.downloadSurface (memoryHost tcg d24) p true) := by
  dsimp only [downloadSurface]
  split
  · exact .refl r
  · refine .of_one p (dirty_update rfl rfl rfl) (fun q hne => update_of_ne hne _ _) rfl
      (fun a _ _ ha => ?_) (fun a _ hclear => ?_)
    · obtain ⟨b, hb⟩ := SurfaceBinding.contents_eq_some ha (r.store.image p)
      change some (((r.mem p).contents (r.store.image p) a).getD (r.store.vram a)) = _
      rw [hb, getD_some]
    · change ((r.mem p).contents (r.store.image p) a).getD (r.store.vram a) = _
      rw [SurfaceBinding.contents_eq_none.mpr (hclear p hp), getD_none]

theorem surfaceDownloadIfDirty_settled (hp : p ∈ r.surfaces) :
    Settled lost r (r.surfaceDownloadIfDirty (memoryHost tcg d24) p) := by
  unfold surfaceDownloadIfDirty
  split
  · next hdirty => exact downloadSurface_settled ⟨hp, hdirty⟩
  · exact .refl r

theorem surfaceDownloadIfDirty_pixels {H : Host Memory} (h : ((r.surfaceDownloadIfDirty H p).mem p).drawDirty = true) :
    ((r.surfaceDownloadIfDirty H p).mem p).pixels = ∅ := by
  dsimp only [surfaceDownloadIfDirty, downloadSurface] at h ⊢
  split at h
  · split at h
    · next hdirty hempty =>
      rw [if_pos hdirty, if_pos hempty]
      simp only [Bool.or_true, Bool.not_true, Bool.false_or, Bool.or_eq_true, beq_iff_eq] at hempty
      exact SurfaceBinding.pixels_eq_empty hempty
    · have hself := congrArg SurfaceBinding.drawDirty (update_self p { r.mem p with
        downloadPending := false, drawDirty := false, unsaved := false } r.mem)
      exact absurd (hself.symm.trans h) Bool.false_ne_true
  · next hclean => exact absurd h hclean

theorem downloadAll_settled (tcg d24 : Bool) {ps : List Nat} (hlaid : r.Laid)
    (hps : ∀ p ∈ ps, p ∈ r.surfaces) :
    let r' := ps.foldl (fun r p => r.surfaceDownloadIfDirty (memoryHost tcg d24) p) r
    r'.surfaces = r.surfaces ∧ Settled ∅ r r' ∧ ∀ p ∈ ps, r'.Dirty p → (r'.mem p).pixels = ∅ := by
  induction ps generalizing r with
  | nil => exact ⟨rfl, .refl r, fun p hp => absurd hp not_mem_nil⟩
  | cons p ps ih =>
    have hsurfaces := (surfaceDownloadIfDirty_same (memoryHost tcg d24) r p).surfaces
    have hfirst : Settled ∅ r (r.surfaceDownloadIfDirty (memoryHost tcg d24) p) :=
      surfaceDownloadIfDirty_settled (hps p mem_cons_self)
    obtain ⟨hrest, hsettled, hclean⟩ := ih (hfirst.laid hlaid) fun q hq =>
      hsurfaces ▸ hps q (mem_cons_of_mem p hq)
    refine ⟨hrest.trans hsurfaces, hfirst.trans hlaid hsettled, fun q hq hdirty => ?_⟩
    obtain rfl | hq := mem_cons.mp hq
    · obtain ⟨hold, hsame, -⟩ := hsettled.dirty q hdirty
      exact hsame.pixels.trans (surfaceDownloadIfDirty_pixels hold.2)
    · exact hclean q hq hdirty

/-- Once the dirty surfaces are written back, VRAM alone has what every byte read as before. -/
theorem downloadDirtySurfaces_vram (hlaid : r.Laid) (a : Nat) :
    (r.downloadDirtySurfaces (memoryHost tcg d24)).store.vram a = r.logical a ∧
      (r.downloadDirtySurfaces (memoryHost tcg d24)).logical a = r.logical a := by
  obtain ⟨hsurfaces, hsettled, hclean⟩ := downloadAll_settled tcg d24 hlaid fun p hp => hp
  have hlogical := hsettled.logical hlaid (Set.notMem_empty a)
  refine ⟨?_, hlogical⟩
  rw [← hlogical, logical, overlay_eq_none.mpr, getD_none]
  · rfl
  · intro p hp
    rw [hclean p (hsurfaces ▸ hp.1) hp]
    exact Set.notMem_empty a

/-- Two surfaces that were drawn to, one pixel and a swizzled square of two by two. -/
def twoDrawn : VkState Memory :=
  let pixel := { blankSurface with
    width := 1, height := 1, pitch := 1, drawDirty := true, format := ⟨1, .r8Unorm, .colorAttachment⟩ }
  let square := { pixel with vramAddr := 16, width := 2, height := 2, pitch := 2, swizzle := true }
  { init (fun p => if p = 0 then pixel else square)
      ⟨fun _ => 0, fun p row column => BitVec.ofNat 8 (1 + p + 2 * row + column)⟩ with surfaces := [0, 1] }

theorem twoDrawn_laid : twoDrawn.Laid := by
  have hoffset : ∀ m ∈ (twoDrawn.mem 0).moves, m.offset < 16 := by decide +kernel
  have hpixel : ∀ a ∈ (twoDrawn.mem 0).pixels, a < 16 := by
    intro a ha
    obtain ⟨m, hm, rfl⟩ := SurfaceBinding.mem_pixels.mp ha
    exact (Nat.zero_add _).trans_lt (hoffset m hm)
  have hsquare : ∀ a ∈ (twoDrawn.mem 1).pixels, 16 ≤ a := by
    intro a ha
    obtain ⟨m, -, rfl⟩ := SurfaceBinding.mem_pixels.mp ha
    exact Nat.le_add_right 16 m.offset
  have hdisjoint : Disjoint (twoDrawn.mem 0).pixels (twoDrawn.mem 1).pixels :=
    Set.disjoint_left.mpr fun a ha ha' => absurd (hsquare a ha') (not_le.mpr (hpixel a ha))
  have hactive (p : Nat) (hp : twoDrawn.Dirty p) : p = 0 ∨ p = 1 := by simpa [twoDrawn] using hp.1
  intro p q hp hq hne
  obtain rfl | rfl := hactive p hp <;> obtain rfl | rfl := hactive q hq
  · exact absurd rfl hne
  · exact hdisjoint
  · exact hdisjoint.symm
  · exact absurd rfl hne

theorem downloadDirtySurfaces_vram_two : let r := twoDrawn.downloadDirtySurfaces (memoryHost true true)
    twoDrawn.store.vram 17 = 0 ∧ r.store.vram 0 = 1 ∧ r.store.vram 17 = 3 ∧ r.store.vram 18 = 4 := by
  have h (a : Nat) : (twoDrawn.downloadDirtySurfaces (memoryHost true true)).store.vram a = twoDrawn.logical a :=
    (downloadDirtySurfaces_vram twoDrawn_laid a).1
  exact ⟨rfl, (h 0).trans (by decide +kernel), (h 17).trans (by decide +kernel),
    (h 18).trans (by decide +kernel)⟩

theorem unbindSurface_settled (color : Bool) : Settled lost r (r.unbindSurface color) :=
  .of_unmoved unbindSurface_surfaces (fun p => by rw [unbindSurface_mem]; exact .refl _)
    unbindSurface_store

end VkState

namespace NV2AState

variable {lost : Set Nat} {tcg d24 : Bool} {d d' : NV2AState Memory} {p : Nat}

theorem invalidateSurface_settled {found : SurfaceBinding} (hnodup : d.r.surfaces.Nodup)
    (hp : d.r.Dirty p → (d.r.mem p).pixels = ∅) (h : d.invalidateSurface p found = .ok d') :
    Settled lost d.r d'.r := by
  have hremoved := (invalidateSurface_ok h).2
  have hstore := hremoved.store
  refine .of_one p (fun q => ?_) (fun q _ => by rw [hremoved.mem]) (by rw [hstore])
    (fun a _ hdirty ha => ?_) (fun a _ _ => by rw [hstore])
  · rw [VkState.Dirty, VkState.Dirty, hremoved.surfaces, hremoved.mem, hnodup.mem_erase_iff, and_assoc]
  · rw [hp hdirty] at ha
    exact absurd ha (Set.notMem_empty a)

variable (hinv : CacheInv (memoryHost tcg d24) d.r) (hlaid : d.r.Laid)
include hinv hlaid

theorem evictSurface_settled (hp : p ∈ d.r.surfaces)
    (h : d.evictSurface (memoryHost tcg d24) p = .ok d') : Settled lost d.r d'.r := by
  have hsame := d.r.surfaceDownloadIfDirty_same (memoryHost tcg d24) p
  refine (VkState.surfaceDownloadIfDirty_settled hp).trans hlaid (invalidateSurface_settled
    (hsame.inv hinv).nodup (fun hdirty => ?_) h)
  exact VkState.surfaceDownloadIfDirty_pixels hdirty.2

theorem evictWhere_settled {victim : SurfaceBinding → Bool} {ps : List Nat} (hps : ps.Sublist d.r.surfaces)
    (h : evictWhere (memoryHost tcg d24) victim ps d = .ok d') : Settled lost d.r d'.r := by
  induction ps generalizing d with
  | nil =>
    cases h
    exact .refl _
  | cons p ps ih =>
    have hp := hps.subset mem_cons_self
    rw [evictWhere] at h
    split at h
    · obtain ⟨d₁, h₁, h⟩ := bind_eq_ok.mp h
      have hone : Settled lost d.r d₁.r := evictSurface_settled hinv hlaid hp h₁
      exact hone.trans hlaid
        (ih (evictSurface_inv hinv hp h₁) (hone.laid hlaid) (evictSurface_rest hps h₁) h)
    · exact ih hinv hlaid (sublist_of_cons_sublist hps) h

variable {color : Bool} {target : SurfaceBinding} {i : PartInputs}

omit hinv hlaid in
theorem populateSurfaceBindingTarget_clean {H : Host Memory} {ramin : Ramin}
    (h : d.populateSurfaceBindingTarget H ramin color = .ok target) : target.drawDirty = false := by
  unfold populateSurfaceBindingTarget populateSurfaceBindingTargetSized at h
  split at h
  · split at h
    · dsimp only at h
      split at h
      · cases h
        rfl
      · cases h
    · cases h
  · cases h

omit hinv hlaid in
theorem takeSurface_store (r : VkState Memory) (target : SurfaceBinding) :
    (takeSurface r target).1.store = r.store := by
  unfold takeSurface
  split <;> rfl

omit hinv hlaid in
theorem takeSurface_settled {r : VkState Memory} (hinv : CacheInv (memoryHost tcg d24) r) (target : SurfaceBinding) :
    Settled lost r ((takeSurface r target).1.set (takeSurface r target).2 target) := by
  have hfresh := takeSurface_fresh hinv target
  have hiff : ∀ q, VkState.Dirty ((takeSurface r target).1.set (takeSurface r target).2 target) q ↔ r.Dirty q := by
    intro q
    rw [VkState.Dirty, hfresh.surfaces]
    refine and_congr_right fun hq => ?_
    rw [hfresh.mem_of_mem hq]
  refine .of_surfaces (fun q hq => ⟨(hiff q).mp hq, ?_⟩)
    (fun q hq hclean => absurd ((hiff q).mpr hq) hclean) (takeSurface_store r target)
  rw [hfresh.mem_of_mem ((hiff q).mp hq).1]
  exact .refl _

theorem surfacePut_settled {p : Nat}
    (hnot : p ∉ d.r.surfaces) (hclean : (d.r.mem p).drawDirty = false)
    (h : d.surfacePut (memoryHost tcg d24) p = .ok d') : Settled lost d.r d'.r := by
  unfold surfacePut at h
  split at h
  · cases h
  · obtain ⟨d₁, h₁, rfl⟩ := map_eq_ok.mp h
    have hevicted := (evictWhere_ok hinv (.refl _) h₁).2
    have hmem : d₁.r.mem p = d.r.mem p := hevicted.mem p fun hp => absurd hp hnot
    refine (evictWhere_settled hinv hlaid (.refl _) h₁).trans hlaid
      (.of_surfaces (fun q hq => ?_) (fun q hq hclean' => ?_) rfl)
    · obtain ⟨hq, hdirty⟩ := hq
      obtain rfl | hq := mem_cons.mp hq
      · have hclean' := (congrArg SurfaceBinding.drawDirty hmem).trans hclean
        exact absurd (hclean'.symm.trans hdirty) Bool.false_ne_true
      · exact ⟨⟨hq, hdirty⟩, .refl _⟩
    · exact absurd ⟨mem_cons_of_mem p hq.1, hq.2⟩ hclean'

variable {out : NV2AState Memory × Nat}

theorem createSurface_settled (hclean : target.drawDirty = false)
    (h : d.createSurface (memoryHost tcg d24) color target = .ok out) :
    Settled lost d.r out.1.r := by
  have hfresh := takeSurface_fresh hinv target
  have htake : Settled lost d.r _ := takeSurface_settled hinv target
  obtain ⟨d₂, hput, rfl⟩ := map_eq_ok.mp h
  rw [markZeta_r]
  refine htake.trans hlaid (surfacePut_settled (hfresh.inv hinv) (htake.laid hlaid) hfresh.not_mem
    ?_ hput)
  exact (congrArg SurfaceBinding.drawDirty hfresh.mem_self).trans hclean

theorem findSurface_settled {found : Option Nat}
    (hfound : ∀ p, found = some p → p ∈ d.r.surfaces) (hclean : target.drawDirty = false)
    (h : d.findSurface (memoryHost tcg d24) i color target found = .ok out) :
    Settled lost d.r out.1.r := by
  cases found with
  | none => exact createSurface_settled hinv hlaid hclean h
  | some p =>
    have hp := hfound p rfl
    obtain ⟨compatible, -, h⟩ := bind_eq_ok.mp h
    split at h
    · cases h
      exact .set ⟨rfl, rfl, rfl, rfl⟩
    · obtain ⟨d₁, h₁, h⟩ := bind_eq_ok.mp h
      have hone : Settled lost d.r d₁.r := evictSurface_settled hinv hlaid hp h₁
      exact hone.trans hlaid
        (createSurface_settled (evictSurface_inv hinv hp h₁) (hone.laid hlaid) hclean h)

omit hinv in
theorem unbindForTarget_settled (color : Bool) (found : Option Nat) :
    Settled lost d.r (d.unbindForTarget color found).r := by
  dsimp only [unbindForTarget]
  split
  · exact (VkState.unbindSurface_settled color).trans hlaid (VkState.unbindSurface_settled (!color))
  · exact VkState.unbindSurface_settled color

theorem rebindSurface_settled (hclean : target.drawDirty = false)
    (h : d.rebindSurface (memoryHost tcg d24) i color target = .ok d') : Settled lost d.r d'.r := by
  obtain ⟨out, hout, rfl⟩ := map_eq_ok.mp h
  have hunbind : Settled lost d.r _ := unbindForTarget_settled hlaid color (d.r.surfaceGet target.vramAddr)
  have hfind : Settled lost _ out.1.r := findSurface_settled (unbindForTarget_inv hinv color _)
    (hunbind.laid hlaid)
    (fun p hp => by rw [unbindForTarget_surfaces]; exact (VkState.surfaceGet_eq_some hp).1) hclean hout
  exact (hunbind.trans hlaid hfind).trans hlaid (.of_unmoved rfl (fun p => .refl _) rfl)

/-- Pending draws have marked the bound surface. -/
def DrawsMarked (d : NV2AState Memory) (color : Bool) : Prop :=
  (d.pg.surface color).drawDirty = true →
    ∃ p, d.r.binding color = some p ∧ (d.r.mem p).drawDirty = true

omit hlaid in
theorem settleDraws_settled (hmarked : tcg = true ∨ d.DrawsMarked color)
    (hdraws : (d.pg.surface color).drawDirty = true) :
    Settled lost d.r (d.settleDraws (memoryHost tcg d24) color).r := by
  dsimp only [settleDraws]
  split
  · exact .refl d.r
  · next htcg =>
    obtain ⟨p, hp, hdirty⟩ := hmarked.resolve_left htcg hdraws
    rw [hp]
    exact VkState.downloadSurface_settled ⟨(hinv.bound color p hp).1, hdirty⟩

variable {H : Host Memory} {write : Bool}

omit hinv hlaid in
theorem rebinds_false (hmarked : d.DrawsMarked color)
    (hdraws : (d.pg.surface color).drawDirty = true) : d.rebinds H i false color = false := by
  obtain ⟨p, hp, -⟩ := hmarked hdraws
  rw [rebinds, hp]
  rfl

theorem updateSurfacePart_settled
    (hmarked : tcg = true ∨ d.DrawsMarked color) (hdraws : (d.pg.surface color).drawDirty = true)
    (h : d.updateSurfacePart (memoryHost tcg d24) i false color = .ok d') :
    Settled lost d.r d'.r := by
  obtain ⟨target, htarget, h⟩ := bind_eq_ok.mp h
  obtain ⟨d₁, h₁, rfl⟩ := map_eq_ok.mp h
  split at h₁
  · next hrebinds =>
    have htcg : tcg = true := hmarked.resolve_right fun hmarked =>
      absurd (rebinds_false hmarked hdraws) (by rw [hrebinds]; exact Bool.noConfusion)
    have hclean := populateSurfaceBindingTarget_clean htarget
    have hrebind : Settled lost d.r d₁.r := rebindSurface_settled hinv hlaid hclean h₁
    obtain ⟨dims, hdims, htarget⟩ := populateSurfaceBindingTarget_ok htarget
    obtain ⟨out, hfound, rfl⟩ := rebindSurface_found hinv htarget
      (fun hcolor q hq => targetDimensions_zeta (hcolor ▸ hdims) hq) h₁
    split
    · next hdraws' =>
      exact hrebind.trans hlaid
        (settleDraws_settled (bindFound_rebound hfound).inv (.inl htcg) hdraws')
    · exact hrebind
  · cases h₁
    rw [hdraws]
    exact settleDraws_settled hinv hmarked hdraws

theorem flushPart_settled (hmarked : tcg = true ∨ d.DrawsMarked color)
    (h : d.flushPart (memoryHost tcg d24) i color write = .ok d') : Settled lost d.r d'.r := by
  unfold flushPart at h
  split at h
  · next hdraws =>
    rw [hasDraws, Bool.and_eq_true] at hdraws
    exact updateSurfacePart_settled hinv hlaid hmarked hdraws.2 h
  · cases h
    exact .refl _

omit hlaid in
theorem flushPart_marked (hcolor : d.DrawsMarked true)
    (hzeta : d.DrawsMarked false) (h : d.flushPart H i true write = .ok d') :
    d'.DrawsMarked false := by
  unfold flushPart at h
  split at h
  · next hdraws =>
    rw [hasDraws, Bool.and_eq_true] at hdraws
    obtain ⟨target, -, h⟩ := bind_eq_ok.mp h
    obtain ⟨d₁, h₁, rfl⟩ := map_eq_ok.mp h
    rw [rebinds_false hcolor hdraws.2] at h₁
    cases h₁
    rw [hdraws.2]
    intro hdraws'
    obtain ⟨p, hp, -⟩ := hcolor hdraws.2
    obtain ⟨q, hq, hdirty⟩ := hzeta hdraws'
    refine ⟨q, ?_, ?_⟩
    · change (d.settleDraws H true).r.binding false = some q
      rw [(d.settleDraws_same H true).binding]
      exact hq
    · change ((d.settleDraws H true).r.mem q).drawDirty = true
      dsimp only [settleDraws]
      split
      · exact hdirty
      · rw [hp, elim_some]
        dsimp only [VkState.downloadSurface]
        split
        · exact hdirty
        · exact (congrArg SurfaceBinding.drawDirty
            (update_of_ne (hinv.binding_ne hp hq).symm _ _)).trans hdirty
  · cases h
    exact hzeta

omit hinv hlaid in
theorem touchBinding_settled (H : Host Memory) (d : NV2AState Memory) (color : Bool) :
    Settled lost d.r (d.touchBinding H false color).r := by
  dsimp only [touchBinding]
  cases d.r.binding color with
  | none => exact .refl d.r
  | some p => exact .set ⟨rfl, rfl, rfl, rfl⟩

theorem finishUpdate_settled
    (h : d.finishUpdate (memoryHost tcg d24) false = .ok d') : Settled lost d.r d'.r := by
  have htouch : Settled lost d.r _ := (d.touchBinding_settled (memoryHost tcg d24) true).trans hlaid
    (touchBinding_settled (memoryHost tcg d24) _ false)
  unfold finishUpdate at h
  dsimp only at h
  split at h
  · obtain ⟨d₁, h₁, rfl⟩ := map_eq_ok.mp h
    have hexpire : Settled lost _ d₁.r := evictWhere_settled
      ((d.touchBindings_same (memoryHost tcg d24) false).inv hinv) (htouch.laid hlaid) (.refl _) h₁
    exact (htouch.trans hlaid hexpire).trans hlaid (.of_unmoved rfl (fun p => .refl _) rfl)
  · cases h

omit hinv hlaid in
theorem loadZFormat_marked : d.loadZFormat.DrawsMarked color ↔ d.DrawsMarked color := by
  rw [DrawsMarked, DrawsMarked, loadZFormat]

theorem surfaceUpdate_settled {u : UpdateInputs} {colorWrite zetaWrite : Bool} (hmarked : tcg = true ∨ ∀ color, d.DrawsMarked color)
    (h : d.surfaceUpdate (memoryHost tcg d24) u false colorWrite zetaWrite = .ok d') :
    Settled lost d.r d'.r := by
  obtain ⟨d₂, h₂, h⟩ := bind_eq_ok.mp h
  obtain ⟨d₁, h₁, h₂⟩ := bind_eq_ok.mp h₂
  have hmarked₀ : tcg = true ∨ ∀ color, d.loadZFormat.DrawsMarked color :=
    hmarked.imp_right fun hdraws color => loadZFormat_marked.mpr (hdraws color)
  rw [← d.loadZFormat_r] at hinv hlaid ⊢
  have hinv₁ := flushPart_inv hinv h₁
  have hcolor : Settled lost d.loadZFormat.r d₁.r :=
    flushPart_settled hinv hlaid (hmarked₀.imp_right fun h => h true) h₁
  have hmarked₁ : tcg = true ∨ d₁.DrawsMarked false :=
    hmarked₀.imp_right fun hdraws => flushPart_marked hinv (hdraws true) (hdraws false) h₁
  have hzeta : Settled lost d₁.r d₂.r := flushPart_settled hinv₁ (hcolor.laid hlaid) hmarked₁ h₂
  have hparts := hcolor.trans hlaid hzeta
  exact hparts.trans hlaid
    (finishUpdate_settled (flushPart_inv hinv₁ h₂) (hparts.laid hlaid) h)

end NV2AState

end XogMobile.Nv2a.Vk
