import XogMobile.Nv2a.Vk.DestRect

/-!
# The bytes a blit writes

A blit is for the bytes of a rectangle that are not cut off by a tile. `pgraph_vk_image_blit` divides the
clipped size by the pitch: it writes that many whole rows, and then what is left over as a part of one
more row. The part is not bounded by the bytes of a row, and a blend leaves out every fourth byte unless
the alpha is patched in afterwards.
-/

namespace XogMobile.Nv2a.Vk

section Writes

variable {dest pitch width height widthBytes : Nat} {op : Operation}

def rowOffsets (op : Operation) (width widthBytes : Nat) : Set Nat :=
  match op with
  | .srcCopy => Set.Iio widthBytes
  | .blendAnd => DestRect.blended width

variable {a : Nat}

theorem mem_rowWrites : a ∈ rowWrites op dest width widthBytes ↔
    ∃ x ∈ rowOffsets op width widthBytes, a = dest + x := by
  cases op with
  | srcCopy =>
    simp only [rowWrites, rowOffsets, Set.mem_Ico, Set.mem_Iio]
    constructor
    · rintro ⟨hle, hlt⟩
      exact ⟨a - dest, by omega, by omega⟩
    · rintro ⟨x, hx, rfl⟩
      omega
  | blendAnd => rfl

theorem mem_performWrites : a ∈ performWrites op dest width height widthBytes pitch ↔
    ∃ y x, y < height ∧ x ∈ rowOffsets op width widthBytes ∧ a = dest + (y * pitch + x) := by
  simp only [performWrites, List.mem_range, mem_rowWrites]
  constructor
  · rintro ⟨y, hy, x, hx, rfl⟩
    exact ⟨y, x, hy, hx, add_assoc _ _ _⟩
  · rintro ⟨y, x, hy, hx, rfl⟩
    exact ⟨y, hy, x, hx, (add_assoc _ _ _).symm⟩

theorem mem_patchWrites : a ∈ patchWrites dest width height pitch ↔
    ∃ y x, y < height ∧ x < width ∧ a = dest + (y * pitch + (x * 4 + 3)) := by
  simp only [patchWrites, List.mem_range]
  constructor
  · rintro ⟨y, hy, x, hx, rfl⟩
    exact ⟨y, x, hy, hx, add_assoc _ _ _⟩
  · rintro ⟨y, x, hy, hx, rfl⟩
    exact ⟨y, hy, x, hx, (add_assoc _ _ _).symm⟩

end Writes

def Operation.unit : Operation → Nat
  | .srcCopy => 1
  | .blendAnd => 4

namespace BlitPlan

open DestRect Nat

variable {p : BlitPlan} {op : Operation}

theorem rowOffsets_nothing (hleft : p.leftoverBytes = 0) :
    rowOffsets op (p.leftoverBytes / p.bytesPerPixel) p.leftoverBytes = ∅ := by
  rw [hleft]
  ext x
  cases op with
  | srcCopy => simp [rowOffsets]
  | blendAnd => simp [rowOffsets, mem_blended]

theorem rowsWrites_eq : p.rowsWrites op = (p.dest + ·) '' passes p.destPitch p.adjustedHeight
    (rowOffsets op p.rowPixels (p.rowPixels * p.bytesPerPixel))
    (rowOffsets op (p.leftoverBytes / p.bytesPerPixel) p.leftoverBytes) := by
  rw [rowsWrites, passes, Set.image_union]
  congr 1
  · ext a
    rw [mem_performWrites]
    constructor
    · rintro ⟨y, x, hy, hx, rfl⟩
      exact ⟨_, ⟨y, x, hy, hx, rfl⟩, rfl⟩
    · rintro ⟨_, ⟨y, x, hy, hx, rfl⟩, rfl⟩
      exact ⟨y, x, hy, hx, rfl⟩
  · ext a
    rw [mem_performWrites]
    constructor
    · rintro ⟨y, x, hy, hx, rfl⟩
      refine ⟨_, ⟨x, hx, rfl⟩, ?_⟩
      have hzero : y = 0 := by
        unfold leftoverRows at hy
        split at hy <;> omega
      subst hzero
      dsimp only
      omega
    · rintro ⟨_, ⟨x, hx, rfl⟩, rfl⟩
      have hone : 0 < p.leftoverRows := by
        by_contra hnone
        have hleft : p.leftoverBytes = 0 := by
          unfold leftoverRows at hnone
          split at hnone
          · assumption
          · omega
        rw [rowOffsets_nothing hleft] at hx
        exact Set.notMem_empty x hx
      exact ⟨0, x, hone, hx, by dsimp only; omega⟩

theorem alphaWrites_eq : p.alphaWrites = (p.dest + ·) '' passes p.destPitch p.adjustedHeight
    {k | ∃ x < p.rowPixels, k = x * 4 + 3} {k | ∃ x < p.leftoverBytes / 4, k = x * 4 + 3} := by
  rw [alphaWrites, passes, Set.image_union]
  congr 1
  · ext a
    rw [mem_patchWrites]
    constructor
    · rintro ⟨y, x, hy, hx, rfl⟩
      exact ⟨_, ⟨y, _, hy, ⟨x, hx, rfl⟩, rfl⟩, rfl⟩
    · rintro ⟨_, ⟨y, _, hy, ⟨x, hx, rfl⟩, rfl⟩, rfl⟩
      exact ⟨y, x, hy, hx, rfl⟩
  · ext a
    rw [mem_patchWrites]
    constructor
    · rintro ⟨y, x, hy, hx, rfl⟩
      exact ⟨_, ⟨_, ⟨x, hx, rfl⟩, rfl⟩, by dsimp only; omega⟩
    · rintro ⟨_, ⟨_, ⟨x, hx, rfl⟩, rfl⟩, rfl⟩
      have hone : 0 < p.leftoverRows := by
        unfold leftoverRows
        split <;> omega
      exact ⟨0, x, hone, hx, by dsimp only; omega⟩

theorem passes_union {pitch rows : Nat} {row row' part part' : Set Nat} :
    passes pitch rows row part ∪ passes pitch rows row' part' = passes pitch rows (row ∪ row') (part ∪ part') := by
  ext k
  constructor
  · rintro ((⟨y, x, hy, hx, rfl⟩ | ⟨x, hx, rfl⟩) | ⟨y, x, hy, hx, rfl⟩ | ⟨x, hx, rfl⟩)
    · exact .inl ⟨y, x, hy, .inl hx, rfl⟩
    · exact .inr ⟨x, .inl hx, rfl⟩
    · exact .inl ⟨y, x, hy, .inr hx, rfl⟩
    · exact .inr ⟨x, .inr hx, rfl⟩
  · rintro (⟨y, x, hy, hx | hx, rfl⟩ | ⟨x, hx | hx, rfl⟩)
    · exact .inl (.inl ⟨y, x, hy, hx, rfl⟩)
    · exact .inr (.inl ⟨y, x, hy, hx, rfl⟩)
    · exact .inl (.inr ⟨x, hx, rfl⟩)
    · exact .inr (.inr ⟨x, hx, rfl⟩)

theorem copied_union_alpha {bytes pixels : Nat} (hle : pixels * 4 ≤ bytes) :
    Set.Iio bytes ∪ {k | ∃ x < pixels, k = x * 4 + 3} = Set.Iio bytes := by
  rw [Set.union_eq_left]
  rintro _ ⟨x, hx, rfl⟩
  rw [Set.mem_Iio]
  omega

theorem blended_union_alpha {pixels : Nat} :
    blended pixels ∪ {k | ∃ x < pixels, k = x * 4 + 3} = Set.Iio (pixels * 4) := by
  ext k
  rw [Set.mem_union, mem_blended, Set.mem_Iio]
  constructor
  · rintro (⟨-, hlt⟩ | ⟨x, hx, rfl⟩) <;> omega
  · intro hlt
    by_cases hch : k % 4 = 3
    · exact .inr ⟨k / 4, by omega, by omega⟩
    · exact .inl ⟨hch, by omega⟩

theorem writes_solid (hop : p.operation = some op) (hbpp : p.alpha.isSome → p.bytesPerPixel = 4)
    (hsolid : op = .srcCopy ∨ p.alpha.isSome) :
    p.writes = (p.dest + ·) '' passes p.destPitch p.adjustedHeight (Set.Iio (p.rowPixels * p.bytesPerPixel))
      (Set.Iio (p.leftoverBytes / op.unit * op.unit)) := by
  cases halpha : p.alpha with
  | none =>
    rw [halpha] at hsolid
    obtain rfl : op = .srcCopy := hsolid.resolve_right (by simp)
    rw [writes, hop, halpha]
    simp only [rowsWrites_eq, rowOffsets, Operation.unit, Nat.div_one, mul_one]
  | some alphaVal =>
    have hfour := hbpp (by rw [halpha, Option.isSome_some])
    rw [writes, hop, halpha]
    dsimp only
    rw [rowsWrites_eq, alphaWrites_eq, ← Set.image_union, passes_union]
    cases op with
    | srcCopy =>
      have hleft : p.leftoverBytes / 4 * 4 ≤ p.leftoverBytes := div_mul_le_self _ _
      rw [hfour]
      simp only [rowOffsets, Operation.unit, Nat.div_one, mul_one, copied_union_alpha (le_refl _),
        copied_union_alpha hleft]
    | blendAnd =>
      rw [hfour]
      simp only [rowOffsets, Operation.unit, blended_union_alpha]

theorem writes_sparse (hop : p.operation = some .blendAnd) (halpha : p.alpha = none) :
    p.writes = (p.dest + ·) '' passes p.destPitch p.adjustedHeight (blended p.rowPixels)
      (blended (p.leftoverBytes / p.bytesPerPixel)) := by
  rw [writes, hop, halpha]
  exact rowsWrites_eq

end BlitPlan

theorem nvClipGpuTileBlit_cases (regs : Nat → Word) (base len : Hwaddr) : nvClipGpuTileBlit regs base len = len ∨
      ∃ limit : Word, base < limit.setWidth 64 ∧ limit.setWidth 64 < base + len ∧
        nvClipGpuTileBlit regs base len = (limit + 1).setWidth 64 - base := by
  unfold nvClipGpuTileBlit
  generalize hfound : (List.range 8).findSome? _ = found
  cases found with
  | none => exact .inl (Option.getD_none ..)
  | some clipped =>
    obtain ⟨i, -, htile⟩ := List.exists_of_findSome?_eq_some hfound
    obtain ⟨htile, hclipped⟩ := Option.ite_none_right_eq_some.mp htile
    rw [Bool.and_eq_true, Bool.and_eq_true, decide_eq_true_eq, decide_eq_true_eq] at htile
    obtain ⟨⟨-, hlt⟩, hend⟩ := htile
    exact .inr ⟨_, hlt, hend, (Option.some.inj hclipped).symm⟩

theorem nvClipGpuTileBlit_zero (regs : Nat → Word) (base : Hwaddr) : nvClipGpuTileBlit regs base 0 = 0 := by
  obtain hsame | ⟨limit, hlt, hend, -⟩ := nvClipGpuTileBlit_cases regs base 0
  · exact hsame
  · have hzero : base + (0 : Hwaddr) = base := BitVec.add_zero base
    rw [hzero] at hend
    exact absurd hlt (BitVec.not_lt.mpr (BitVec.le_of_lt hend))

theorem two_le_nvClipGpuTileBlit {regs : Nat → Word} {base : Hwaddr} {size : Word}
    (hclips : nvClipGpuTileBlit regs base (size.setWidth 64) < size.setWidth 64) :
    2 ≤ (nvClipGpuTileBlit regs base (size.setWidth 64)).toNat := by
  obtain hsame | ⟨limit, hlt, hend, hclipped⟩ := nvClipGpuTileBlit_cases regs base (size.setWidth 64)
  · rw [hsame] at hclips
    exact absurd hclips (BitVec.lt_irrefl _)
  · rw [hclipped] at hclips ⊢
    rw [BitVec.lt_def] at hlt hend hclips
    have hone : (1 : Word).toNat = 1 := rfl
    simp only [BitVec.toNat_setWidth, BitVec.toNat_add, BitVec.toNat_sub] at hlt hend hclips ⊢
    omega

namespace BlitInputs

variable (i : BlitInputs) (bytesPerPixel : Nat) (destAddr : Hwaddr)

def destOffset : Word :=
  i.imageBlit.outY * i.contextSurfaces.destPitch + i.imageBlit.outX * BitVec.ofNat 32 bytesPerPixel

def destSize : Word :=
  (i.imageBlit.height - 1) * i.contextSurfaces.destPitch +
    i.imageBlit.width * BitVec.ofNat 32 bytesPerPixel

def rowPixels : Nat :=
  min (min i.contextSurfaces.sourcePitch.toNat i.contextSurfaces.destPitch.toNat / bytesPerPixel)
    i.imageBlit.width.toNat

def destRect : DestRect where
  height := i.imageBlit.height.toNat
  pitch := i.contextSurfaces.destPitch.toNat
  rowBytes := i.rowPixels bytesPerPixel * bytesPerPixel
  size := (i.destSize bytesPerPixel).toNat
  clipped := (nvClipGpuTileBlit i.pfb (destAddr + (i.destOffset bytesPerPixel).setWidth 64)
    ((i.destSize bytesPerPixel).setWidth 64)).toNat

def destStart : Nat := destAddr.toNat + (i.destOffset bytesPerPixel).toNat

/-- The bytes written are those of the rectangle. -/
def WritesExact (alpha : Option Byte) (op : Operation) : Prop :=
  if op = .blendAnd ∧ alpha = none then (i.destRect bytesPerPixel destAddr).SparseExact bytesPerPixel
  else (i.destRect bytesPerPixel destAddr).SolidExact op.unit

instance (alpha : Option Byte) (op : Operation) :
    Decidable (i.WritesExact bytesPerPixel destAddr alpha op) :=
  inferInstanceAs (Decidable (if op = .blendAnd ∧ alpha = none then _ else _))

structure Planned (alpha : Option Byte) (p : BlitPlan) : Prop where
  operation : p.operation = Operation.decode i.imageBlit.operation
  dest : p.dest = i.destStart bytesPerPixel destAddr
  destPitch : p.destPitch = (i.destRect bytesPerPixel destAddr).pitch
  rowPixels : p.rowPixels = i.rowPixels bytesPerPixel
  adjustedHeight : p.adjustedHeight = (i.destRect bytesPerPixel destAddr).wholeRows
  leftoverBytes : p.leftoverBytes = (i.destRect bytesPerPixel destAddr).leftover
  pixel : p.bytesPerPixel = bytesPerPixel
  patched : p.alpha = alpha

variable {i bytesPerPixel destAddr} {alpha : Option Byte} {p : BlitPlan} {op : Operation}

theorem planned {destDma destLen : Hwaddr} (hplan : i.plan = .ok p)
    (hformat : blitFormat i.contextSurfaces.colorFormat = some (bytesPerPixel, alpha))
    (hdma : nvDmaMap i.destRamin i.vramSize i.contextSurfaces.dmaImageDest = some (destDma, destLen)) :
    i.Planned bytesPerPixel (destDma + i.contextSurfaces.destOffset) alpha p := by
  unfold plan at hplan
  dsimp only at hplan
  rw [hformat, hdma] at hplan
  cases hsource : nvDmaMap i.sourceRamin i.vramSize i.contextSurfaces.dmaImageSource with
  | none =>
    rw [hsource] at hplan
    cases hplan
  | some source =>
    rw [hsource] at hplan
    dsimp only at hplan
    split at hplan
    · have hclips (clipped : Hwaddr) : clipped < (i.destSize bytesPerPixel).setWidth 64 ↔
          clipped.toNat < (i.destSize bytesPerPixel).toNat := by
        rw [BitVec.lt_def, BitVec.toNat_setWidth_of_le (by decide)]
      cases hplan
      refine ⟨rfl, rfl, rfl, rfl, ?_, ?_, rfl, rfl⟩
      all_goals
        simp only [decide_eq_true_eq]
        exact if_congr (hclips _) rfl rfl
    · cases hplan

theorem rowBytes_le_pitch :
    (i.destRect bytesPerPixel destAddr).rowBytes ≤ (i.destRect bytesPerPixel destAddr).pitch := by
  have hle : i.rowPixels bytesPerPixel ≤
      min i.contextSurfaces.sourcePitch.toNat i.contextSurfaces.destPitch.toNat / bytesPerPixel :=
    min_le_left _ _
  calc i.rowPixels bytesPerPixel * bytesPerPixel
      ≤ min i.contextSurfaces.sourcePitch.toNat i.contextSurfaces.destPitch.toNat / bytesPerPixel *
          bytesPerPixel := Nat.mul_le_mul_right _ hle
    _ ≤ min i.contextSurfaces.sourcePitch.toNat i.contextSurfaces.destPitch.toNat := Nat.div_mul_le_self _ _
    _ ≤ i.contextSurfaces.destPitch.toNat := min_le_right _ _

theorem blitFormat_pixel {colorFormat : Word} (h : blitFormat colorFormat = some (bytesPerPixel, alpha)) :
    (bytesPerPixel = 1 ∨ bytesPerPixel = 2 ∨ bytesPerPixel = 4) ∧ (alpha.isSome → bytesPerPixel = 4) := by
  unfold blitFormat at h
  split at h
  all_goals cases h
  all_goals simp

theorem two_le_clipped
    (hclips : (i.destRect bytesPerPixel destAddr).clipped < (i.destRect bytesPerPixel destAddr).size) :
    2 ≤ (i.destRect bytesPerPixel destAddr).clipped := by
  apply two_le_nvClipGpuTileBlit
  exact hclips

theorem clipped_ne_three (hone : i.imageBlit.height.toNat = 1) : (i.destRect 4 destAddr).clipped ≠ 3 ∨
      (i.destRect 4 destAddr).clipped < (i.destRect 4 destAddr).size := by
  have hheight : i.imageBlit.height = 1 := BitVec.eq_of_toNat_eq hone
  have hsize : i.destSize 4 = i.imageBlit.width * 4 := by
    rw [destSize, hheight]
    exact (congrArg (· + _) (BitVec.zero_mul)).trans (BitVec.zero_add _)
  obtain hlt | hle := lt_or_ge 3 (i.destSize 4).toNat
  · by_cases hthree : (i.destRect 4 destAddr).clipped = 3
    · exact .inr (hthree ▸ hlt)
    · exact .inl hthree
  · left
    have hmod : (i.destSize 4).toNat % 4 = 0 := by
      rw [hsize]
      change i.imageBlit.width.toNat * 4 % 2 ^ 32 % 4 = 0
      omega
    have hzero : i.destSize 4 = 0 := BitVec.eq_of_toNat_eq (by change _ = 0; omega)
    have hnone : (i.destRect 4 destAddr).clipped = 0 := by
      change BitVec.toNat (nvClipGpuTileBlit _ _ ((i.destSize 4).setWidth 64)) = 0
      rw [hzero]
      exact congrArg BitVec.toNat (nvClipGpuTileBlit_zero _ _)
    omega

/-- What a blit writes is the clipped rectangle in exactly the cases of `WritesExact`. Nothing else is
changed in any case. -/
theorem imageBlit_writes_iff {destDma destLen : Hwaddr} (hplan : i.plan = .ok p)
    (hformat : blitFormat i.contextSurfaces.colorFormat = some (bytesPerPixel, alpha))
    (hdma : nvDmaMap i.destRamin i.vramSize i.contextSurfaces.dmaImageDest = some (destDma, destLen))
    (hop : Operation.decode i.imageBlit.operation = some op)
    (hheight : 0 < i.imageBlit.height.toNat) :
    (∀ m, ∃ m', p.perform m = .ok m' ∧ ∀ a, a ∉ p.writes → m' a = m a) ∧
      (p.writes = (i.destStart bytesPerPixel (destDma + i.contextSurfaces.destOffset) + ·) ''
          (i.destRect bytesPerPixel (destDma + i.contextSurfaces.destOffset)).bytes ↔
        i.WritesExact bytesPerPixel (destDma + i.contextSurfaces.destOffset) alpha op) := by
  have hp := planned hplan hformat hdma
  obtain ⟨hbpp, hfour⟩ := blitFormat_pixel hformat
  have hop' := hp.operation.trans hop
  constructor
  · intro m
    obtain ⟨m', hm'⟩ : ∃ m', p.perform m = .ok m' := by
      rw [BlitPlan.perform, hop']
      exact ⟨_, rfl⟩
    obtain ⟨f, hfootprint, hf⟩ := BlitPlan.perform_ok hm'
    exact ⟨f m, hf m, fun a ha => hfootprint.frame m a ha⟩
  have hinj {start : Nat} : Function.Injective ((start + ·) '' ·) :=
    Set.image_injective.mpr fun _ _ => add_left_cancel
  unfold WritesExact
  split
  · next hsparse =>
    obtain ⟨rfl, rfl⟩ := hsparse
    rw [BlitPlan.writes_sparse hop' hp.patched, hp.dest, hp.destPitch, hp.rowPixels,
      hp.adjustedHeight, hp.leftoverBytes, hp.pixel, hinj.eq_iff]
    refine DestRect.sparse_iff rfl hbpp rowBytes_le_pitch hheight two_le_clipped fun h hone => ?_
    subst h
    exact clipped_ne_three hone
  · next hsolid =>
    have hsome : op = .srcCopy ∨ p.alpha.isSome := by
      rw [hp.patched]
      cases op with
      | srcCopy => exact .inl rfl
      | blendAnd => exact .inr (Option.isSome_iff_ne_none.mpr fun hnone => hsolid ⟨rfl, hnone⟩)
    rw [BlitPlan.writes_solid hop' (by rw [hp.patched, hp.pixel]; exact hfour) hsome, hp.dest,
      hp.destPitch, hp.rowPixels, hp.adjustedHeight, hp.leftoverBytes, hp.pixel, hinj.eq_iff]
    exact DestRect.solid_iff rowBytes_le_pitch hheight

end BlitInputs

def tileBlit (destOffset : Hwaddr) : BlitInputs where
  contextSurfaces := ⟨0, 0, 0, 0x0A, 64, 64, 0, destOffset⟩
  imageBlit := ⟨0, 3, 0, 0, 0, 0, 4, 3⟩
  beta := 0
  pfb := fun addr => if addr = 0x240 then 1 else if addr = 0x244 then 0x3FFF else 0
  sourceRamin := plainRamin
  destRamin := plainRamin
  vramSize := 0x04000000
  update := plainInputs

def tilePlan (destAddr : Hwaddr) (leftoverBytes : Nat) : BlitPlan where
  operation := some .srcCopy
  sourceAddr := 0
  destAddr
  source := 0
  dest := destAddr.toNat
  sourcePitch := 64
  destPitch := 64
  bytesPerPixel := 4
  alpha := none
  rowPixels := 4
  adjustedHeight := 1
  leftoverBytes
  beta := 0

theorem imageBlit_writes_iff_tile :
    (tileBlit 0x3FB0).WritesExact 4 0x3FB0 none .srcCopy ∧
      (tilePlan 0x3FB0 16).writes =
        ((tileBlit 0x3FB0).destStart 4 0x3FB0 + ·) '' ((tileBlit 0x3FB0).destRect 4 0x3FB0).bytes := by
  have hexact : (tileBlit 0x3FB0).WritesExact 4 0x3FB0 none .srcCopy := by decide +kernel
  have hplan : (tileBlit 0x3FB0).plan = .ok (tilePlan 0x3FB0 16) := by decide +kernel
  have hdma : nvDmaMap plainRamin 0x04000000 0 = some (0, 0x07FFFFFF) := by decide +kernel
  have hiff := (BlitInputs.imageBlit_writes_iff hplan rfl hdma rfl (by decide)).2
  exact ⟨hexact, hiff.mpr hexact⟩

/-- The tile ends after the second row of the rectangle ends and before the third begins. Sixteen bytes
after the second row are overwritten. -/
theorem imageBlit_writes_gap :
    ∃ m m' : Nat → Byte, (tileBlit 0x3FA0).plan = .ok (tilePlan 0x3FA0 32) ∧
      (tilePlan 0x3FA0 32).perform m = .ok m' ∧ m 0x3FF0 = 0 ∧ m' 0x3FF0 = 1 ∧
      0x3FF0 ∈ (tilePlan 0x3FA0 32).writes ∧
      0x3FF0 ∉ ((tileBlit 0x3FA0).destStart 4 0x3FA0 + ·) '' ((tileBlit 0x3FA0).destRect 4 0x3FA0).bytes ∧
      ¬ (tileBlit 0x3FA0).WritesExact 4 0x3FA0 none .srcCopy := by
  refine ⟨fun a => if a < 0x3FA0 then 1 else 0, _, by decide +kernel, rfl, by decide, by decide +kernel,
    ?_, ?_, by decide +kernel⟩
  · exact .inr ⟨0, List.mem_range.mpr (by decide), by decide, by decide⟩
  · have hstart : (tileBlit 0x3FA0).destStart 4 0x3FA0 = 0x3FA0 := by decide
    rintro ⟨k, ⟨y, x, hy, hx, -, rfl⟩, hk⟩
    have hx' : x < 16 := hx
    have hk' : (tileBlit 0x3FA0).destStart 4 0x3FA0 + (y * 64 + x) = 0x3FF0 := hk
    omega

end XogMobile.Nv2a.Vk
