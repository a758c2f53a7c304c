import XogMobile.Nv2a.Vk.Blit
import XogMobile.Lib.Rows

/-!
# Clipped rectangles

A rectangle of rows is cut off at a size. Dividing the size by the pitch gives a number of whole rows and
a part of one more row. Two passes over these write the clipped rectangle if no byte of a row is left out
and the part is not longer than a row; passes that leave out every fourth byte write it by coincidence
only.
-/

namespace XogMobile.Nv2a.Vk

open Lib Nat

structure DestRect where
  (height pitch rowBytes size clipped : Nat)

namespace DestRect

variable (r : DestRect)

def bytes : Set Nat :=
  {k | ∃ y x, y < r.height ∧ x < r.rowBytes ∧ y * r.pitch + x < r.clipped ∧ k = y * r.pitch + x}

def wholeRows : Nat := if r.clipped < r.size then r.clipped / r.pitch else r.height

def leftover : Nat := if r.clipped < r.size then r.clipped % r.pitch else 0

def passes (pitch rows : Nat) (row part : Set Nat) : Set Nat :=
  {k | ∃ y x, y < rows ∧ x ∈ row ∧ k = y * pitch + x} ∪ {k | ∃ x ∈ part, k = rows * pitch + x}

/-- When passes that leave no byte out write the rectangle. The part of a row is written in units. -/
def SolidExact (unit : Nat) : Prop :=
  if r.clipped < r.size then
    (r.rowBytes = 0 ∨ r.clipped / r.pitch ≤ r.height) ∧
      r.clipped % r.pitch / unit * unit =
        if r.clipped / r.pitch < r.height then min r.rowBytes (r.clipped % r.pitch) else 0
  else r.rowBytes = 0 ∨ (r.height - 1) * r.pitch + r.rowBytes ≤ r.clipped

/-- When passes that leave out every fourth byte write the rectangle: if there is nothing to write, and
by coincidence for three bytes of a row or for rows of one pixel. -/
def SparseExact (bytesPerPixel : Nat) : Prop :=
  if r.rowBytes = 0 then r.clipped < r.size → r.clipped % r.pitch < bytesPerPixel
  else bytesPerPixel = 2 ∧ r.clipped < r.size ∧
    (r.clipped = 3 ∧ 4 ≤ r.rowBytes ∨ r.pitch = 2 ∧ r.clipped % 2 = 1 ∧ r.clipped / 2 < r.height)

instance (unit : Nat) : Decidable (r.SolidExact unit) :=
  inferInstanceAs (Decidable (if r.clipped < r.size then _ else _))

instance (bytesPerPixel : Nat) : Decidable (r.SparseExact bytesPerPixel) :=
  inferInstanceAs (Decidable (if r.rowBytes = 0 then _ else _))

variable {r : DestRect} {rows left count unit : Nat}

theorem solid_unclipped (hheight : 0 < r.height) : passes r.pitch r.height (Set.Iio r.rowBytes) ∅ = r.bytes ↔
      r.rowBytes = 0 ∨ (r.height - 1) * r.pitch + r.rowBytes ≤ r.clipped := by
  have hlast : r.height - 1 < r.height := by omega
  constructor
  · intro heq
    by_contra hnot
    obtain ⟨hrow, hcut⟩ := not_or.mp hnot
    -- The last byte of the last row.
    have hmem : (r.height - 1) * r.pitch + (r.rowBytes - 1) ∈ r.bytes := by
      rw [← heq]
      exact .inl ⟨r.height - 1, r.rowBytes - 1, hlast, sub_one_lt hrow, rfl⟩
    obtain ⟨y, x, -, -, hlt, hk⟩ := hmem
    omega
  · intro hfits
    ext k
    constructor
    · rintro (⟨y, x, hy, hx, rfl⟩ | ⟨x, hx, -⟩)
      · refine ⟨y, x, hy, hx, ?_, rfl⟩
        have hx' : x < r.rowBytes := hx
        have hle := mul_le_mul_right r.pitch (le_sub_one_of_lt hy)
        omega
      · exact absurd hx (Set.notMem_empty x)
    · rintro ⟨y, x, hy, hx, -, rfl⟩
      exact .inl ⟨y, x, hy, hx, rfl⟩

theorem solid_clipped (hpitch : r.rowBytes ≤ r.pitch) (hleft : left < r.pitch)
    (hclipped : r.clipped = rows * r.pitch + left) (hcount : count ≤ left) :
    passes r.pitch rows (Set.Iio r.rowBytes) (Set.Iio count) = r.bytes ↔ (r.rowBytes = 0 ∨ rows ≤ r.height) ∧
        count = if rows < r.height then min r.rowBytes left else 0 := by
  have hin {y x : Nat} (hx : x < r.pitch) : y * r.pitch + x ∈ r.bytes ↔
      y < r.height ∧ x < r.rowBytes ∧ (y < rows ∨ y = rows ∧ x < left) := by
    constructor
    · rintro ⟨y', x', hy', hx', hlt, heq⟩
      obtain ⟨rfl, rfl⟩ := (row_eq_iff hx (hx'.trans_le hpitch)).mp heq
      rw [hclipped, row_lt_iff hx hleft] at hlt
      exact ⟨hy', hx', hlt⟩
    · rintro ⟨hy, hx', hlt⟩
      refine ⟨y, x, hy, hx', ?_, rfl⟩
      rwa [hclipped, row_lt_iff hx hleft]
  constructor
  · intro heq
    have hpart {x : Nat} (hx : x < r.pitch) : x < count ↔ rows < r.height ∧ x < r.rowBytes ∧ x < left := by
      have hiff := hin (y := rows) hx
      rw [← heq] at hiff
      have hwritten : rows * r.pitch + x ∈ passes r.pitch rows (Set.Iio r.rowBytes) (Set.Iio count) ↔ x < count := by
        constructor
        · rintro (⟨y', x', hy', hx', heq⟩ | ⟨x', hx', heq⟩)
          · obtain ⟨rfl, -⟩ := (row_eq_iff hx (lt_of_lt_of_le hx' hpitch)).mp heq
            omega
          · have hx'' : x' < count := hx'
            omega
        · intro hx'
          exact .inr ⟨x, hx', rfl⟩
      rw [← hwritten, hiff]
      omega
    constructor
    · by_contra hnot
      obtain ⟨hrow, hmore⟩ := not_or.mp hnot
      have hmem : r.height * r.pitch + 0 ∈ r.bytes := by
        rw [← heq]
        exact .inl ⟨r.height, 0, by omega, Nat.pos_of_ne_zero hrow, rfl⟩
      have hself := ((hin (by omega)).mp hmem).1
      omega
    · have hnone := hpart (x := count)
      have hmin := hpart (x := count - 1)
      split <;> omega
  · rintro ⟨hrows, rfl⟩
    ext k
    constructor
    · rintro (⟨y, x, hy, hx, rfl⟩ | ⟨x, hx, rfl⟩)
      · have hx' : x < r.rowBytes := hx
        exact (hin (by omega)).mpr ⟨by omega, hx', .inl hy⟩
      · rw [Set.mem_Iio] at hx
        refine (hin (by omega)).mpr ?_
        split at hx <;> omega
    · rintro ⟨y, x, hy, hx, hlt, rfl⟩
      obtain ⟨-, -, hlt | ⟨rfl, hlt⟩⟩ := (hin (by omega)).mp ⟨y, x, hy, hx, hlt, rfl⟩
      · exact .inl ⟨y, x, hlt, hx, rfl⟩
      · refine .inr ⟨x, ?_, rfl⟩
        rw [if_pos hy, Set.mem_Iio]
        omega

theorem solid_iff (hpitch : r.rowBytes ≤ r.pitch) (hheight : 0 < r.height) :
    passes r.pitch r.wholeRows (Set.Iio r.rowBytes) (Set.Iio (r.leftover / unit * unit)) = r.bytes ↔
      r.SolidExact unit := by
  unfold wholeRows leftover SolidExact
  by_cases hclips : r.clipped < r.size
  · simp only [if_pos hclips]
    have hcount : r.clipped % r.pitch / unit * unit ≤ r.clipped % r.pitch := Nat.div_mul_le_self _ _
    obtain hzero | hpos := Nat.eq_zero_or_pos r.pitch
    · -- There is no row to write, and what is left over is everything.
      have hrow : r.rowBytes = 0 := by omega
      have hbytes : r.bytes = ∅ := by
        ext k
        simp [bytes, hrow]
      rw [hbytes, hzero, hrow, Nat.div_zero, if_pos hheight, Set.eq_empty_iff_forall_notMem]
      constructor
      · intro hnone
        refine ⟨.inl rfl, ?_⟩
        by_contra hne
        exact hnone _ (.inr ⟨0, Nat.pos_of_ne_zero hne, rfl⟩)
      · rintro ⟨-, hnone⟩ k (⟨y, x, hy, -⟩ | ⟨x, hx, -⟩)
        · exact absurd hy (Nat.not_lt_zero y)
        · rw [hnone] at hx
          exact absurd hx (Nat.not_lt_zero x)
    · exact solid_clipped hpitch (Nat.mod_lt _ hpos) (Nat.div_add_mod' _ _).symm hcount
  · have hnone : Set.Iio (0 / unit * unit) = ∅ := by
      rw [Nat.zero_div, Nat.zero_mul, Set.eq_empty_iff_forall_notMem]
      exact fun x hx => absurd hx (Nat.not_lt_zero x)
    simp only [if_neg hclips]
    rw [hnone]
    exact solid_unclipped hheight

def blended (pixels : Nat) : Set Nat := {k | k ∈ blendBytes pixels}

theorem mem_blended {pixels k : Nat} : k ∈ blended pixels ↔ k % 4 ≠ 3 ∧ k / 4 < pixels := by
  simp only [blended, blendBytes, List.mem_flatMap, List.mem_map, List.mem_range]
  constructor
  · rintro ⟨x, hx, ch, hch, rfl⟩
    omega
  · rintro ⟨hch, hx⟩
    exact ⟨k / 4, hx, k % 4, by omega, by omega⟩

theorem fourth_notMem_passes {pitch pixels pixels' : Nat} (hpitch : 4 ≤ pitch) :
    3 ∉ passes pitch rows (blended pixels) (blended pixels') := by
  have hrow {y x : Nat} (hx : x % 4 ≠ 3) : 3 ≠ y * pitch + x := by
    intro heq
    cases y with
    | zero => omega
    | succ y =>
      rw [succ_mul] at heq
      omega
  rintro (⟨y, x, -, hx, heq⟩ | ⟨x, hx, heq⟩)
  · exact hrow (mem_blended.mp hx).1 heq
  · exact hrow (mem_blended.mp hx).1 heq

theorem beyond_mem_blended {pixels : Nat} (hpixels : 0 < pixels) : 4 * pixels - 2 ∈ blended pixels := by
  rw [mem_blended]
  omega

variable {pixels bytesPerPixel : Nat}

theorem sparse_unclipped (hrow : r.rowBytes = pixels * bytesPerPixel) (hpixels : 0 < pixels)
    (hbpp : bytesPerPixel = 1 ∨ bytesPerPixel = 2 ∨ bytesPerPixel = 4)
    (hpitch : r.rowBytes ≤ r.pitch) (hheight : 0 < r.height)
    (hthree : bytesPerPixel = 4 → r.height = 1 → r.clipped ≠ 3) :
    passes r.pitch r.height (blended pixels) ∅ ≠ r.bytes := by
  intro heq
  have hlast : r.height - 1 < r.height := by omega
  -- The last byte that is written.
  have hmem : (r.height - 1) * r.pitch + (4 * pixels - 2) ∈ r.bytes := by
    rw [← heq]
    exact .inl ⟨r.height - 1, 4 * pixels - 2, hlast, beyond_mem_blended hpixels, rfl⟩
  obtain ⟨y, x, hy, hx, hlt, hk⟩ := hmem
  rw [← hk] at hlt
  have hle := mul_le_mul_right r.pitch (le_sub_one_of_lt hy)
  obtain rfl | rfl | rfl := hbpp
  · omega
  · omega
  · have hempty : blended 0 = ∅ := by
      ext k
      simp [mem_blended]
    have hfourth : 3 ∉ passes r.pitch r.height (blended pixels) (blended 0) := fourth_notMem_passes (by omega)
    rw [hempty, heq] at hfourth
    apply hfourth
    refine ⟨0, 3, hheight, by omega, ?_, by omega⟩
    obtain hone | hmore : r.height - 1 = 0 ∨ 1 ≤ r.height - 1 := by omega
    · omega
    · have hmul := mul_le_mul_right r.pitch hmore
      omega

theorem sparse_clipped_empty (hrow : r.rowBytes = 0) (hbpp : 0 < bytesPerPixel) :
    passes r.pitch rows (blended 0) (blended (left / bytesPerPixel)) = r.bytes ↔ left < bytesPerPixel := by
  have hbytes : r.bytes = ∅ := by
    ext k
    simp [bytes, hrow]
  rw [hbytes, Set.eq_empty_iff_forall_notMem]
  constructor
  · intro hnone
    by_contra hle
    have hpos : 0 < left / bytesPerPixel := div_pos (by omega) hbpp
    exact hnone _ (.inr ⟨0, mem_blended.mpr ⟨by decide, hpos⟩, rfl⟩)
  · rintro hlt k (⟨y, x, -, hx, -⟩ | ⟨x, hx, -⟩)
    · exact absurd (mem_blended.mp hx).2 (not_lt_zero _)
    · rw [div_eq_of_lt hlt] at hx
      exact absurd (mem_blended.mp hx).2 (not_lt_zero _)

theorem sparse_clipped_last (hclipped : r.clipped = rows * r.pitch + left)
    (hpixels : 0 < pixels) (hrow : r.rowBytes ≤ 4 * pixels - 2) (hrows : 0 < rows)
    (heq : passes r.pitch rows (blended pixels) (blended (left / bytesPerPixel)) = r.bytes) :
    r.pitch ≤ 4 * pixels - 2 ∧ 4 * pixels - 2 < r.pitch + left := by
  have hmem : (rows - 1) * r.pitch + (4 * pixels - 2) ∈ r.bytes := by
    rw [← heq]
    exact .inl ⟨rows - 1, 4 * pixels - 2, by omega, beyond_mem_blended hpixels, rfl⟩
  obtain ⟨y, x, -, hx, hlt, hk⟩ := hmem
  have hnext : (rows - 1) * r.pitch + r.pitch = rows * r.pitch := by
    rw [← succ_mul, succ_eq_add_one, Nat.sub_add_cancel hrows]
  constructor
  · by_contra hin
    have hsame := ((row_eq_iff (by omega) (by omega)).mp hk).2
    omega
  · omega

theorem sparse_clipped_part (hclipped : r.clipped = rows * r.pitch + left) (hpart : 0 < left / bytesPerPixel)
    (heq : passes r.pitch rows (blended pixels) (blended (left / bytesPerPixel)) = r.bytes) :
    4 * (left / bytesPerPixel) - 2 < left := by
  have hmem : rows * r.pitch + (4 * (left / bytesPerPixel) - 2) ∈ r.bytes := by
    rw [← heq]
    exact .inr ⟨_, beyond_mem_blended hpart, rfl⟩
  obtain ⟨y, x, -, -, hlt, hk⟩ := hmem
  omega

theorem sparse_clipped_fourth (hpitch : r.rowBytes ≤ r.pitch) (hheight : 0 < r.height) (hrow : 4 ≤ r.rowBytes)
    (heq : passes r.pitch rows (blended pixels) (blended (left / bytesPerPixel)) = r.bytes) :
    r.clipped ≤ 3 := by
  by_contra hlt
  have hfourth : 3 ∉ passes r.pitch rows (blended pixels) (blended (left / bytesPerPixel)) :=
    fourth_notMem_passes (by omega)
  rw [heq] at hfourth
  exact hfourth ⟨0, 3, hheight, by omega, by omega, by omega⟩

section

variable (hclipped : r.clipped = rows * r.pitch + left) (hleft : left < r.pitch)
  (hpitch : r.rowBytes ≤ r.pitch) (hheight : 0 < r.height) (hpixels : 0 < pixels)
  (htwo : 2 ≤ r.clipped)

include hclipped hpixels htwo in
theorem sparse_clipped_one (hrow : r.rowBytes = pixels) :
    passes r.pitch rows (blended pixels) (blended (left / 1)) ≠ r.bytes := by
  intro heq
  obtain rfl : left = 0 := by
    by_contra hne
    have hpart := sparse_clipped_part hclipped (by omega) heq
    omega
  have hrows : 0 < rows := by
    by_contra hzero
    obtain rfl : rows = 0 := by omega
    omega
  have hlast := sparse_clipped_last hclipped hpixels (by omega) hrows heq
  omega

include hclipped hpitch hheight hpixels htwo in
theorem sparse_clipped_four (hrow : r.rowBytes = pixels * 4) :
    passes r.pitch rows (blended pixels) (blended (left / 4)) ≠ r.bytes := by
  intro heq
  have hle := sparse_clipped_fourth hpitch hheight (by omega) heq
  obtain rfl : rows = 0 := by
    by_contra hne
    have hend : 0 * r.pitch + r.pitch ≤ rows * r.pitch := row_end_le (by omega)
    omega
  have hmem : 0 ∈ r.bytes := ⟨0, 0, hheight, by omega, by omega, by omega⟩
  rw [← heq] at hmem
  obtain ⟨y, -, hy, -⟩ | ⟨x, hx, -⟩ := hmem
  · exact absurd hy (not_lt_zero y)
  · have hx' := (mem_blended.mp hx).2
    omega

include hclipped hleft hpitch hheight hpixels htwo in
theorem sparse_clipped_two (hrow : r.rowBytes = pixels * 2) :
    passes r.pitch rows (blended pixels) (blended (left / 2)) = r.bytes ↔
      r.clipped = 3 ∧ 4 ≤ r.rowBytes ∨ r.pitch = 2 ∧ r.clipped % 2 = 1 ∧ r.clipped / 2 < r.height := by
  constructor
  · intro heq
    by_cases hpart : 0 < left / 2
    · -- The part of a row is one pixel and a byte, and it has to be in the rectangle.
      have hend := sparse_clipped_part hclipped hpart heq
      have hmem : rows * r.pitch + 2 ∈ r.bytes := by
        rw [← heq]
        exact .inr ⟨2, mem_blended.mpr ⟨by decide, by omega⟩, rfl⟩
      obtain ⟨y, x, -, hx, -, hk⟩ := hmem
      have hsame := ((row_eq_iff (by omega) (by omega)).mp hk).2
      have hle := sparse_clipped_fourth hpitch hheight (by omega) heq
      omega
    · -- The last byte of the last whole row is the only one of the next row.
      have hrows : 0 < rows := by
        by_contra hzero
        obtain rfl : rows = 0 := by omega
        omega
      have hlast := sparse_clipped_last hclipped hpixels (by omega) hrows heq
      have hend : 0 * r.pitch + r.pitch ≤ rows * r.pitch := row_end_le hrows
      have hone : pixels = 1 := by
        by_contra hne
        have hle := sparse_clipped_fourth hpitch hheight (by omega) heq
        omega
      have htwo : r.pitch = 2 := by omega
      rw [htwo] at hclipped
      have hmem : (rows - 1) * r.pitch + 2 ∈ r.bytes := by
        rw [← heq]
        exact .inl ⟨rows - 1, 2, by omega, mem_blended.mpr ⟨by decide, by omega⟩, rfl⟩
      obtain ⟨y, x, hy, hx, -, hk⟩ := hmem
      rw [htwo] at hk
      omega
  · rintro (⟨hthree, hfour⟩ | ⟨htwo', hodd, hlt⟩)
    · obtain rfl : rows = 0 := by
        by_contra hne
        have hend : 0 * r.pitch + r.pitch ≤ rows * r.pitch := row_end_le (by omega)
        omega
      obtain rfl : left = 3 := by omega
      ext k
      constructor
      · rintro (⟨y, -, hy, -⟩ | ⟨x, hx, rfl⟩)
        · exact absurd hy (not_lt_zero y)
        · obtain ⟨hx, hx'⟩ := mem_blended.mp hx
          exact ⟨0, x, hheight, by omega, by omega, rfl⟩
      · rintro ⟨y, x, -, -, hlt, rfl⟩
        refine .inr ⟨y * r.pitch + x, mem_blended.mpr ⟨by omega, by omega⟩, by omega⟩
    · rw [htwo'] at hclipped hpitch hleft
      obtain rfl : pixels = 1 := by omega
      obtain rfl : left = 1 := by omega
      ext k
      constructor
      · rintro (⟨y, x, hy, hx, rfl⟩ | ⟨x, hx, -⟩)
        · obtain ⟨hx, hx'⟩ := mem_blended.mp hx
          rw [htwo']
          refine ⟨(y * 2 + x) / 2, (y * 2 + x) % 2, by omega, by omega, ?_, ?_⟩
          all_goals rw [htwo']; omega
        · have hx' := (mem_blended.mp hx).2
          omega
      · rintro ⟨y, x, -, hx, hlt, rfl⟩
        rw [htwo'] at hlt ⊢
        by_cases hy : y < rows
        · exact .inl ⟨y, x, hy, mem_blended.mpr ⟨by omega, by omega⟩, rfl⟩
        · exact .inl ⟨rows - 1, 2, by omega, mem_blended.mpr ⟨by decide, by omega⟩, by omega⟩

end

theorem sparse_iff (hrow : r.rowBytes = pixels * bytesPerPixel)
    (hbpp : bytesPerPixel = 1 ∨ bytesPerPixel = 2 ∨ bytesPerPixel = 4)
    (hpitch : r.rowBytes ≤ r.pitch) (hheight : 0 < r.height)
    (htwo : r.clipped < r.size → 2 ≤ r.clipped)
    (hthree : bytesPerPixel = 4 → r.height = 1 → r.clipped ≠ 3 ∨ r.clipped < r.size) :
    passes r.pitch r.wholeRows (blended pixels) (blended (r.leftover / bytesPerPixel)) = r.bytes ↔
      r.SparseExact bytesPerPixel := by
  have hpos : 0 < bytesPerPixel := by omega
  unfold SparseExact
  obtain rfl | hpixels := Nat.eq_zero_or_pos pixels
  · rw [Nat.zero_mul] at hrow
    rw [sparse_clipped_empty hrow hpos]
    unfold leftover
    split
    · next hclips => exact ⟨fun hlt _ => hlt, fun hlt => hlt hclips⟩
    · next hclips => exact ⟨fun _ hclips' => absurd hclips' hclips, fun _ => hpos⟩
  · have hne : r.rowBytes ≠ 0 := by
      rw [hrow]
      exact (Nat.mul_pos hpixels hpos).ne'
    rw [if_neg hne]
    unfold wholeRows leftover
    by_cases hclips : r.clipped < r.size
    · simp only [if_pos hclips]
      have hleft := Nat.mod_lt r.clipped (show r.pitch > 0 by omega)
      have hclipped : r.clipped = r.clipped / r.pitch * r.pitch + r.clipped % r.pitch := (Nat.div_add_mod' _ _).symm
      obtain rfl | rfl | rfl := hbpp
      · have hbytes := sparse_clipped_one hclipped hpixels (htwo hclips) (by omega)
        exact iff_of_false hbytes (by omega)
      · rw [sparse_clipped_two hclipped hleft hpitch hheight hpixels (htwo hclips) hrow]
        exact ⟨fun h => ⟨rfl, hclips, h⟩, fun h => h.2.2⟩
      · have hbytes := sparse_clipped_four hclipped hpitch hheight hpixels (htwo hclips) hrow
        exact iff_of_false hbytes (by omega)
    · have hnone : blended (0 / bytesPerPixel) = ∅ := by
        ext k
        simp [mem_blended]
      simp only [if_neg hclips]
      rw [hnone]
      refine iff_of_false ?_ fun h => hclips h.2.1
      exact sparse_unclipped hrow hpixels hbpp hpitch hheight fun hfour hone => (hthree hfour hone).resolve_right hclips

end DestRect

end XogMobile.Nv2a.Vk
