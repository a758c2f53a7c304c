import Mathlib.Tactic.Common

/-!
# Rows of a fixed pitch

An array of rows is laid out with the same distance between the starts of two rows. A place in it is a row
and an offset in the row that is below the pitch; places are ordered row by row.
-/

namespace XogMobile.Lib

variable {pitch x x' y y' : Nat}

theorem row_end_le (hy : y < y') : y * pitch + pitch ≤ y' * pitch := by
  have hmul := Nat.mul_le_mul_right pitch (Nat.succ_le_of_lt hy)
  rwa [Nat.succ_mul] at hmul

theorem row_lt_iff (hx : x < pitch) (hx' : x' < pitch) :
    y * pitch + x < y' * pitch + x' ↔ y < y' ∨ y = y' ∧ x < x' := by
  constructor
  · intro hlt
    by_contra hne
    obtain rfl | hgt : y = y' ∨ y' < y := by omega
    · omega
    · have hend : y' * pitch + pitch ≤ y * pitch := row_end_le hgt
      omega
  · rintro (hlt | ⟨rfl, hlt⟩)
    · have hend : y * pitch + pitch ≤ y' * pitch := row_end_le hlt
      omega
    · omega

theorem row_eq_iff (hx : x < pitch) (hx' : x' < pitch) : y * pitch + x = y' * pitch + x' ↔ y = y' ∧ x = x' := by
  constructor
  · intro heq
    have hnot := (row_lt_iff hx hx').not.mp (Nat.not_lt.mpr (Nat.le_of_eq heq.symm))
    have hnot' := (row_lt_iff hx' hx).not.mp (Nat.not_lt.mpr (Nat.le_of_eq heq))
    obtain rfl : y = y' := by omega
    omega
  · rintro ⟨rfl, rfl⟩
    rfl

end XogMobile.Lib
