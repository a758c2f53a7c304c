import Mathlib.Algebra.Group.Nat.Defs

/-!
# Rounding up to an alignment
-/

namespace XogMobile.Lib

/-- The least multiple of `d` from `n` on. -/
def alignUp (n d : Nat) : Nat := (n + d - 1) / d * d

variable {n d : Nat}

theorem le_alignUp (hd : 0 < d) : n ≤ alignUp n d := by
  have hmod := Nat.div_add_mod (n + d - 1) d
  have hlt := Nat.mod_lt (n + d - 1) hd
  rw [alignUp, Nat.mul_comm]
  omega

@[simp] theorem alignUp_zero (hd : 0 < d) : alignUp 0 d = 0 := by
  rw [alignUp, Nat.zero_add, Nat.div_eq_of_lt (by omega), Nat.zero_mul]

@[simp] theorem alignUp_one : alignUp n 1 = n := by
  rw [alignUp, Nat.add_sub_cancel, Nat.div_one, Nat.mul_one]

end XogMobile.Lib
