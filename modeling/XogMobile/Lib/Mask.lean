import Mathlib.Data.BitVec

/-!
# Fields of a register

A field is given by its mask. `getMask` reads it and `setMask` writes it, dropping what does not fit,
as the `GET_MASK` and `SET_MASK` macros do. A field that was written reads back what was written,
cut to the field, and other fields are not touched.
-/

namespace XogMobile.Lib

open BitVec Nat

variable {w : Nat}

def getMask (v mask : BitVec w) : BitVec w := (v &&& mask) >>> mask.ctz.toNat

def setMask (v mask val : BitVec w) : BitVec w :=
  (v &&& ~~~mask) ||| ((val <<< mask.ctz.toNat) &&& mask)

theorem getMask_toNat_le (v mask : BitVec w) : (getMask v mask).toNat ≤ (mask >>> mask.ctz.toNat).toNat := by
  rw [getMask, toNat_ushiftRight, toNat_ushiftRight, toNat_and, shiftRight_eq_div_pow, shiftRight_eq_div_pow]
  exact Nat.div_le_div_right and_le_right

theorem getMask_setMask (v mask val : BitVec w) :
    getMask (setMask v mask val) mask = val &&& (mask >>> mask.ctz.toNat) := by
  ext i hi
  simp only [getMask, setMask, getElem_ushiftRight, getElem_and,
    getLsbD_and, getLsbD_or, getLsbD_not, getLsbD_shiftLeft]
  generalize mask.ctz.toNat = c
  by_cases hlt : c + i < w
  · simp [hlt, getLsbD_eq_getElem hi]
    grind
  · simp [hlt, getLsbD_of_ge mask (c + i) (by omega)]

variable {mask mask' : BitVec w}

theorem getElem_of_disjoint (h : mask &&& mask' = 0) {i : Nat} (hi : i < w) : (mask[i] && mask'[i]) = false := by
  rw [← getElem_and, h]
  exact getElem_zero hi

theorem getMask_setMask_of_disjoint (v val : BitVec w) (h : mask &&& mask' = 0) :
    getMask (setMask v mask val) mask' = getMask v mask' := by
  rw [getMask, getMask]
  congr 1
  ext i hi
  have hi' := getElem_of_disjoint h hi
  simp only [setMask, getElem_and, getElem_or, getElem_not]
  grind

theorem setMask_setMask (v mask val val' : BitVec w) :
    setMask (setMask v mask val) mask val' = setMask v mask val' := by
  ext i hi
  simp only [setMask, getElem_or, getElem_and, getElem_not]
  grind

theorem setMask_comm (v val val' : BitVec w) (h : mask &&& mask' = 0) :
    setMask (setMask v mask val) mask' val' = setMask (setMask v mask' val') mask val := by
  ext i hi
  have hi' := getElem_of_disjoint h hi
  simp only [setMask, getElem_or, getElem_and, getElem_not]
  grind

theorem toNat_and_high (x : BitVec w) (k : Nat) : (x &&& BitVec.allOnes w <<< k).toNat = x.toNat / 2 ^ k * 2 ^ k := by
  have hmask : x &&& allOnes w <<< k = x >>> k <<< k := by
    ext i hi
    by_cases h : i < k
    · simp [h]
    · simp [h, hi, show k + (i - k) = i by omega]
  rw [hmask, toNat_shiftLeft, toNat_ushiftRight, shiftRight_eq_div_pow, Nat.shiftLeft_eq]
  exact mod_eq_of_lt (lt_of_le_of_lt (div_mul_le_self _ _) x.isLt)

end XogMobile.Lib
