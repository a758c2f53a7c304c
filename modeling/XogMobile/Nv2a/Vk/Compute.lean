import Mathlib.Algebra.Group.Nat.Defs
import Mathlib.Order.Bounds.Basic
import Mathlib.Tactic.Common

/-!
# Work groups of the depth and stencil kernels

`get_workgroup_size_for_output_units` halves a group size until it divides the number of outputs. A
size above the limit of the device is passed over without being halved.
-/

namespace XogMobile.Nv2a.Vk.Compute

/-- The loop, with the limit of the device in `maxComputeWorkGroupSize`. -/
def workgroupLoop (limit outputUnits : Nat) : Nat → Nat → Option Nat
  | 0, _ => none
  | fuel + 1, groupSize =>
    if 1 < groupSize then
      if limit < groupSize then workgroupLoop limit outputUnits fuel groupSize
      else if outputUnits % groupSize = 0 then some groupSize
      else workgroupLoop limit outputUnits fuel (groupSize / 2)
    else some groupSize

def getWorkgroupSizeForOutputUnits (limit outputUnits fuel : Nat) : Option Nat :=
  workgroupLoop limit outputUnits fuel 1024

section

variable {limit outputUnits : Nat}

theorem workgroupLoop_stays {g : Nat} (hg : 1 < g) (hlimit : limit < g) (fuel : Nat) :
    workgroupLoop limit outputUnits fuel g = none := by
  induction fuel with
  | zero => rfl
  | succ fuel ih => rw [workgroupLoop, if_pos hg, if_pos hlimit, ih]

/-- From `2 ^ k` on, where the larger powers do not divide, the loop finds the largest that does. -/
theorem workgroupLoop_greatest {n k : Nat} (hlimit : 2 ^ n ≤ limit) (hk : k ≤ n)
    (hlarger : ∀ j ≤ n, 2 ^ j ∣ outputUnits → j ≤ k) :
    ∃ j ≤ n, workgroupLoop limit outputUnits (k + 1) (2 ^ k) = some (2 ^ j) ∧
      2 ^ j ∣ outputUnits ∧ ∀ i ≤ n, 2 ^ i ∣ outputUnits → i ≤ j := by
  induction k with
  | zero => exact ⟨0, hk, rfl, Nat.one_dvd _, hlarger⟩
  | succ k ih =>
    have hle : 2 ^ (k + 1) ≤ limit := (Nat.pow_le_pow_right Nat.two_pos hk).trans hlimit
    rw [workgroupLoop, if_pos (Nat.one_lt_two_pow (by omega)), if_neg (by omega)]
    by_cases hdvd : 2 ^ (k + 1) ∣ outputUnits
    · exact ⟨k + 1, hk, if_pos (Nat.mod_eq_zero_of_dvd hdvd), hdvd, hlarger⟩
    · rw [if_neg fun h => hdvd (Nat.dvd_of_mod_eq_zero h), Nat.pow_succ, Nat.mul_div_cancel _ Nat.two_pos]
      refine ih (by omega) fun j hj hdvd' => ?_
      have hne : j ≠ k + 1 := fun h => hdvd (h ▸ hdvd')
      have := hlarger j hj hdvd'
      omega

end

/-- The search ends, with the largest power of two that is no more than 1024 and the limit and divides
the number of outputs, if the limit is no less than where it starts. -/
theorem getWorkgroupSizeForOutputUnits_iff (limit outputUnits : Nat) :
    (∃ fuel g, getWorkgroupSizeForOutputUnits limit outputUnits fuel = some g ∧
      IsGreatest {p | (∃ k, p = 2 ^ k) ∧ p ≤ 1024 ∧ p ≤ limit ∧ p ∣ outputUnits} g) ↔
      1024 ≤ limit := by
  constructor
  · rintro ⟨fuel, g, hg, -⟩
    by_contra! hlt
    cases hg.symm.trans (workgroupLoop_stays (by decide) hlt fuel)
  · intro hlimit
    obtain ⟨j, hj, hloop, hdvd, hmax⟩ :=
      workgroupLoop_greatest (n := 10) (k := 10) hlimit le_rfl fun _ hj _ => hj
    have hle : ∀ {i}, i ≤ 10 → 2 ^ i ≤ 1024 := Nat.pow_le_pow_right Nat.two_pos
    refine ⟨11, 2 ^ j, hloop, ⟨⟨j, rfl⟩, hle hj, (hle hj).trans hlimit, hdvd⟩, ?_⟩
    rintro _ ⟨⟨i, rfl⟩, hi, -, hdvd'⟩
    have hi' : i ≤ 10 := (Nat.pow_le_pow_iff_right (by decide)).mp hi
    exact Nat.pow_le_pow_right Nat.two_pos (hmax i hi' hdvd')

/-- With a limit of 512 the search for 64 by 64 outputs does not end. -/
theorem workgroup_search_hangs :
    ¬ ∃ fuel size, getWorkgroupSizeForOutputUnits 512 4096 fuel = some size := by
  rintro ⟨fuel, size, h⟩
  rw [getWorkgroupSizeForOutputUnits, workgroupLoop_stays (by decide) (by decide)] at h
  cases h

end XogMobile.Nv2a.Vk.Compute
