import XogMobile.Apu.Dsp.Alu
import Mathlib.Tactic.LinearCombination

/-!
# Division on the accumulators

`emu_div` does one step of a division that does not restore: the remainder is doubled, and the divisor
is subtracted from it, or added while it is negative. Its sign is the next bit of the quotient, which
comes in from below with the step after.
-/

namespace XogMobile.Apu.Dsp.Alu

open Function

def divSource (curInst : BitVec 24) (dsp : Core) : BitVec 24 :=
  let (x1, x0) := dsp.input (if curInst.getLsbD 4 then .y else .x)
  if curInst.getLsbD 5 then x1 else x0

def divDest (curInst : BitVec 24) : AccuReg := if curInst.getLsbD 3 then .b else .a

/-- The remainder is doubled and the divisor brings it towards zero. -/
def divRemainder (s : BitVec 24) (d : Accu) : Accu × NewSr :=
  let source : Accu := ⟨if s.msb then 0xff else 0, s, 0⟩
  let dest := dspAsl56 d 1
  ((if d.reg0.msb ^^ s.msb then dspAdd56 source dest.1 else dspSub56 source dest.1).1, dest.2)

def Accu.orBit (d : Accu) (c : Bool) : Accu := { d with reg2 := d.reg2 ||| if c then 1 else 0 }

def emuDiv (curInst : BitVec 24) (dsp : Core) : Core :=
  let step := divRemainder (divSource curInst dsp) (dsp.accu (divDest curInst))
  let dest := step.1.orBit dsp.sr.c
  { dsp with
    accu := update dsp.accu (divDest curInst) dest
    sr := { dsp.sr with c := !dest.reg0.msb, l := dsp.sr.l || step.2.l, v := step.2.v } }

theorem toInt_orBit {d : Accu} (c : Bool) (heven : d.bits.toNat % 2 = 0) :
    (d.orBit c).bits.toInt = d.bits.toInt + c.toNat := by
  have hreg : (d.reg2 ||| if c then 1 else 0).toNat = d.reg2.toNat + c.toNat := by
    rw [Accu.toNat_bits] at heven
    cases c
    · simp
    · rw [if_pos rfl, BitVec.toNat_or]
      show d.reg2.toNat ||| 1 = d.reg2.toNat + 1
      rw [show d.reg2.toNat = 2 ^ 1 * (d.reg2.toNat / 2) by omega, Nat.two_pow_add_eq_or_of_lt (by decide)]
  have hc := c.toNat_le
  rw [Accu.toNat_bits] at heven
  rw [toInt_eq, toInt_eq, Accu.toNat_bits, Accu.toNat_bits]
  simp only [Accu.orBit, hreg]
  omega

theorem toInt_divRemainder {s : BitVec 24} {d : Accu} (hs : s.toNat < 2 ^ 23)
    (hd : -2 ^ 47 ≤ d.bits.toInt ∧ d.bits.toInt < 2 ^ 47) : (divRemainder s d).1.bits.toInt =
      2 * d.bits.toInt + (if d.bits.toInt < 0 then 1 else -1) * (s.toNat * 2 ^ 24) := by
  have hmsb : s.msb = false := BitVec.msb_eq_false_iff_two_mul_lt.mpr (by omega)
  have hsource : (⟨if s.msb then 0xff else 0, s, 0⟩ : Accu).bits.toNat = s.toNat * 2 ^ 24 := by
    simp [Accu.toNat_bits, hmsb]
  have hdest : (dspAsl56 d 1).1.bits.toNat = 2 * d.bits.toNat % 2 ^ 56 := by
    rw [dspAsl56_bits, BitVec.toNat_shiftLeft, Nat.shiftLeft_eq, pow_one, Nat.mul_comm]
  have hadd : (d.reg0.msb ^^ s.msb) = decide (d.bits.toInt < 0) := by
    rw [hmsb, Bool.xor_false, ← Accu.msb_bits, BitVec.msb_eq_toInt]
  have hx := toInt_eq d.bits
  simp only [divRemainder, hadd, decide_eq_true_eq]
  split
  · rw [dspAdd56_bits, toInt_eq, BitVec.toNat_add, hsource, hdest]
    omega
  · rw [dspSub56_bits, toInt_eq, BitVec.toNat_sub, hsource, hdest]
    omega

theorem emuDiv_step (curInst : BitVec 24) (dsp : Core) {s : Nat} {x : Int}
    (hs : (divSource curInst dsp).toNat = s) (hx : (dsp.accu (divDest curInst)).bits.toInt = x)
    (hlt : s < 2 ^ 23) (hbound : -2 ^ 47 ≤ x ∧ x < 2 ^ 47) :
    let after := emuDiv curInst dsp
    let y := 2 * x + (if x < 0 then 1 else -1) * (s * 2 ^ 24) + dsp.sr.c.toNat
    (after.accu (divDest curInst)).bits.toInt = y ∧ after.sr.c = !decide (y < 0) ∧
      divSource curInst after = divSource curInst dsp := by
  intro after y
  subst hs hx
  have hstep := toInt_divRemainder hlt hbound
  have heven : (divRemainder (divSource curInst dsp)
      (dsp.accu (divDest curInst))).1.bits.toNat % 2 = 0 := by
    rw [toInt_eq] at hstep
    split at hstep <;> omega
  have hafter : after.accu (divDest curInst) =
      (divRemainder (divSource curInst dsp) (dsp.accu (divDest curInst))).1.orBit dsp.sr.c :=
    update_self ..
  have hy : (after.accu (divDest curInst)).bits.toInt = y := by
    rw [hafter, toInt_orBit _ heven, hstep]
  refine ⟨hy, ?_, rfl⟩
  have hsign : after.sr.c = !(after.accu (divDest curInst)).bits.msb := by
    rw [hafter, Accu.msb_bits]
    rfl
  rw [hsign, BitVec.msb_eq_toInt, hy]

theorem pow_mul_add_neg_iff {k q : Nat} {u : Int} (hq : q < 2 ^ k) : 2 ^ k * u + q < 0 ↔ u < 0 := by
  have hq' : (q : Int) < 2 ^ k := by exact_mod_cast hq
  constructor
  · intro h
    by_contra hu
    have : (0 : Int) ≤ 2 ^ k * u := mul_nonneg (by positivity) (by omega)
    omega
  · intro hu
    have : (2 : Int) ^ k * u ≤ 2 ^ k * -1 := mul_le_mul_of_nonneg_left (by omega) (by positivity)
    omega

/-- After `k` of the steps, with `j` to come, the bits `q` of the quotient stand below the remainder
`u`, and the carry is the bit that comes next. -/
def DivInv (s : Nat) (d : Int) (k j : Nat) (x : Int) (c : Bool) : Prop :=
  ∃ (u : Int) (q : Nat), x = 2 ^ k * u + q ∧ q < 2 ^ k ∧ -(s * 2 ^ j) ≤ u ∧ u < s * 2 ^ j ∧
    d = u + s * 2 ^ j * (2 * q + 1) ∧ c = !decide (u < 0)

theorem DivInv.step {s k j : Nat} {d x : Int} {c : Bool} (h : DivInv s d k (j + 1) x c) :
    let y := 2 * x + (if x < 0 then 1 else -1) * (s * 2 ^ (k + (j + 1))) + c.toNat
    DivInv s d (k + 1) j y (!decide (y < 0)) := by
  obtain ⟨u, q, rfl, hq, hlow, hhigh, rfl, hc⟩ := h
  intro y
  have hsign : (if 2 ^ k * u + q < 0 then 1 else -1) = 1 - 2 * (c.toNat : Int) := by
    simp only [hc, pow_mul_add_neg_iff hq]
    by_cases hu : u < 0 <;> simp [hu]
  have hq' : 2 * q + c.toNat < 2 ^ (k + 1) := by
    have := c.toNat_le
    omega
  have hy : y = 2 ^ (k + 1) * (u + (1 - 2 * c.toNat) * (s * 2 ^ j)) + (2 * q + c.toNat : Nat) := by
    simp only [y, hsign]
    push_cast
    ring
  rw [pow_succ, ← mul_assoc] at hlow hhigh
  refine ⟨_, _, hy, hq', ?_, ?_, ?_, ?_⟩
  · cases c <;> simp_all
    omega
  · cases c <;> simp_all
    omega
  · push_cast
    ring
  · simp only [hy, pow_mul_add_neg_iff hq']

theorem DivInv.bound {s k j : Nat} {d x : Int} {c : Bool} (h : DivInv s d k j x c) :
    -(s * 2 ^ (k + j)) ≤ x ∧ x < s * 2 ^ (k + j) := by
  obtain ⟨u, q, rfl, hq, hlow, hhigh, -, -⟩ := h
  have hq' : (q : Int) < 2 ^ k := by exact_mod_cast hq
  have hk : (0 : Int) ≤ 2 ^ k := by positivity
  have hlow' := mul_le_mul_of_nonneg_left hlow hk
  have hhigh' := mul_le_mul_of_nonneg_left (Int.add_one_le_of_lt hhigh) hk
  rw [mul_neg] at hlow'
  rw [mul_add_one] at hhigh'
  rw [pow_add, ← mul_assoc, mul_comm (s : Int), mul_assoc]
  omega

theorem emuDiv_inv {curInst : BitVec 24} {dsp : Core} {s : Nat} {d : Int} (hlt : s < 2 ^ 23)
    (hs : (divSource curInst dsp).toNat = s) {k j : Nat} (hkj : k + j = 24)
    (h : DivInv s d k j (dsp.accu (divDest curInst)).bits.toInt dsp.sr.c) :
    let after := (emuDiv curInst)^[j] dsp
    DivInv s d 24 0 (after.accu (divDest curInst)).bits.toInt after.sr.c := by
  induction j generalizing k dsp with
  | zero => exact hkj ▸ h
  | succ j ih =>
    have hbound := h.bound
    rw [hkj] at hbound
    obtain ⟨hx, hc, hsource⟩ := emuDiv_step curInst dsp hs rfl hlt (by omega)
    refine @ih (emuDiv curInst dsp) (hsource ▸ hs) (k + 1) (by omega) ?_
    rw [hx, hc, ← hkj]
    exact h.step

/-- Twenty-four times `DIV` on a positive dividend leaves the quotient in the low word. -/
theorem emuDiv_quotient (curInst : BitVec 24) (dsp : Core)
    (hpos : 0 < (divSource curInst dsp).toNat) (hlt : (divSource curInst dsp).toNat < 2 ^ 23)
    (hnonneg : 0 ≤ (dsp.accu (divDest curInst)).bits.toInt)
    (hd : (dsp.accu (divDest curInst)).bits.toInt < (divSource curInst dsp).toNat * 2 ^ 24)
    (hc : dsp.sr.c = false) :
    ((((emuDiv curInst)^[24] dsp).accu (divDest curInst)).reg2.toNat : Int) =
      (dsp.accu (divDest curInst)).bits.toInt / (2 * (divSource curInst dsp).toNat) := by
  obtain ⟨hx, hc', hsource⟩ := emuDiv_step curInst dsp rfl rfl hlt (by omega)
  generalize hs : (divSource curInst dsp).toNat = s at *
  generalize (dsp.accu (divDest curInst)).bits.toInt = d at *
  rw [if_neg (by omega), hc] at hx hc'
  have hfirst : DivInv s d 1 23 ((emuDiv curInst dsp).accu (divDest curInst)).bits.toInt
      (emuDiv curInst dsp).sr.c := by
    refine ⟨d - s * 2 ^ 23, 0, ?_, by decide, by omega, by omega, by ring, ?_⟩
    · rw [hx]
      simp
      omega
    · rw [hc']
      simp
      omega
  obtain ⟨u, q, hend, hq, hlow, hhigh, rfl, -⟩ := emuDiv_inv hlt (hsource ▸ hs) rfl hfirst
  have hword : (((emuDiv curInst)^[24] dsp).accu (divDest curInst)).reg2.toNat = q := by
    rw [toInt_eq, Accu.toNat_bits] at hend
    rw [iterate_succ_apply]
    omega
  rw [hword]
  exact ((Int.ediv_emod_unique (r := u + s) (by omega)).mpr
    ⟨by ring, by omega, by omega⟩).1.symm

theorem emuDiv_quotient_sixteen :
    let dsp : Core := ⟨fun _ => ⟨0, 0, 100⟩, fun _ => (0, 3), default⟩
    ((((emuDiv 0)^[24] dsp).accu .a).reg2.toNat : Int) = 100 / (2 * 3) :=
  emuDiv_quotient 0 _ (by decide) (by decide) (by decide) (by decide) rfl

end XogMobile.Apu.Dsp.Alu
