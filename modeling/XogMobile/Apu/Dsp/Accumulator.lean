import XogMobile.Lib.Mask
import Mathlib.Data.Nat.Bitwise
import Mathlib.Tactic.Ring
import Mathlib.Tactic.Linarith

/-!
# Arithmetic on the accumulators of the DSP

An accumulator is three words of 8, 24 and 24 bits. `dsp_cpu.c` adds and subtracts them word by word
in `uint32_t`, shifts them as one `uint64_t`, multiplies by parts of 12 bits and rounds by adding
one half and mending the tie. Here each routine is related to the 56-bit value of the words.
-/

namespace XogMobile.Apu.Dsp.Alu

open Lib BitVec Nat

abbrev Uint32 := BitVec 32

/-- `reg0` has bits 55..48, `reg1` bits 47..24 and `reg2` bits 23..0. -/
structure Accu where
  reg0 : BitVec 8
  (reg1 reg2 : BitVec 24)
deriving DecidableEq

structure Sr where
  (c v z n u e l s0 s1 : Bool)
deriving Inhabited

structure NewSr where
  (l v c : Bool)

namespace Accu

def bits (d : Accu) : BitVec 56 := d.reg0 ++ d.reg1 ++ d.reg2

/-- Three words under `BITMASK(8)` and `BITMASK(24)`. -/
def ofWords (d0 d1 d2 : Uint32) : Accu := ⟨d0.setWidth 8, d1.setWidth 24, d2.setWidth 24⟩

def ofLong (x : BitVec 64) : Accu := ⟨(x >>> 48).setWidth 8, (x >>> 24).setWidth 24, x.setWidth 24⟩

theorem toNat_bits (d : Accu) : d.bits.toNat = d.reg0.toNat * 2 ^ 48 + d.reg1.toNat * 2 ^ 24 + d.reg2.toNat := by
  simp only [bits, toNat_append]
  rw [← shiftLeft_add_eq_or_of_lt d.reg2.isLt, ← shiftLeft_add_eq_or_of_lt d.reg1.isLt]
  omega

theorem msb_bits (d : Accu) : d.bits.msb = d.reg0.msb := by
  rw [bits, msb_append, msb_append]
  rfl

theorem bits_ofLong (x : BitVec 64) : (ofLong x).bits = x.setWidth 56 := by
  apply eq_of_toNat_eq
  simp only [toNat_bits, ofLong, toNat_setWidth, toNat_ushiftRight]
  omega

end Accu

def carry (x : Uint32) : Uint32 := x >>> 24 &&& 1

def dspAdd56 (source dest : Accu) : Accu × NewSr :=
  let d2 : Uint32 := dest.reg2.setWidth 32 + source.reg2.setWidth 32
  let d1 : Uint32 := dest.reg1.setWidth 32 + (source.reg1.setWidth 32 + carry d2)
  let d0 : Uint32 := dest.reg0.setWidth 32 + (source.reg0.setWidth 32 + carry d1)
  let r := Accu.ofWords d0 d1 d2
  let overflow := (source.reg0.msb ^^ r.reg0.msb) && (dest.reg0.msb ^^ r.reg0.msb)
  (r, ⟨overflow, overflow, d0.getLsbD 8⟩)

def dspSub56 (source dest : Accu) : Accu × NewSr :=
  let d2 : Uint32 := dest.reg2.setWidth 32 - source.reg2.setWidth 32
  let d1 : Uint32 := dest.reg1.setWidth 32 - (source.reg1.setWidth 32 + carry d2)
  let d0 : Uint32 := dest.reg0.setWidth 32 - (source.reg0.setWidth 32 + carry d1)
  let r := Accu.ofWords d0 d1 d2
  let overflow := (source.reg0.msb ^^ dest.reg0.msb) && (r.reg0.msb ^^ dest.reg0.msb)
  (r, ⟨overflow, overflow, d0.getLsbD 8⟩)

theorem toNat_carry (x : Uint32) : (carry x).toNat = x.toNat / 2 ^ 24 % 2 := by
  rw [carry, toNat_and, toNat_ushiftRight, shiftRight_eq_div_pow]
  exact and_one_is_mod _

theorem carry_le (x : Uint32) : (carry x).toNat ≤ 1 := by
  rw [toNat_carry]
  omega

section

variable {x c : Uint32} {a b : BitVec 24} (hc : c.toNat ≤ 1)
include hc

theorem add_word (hx : x = a.setWidth 32 + (b.setWidth 32 + c)) :
    (x.setWidth 24).toNat + 2 ^ 24 * (carry x).toNat = a.toNat + b.toNat + c.toNat := by
  rw [toNat_carry, hx]
  simp only [toNat_add, toNat_setWidth]
  omega

theorem sub_word (hx : x = a.setWidth 32 - (b.setWidth 32 + c)) :
    (x.setWidth 24).toNat + b.toNat + c.toNat = a.toNat + 2 ^ 24 * (carry x).toNat := by
  rw [toNat_carry, hx]
  simp only [toNat_add, toNat_sub, toNat_setWidth]
  omega

end

section

variable (s d : Accu)

theorem dspAdd56_sum : (dspAdd56 s d).1.bits.toNat + 2 ^ 56 * (dspAdd56 s d).2.c.toNat =
    d.bits.toNat + s.bits.toNat := by
  unfold dspAdd56
  extract_lets d2 d1 d0 r overflow
  have h2 : _ = _ + _ + (0#32).toNat := add_word (x := d2) (by decide) (by rw [BitVec.add_zero])
  have h1 := add_word (x := d1) (carry_le d2) rfl
  have h0 : (d0.setWidth 8).toNat + 2 ^ 8 * (d0.getLsbD 8).toNat = d.reg0.toNat + s.reg0.toNat + (carry d1).toNat := by
    have := carry_le d1
    rw [getLsbD, toNat_testBit]
    simp only [d0, toNat_add, toNat_setWidth]
    omega
  simp only [Accu.toNat_bits, r, Accu.ofWords, toNat_ofNat] at h2 ⊢
  omega

theorem dspSub56_diff : (dspSub56 s d).1.bits.toNat + s.bits.toNat =
    d.bits.toNat + 2 ^ 56 * (dspSub56 s d).2.c.toNat := by
  unfold dspSub56
  extract_lets d2 d1 d0 r overflow
  have h2 : _ + _ + (0#32).toNat = _ := sub_word (x := d2) (by decide) (by rw [BitVec.add_zero])
  have h1 := sub_word (x := d1) (carry_le d2) rfl
  have h0 : (d0.setWidth 8).toNat + s.reg0.toNat + (carry d1).toNat = d.reg0.toNat + 2 ^ 8 * (d0.getLsbD 8).toNat := by
    have := carry_le d1
    rw [getLsbD, toNat_testBit]
    simp only [d0, toNat_add, toNat_sub, toNat_setWidth]
    omega
  simp only [Accu.toNat_bits, r, Accu.ofWords, toNat_ofNat] at h2 ⊢
  omega

theorem dspAdd56_bits : (dspAdd56 s d).1.bits = d.bits + s.bits := by
  have h := dspAdd56_sum s d
  apply eq_of_toNat_eq
  rw [toNat_add]
  omega

theorem dspSub56_bits : (dspSub56 s d).1.bits = d.bits - s.bits := by
  have h := dspSub56_diff s d
  apply eq_of_toNat_eq
  rw [toNat_sub]
  omega

theorem dspAdd56_flags : (dspAdd56 s d).2 =
    ⟨d.bits.saddOverflow s.bits, d.bits.saddOverflow s.bits, d.bits.uaddOverflow s.bits⟩ := by
  have hc : (dspAdd56 s d).2.c = d.bits.uaddOverflow s.bits := by
    have h := dspAdd56_sum s d
    rw [Bool.eq_iff_iff, uaddOverflow, decide_eq_true_eq, ← Bool.toNat_eq_one]
    omega
  have hv : (dspAdd56 s d).2.v = d.bits.saddOverflow s.bits := by
    rw [saddOverflow_eq, ← dspAdd56_bits, Accu.msb_bits, Accu.msb_bits, Accu.msb_bits]
    show ((s.reg0.msb ^^ (dspAdd56 s d).1.reg0.msb) && (d.reg0.msb ^^ (dspAdd56 s d).1.reg0.msb)) = _
    cases s.reg0.msb <;> cases d.reg0.msb <;> cases (dspAdd56 s d).1.reg0.msb <;> rfl
  rw [← hc, ← hv]
  rfl

theorem dspSub56_flags : (dspSub56 s d).2 =
    ⟨d.bits.ssubOverflow s.bits, d.bits.ssubOverflow s.bits, d.bits.usubOverflow s.bits⟩ := by
  have hc : (dspSub56 s d).2.c = d.bits.usubOverflow s.bits := by
    have h := dspSub56_diff s d
    rw [Bool.eq_iff_iff, usubOverflow, decide_eq_true_eq, ← Bool.toNat_eq_one]
    omega
  have hv : (dspSub56 s d).2.v = d.bits.ssubOverflow s.bits := by
    rw [ssubOverflow_eq, ← dspSub56_bits, Accu.msb_bits, Accu.msb_bits, Accu.msb_bits]
    show ((s.reg0.msb ^^ d.reg0.msb) && ((dspSub56 s d).1.reg0.msb ^^ d.reg0.msb)) = _
    cases s.reg0.msb <;> cases d.reg0.msb <;> cases (dspSub56 s d).1.reg0.msb <;> rfl
  rw [← hc, ← hv]
  rfl

end

theorem dspSub56_zero (d : Accu) : (dspSub56 d ⟨0, 0, 0⟩).1.bits = -d.bits := by
  rw [dspSub56_bits]
  exact zero_sub _

def dspAbs56 (dest : Accu) : Accu × NewSr :=
  if dest.reg0.msb then dspSub56 dest ⟨0, 0, 0⟩ else (dest, ⟨false, false, false⟩)

theorem dspAbs56_bits (d : Accu) : (dspAbs56 d).1.bits = BitVec.ofInt 56 |d.bits.toInt| := by
  rw [dspAbs56, ← d.msb_bits]
  cases hneg : d.bits.msb
  · rw [abs_of_nonneg (by rw [toInt_eq_toNat_of_msb hneg]; omega), ofInt_toInt]
    rfl
  · rw [abs_of_neg (toInt_neg_of_msb_true hneg), ofInt_neg, ofInt_toInt, if_pos rfl, dspSub56_zero]

/-- The count of a shift, of which a 64-bit machine takes the low six bits. -/
def shiftCount (n : Int) : Nat := (n % 64).toNat

def dspAsl56 (dest : Accu) (n : Nat) : Accu × NewSr :=
  let destV : BitVec 64 := dest.bits.setWidth 64
  let destS := destV <<< n
  let overflow := destV >>> shiftCount (56 - n) != 0
  let v := destV.getLsbD 55 != destS.getLsbD 55
  (Accu.ofLong destS, ⟨overflow, v, (destV >>> shiftCount (56 - n)).getLsbD 0⟩)

def dspAsr56 (dest : Accu) (n : Nat) : Accu × NewSr :=
  let destV : BitVec 64 := dest.bits.setWidth 64
  (Accu.ofLong (destV >>> n), ⟨false, false, (destV >>> shiftCount (n - 1)).getLsbD 0⟩)

theorem dspAsl56_bits (d : Accu) (n : Nat) : (dspAsl56 d n).1.bits = d.bits <<< n := by
  rw [dspAsl56, Accu.bits_ofLong]
  apply eq_of_toNat_eq
  simp only [toNat_setWidth, toNat_shiftLeft]
  rw [mod_mod_of_dvd _ (by decide), mod_eq_of_lt (lt_trans d.bits.isLt (by decide))]

def magnitude (source : BitVec 24) : Nat :=
  if source.msb then 2 ^ 24 - source.toNat else source.toNat

/-- The sum of the four partial products. Where there is nothing to carry the code does not mask,
and a mask would change nothing. -/
def mulParts (source1 source2 : Nat) : Accu :=
  let part0 := source1 % 2 ^ 12 * (source2 % 2 ^ 12)
  let part1 := source1 / 2 ^ 12 % 2 ^ 12 * (source2 % 2 ^ 12)
  let part2 := source1 % 2 ^ 12 * (source2 / 2 ^ 12 % 2 ^ 12)
  let part3 := source1 / 2 ^ 12 % 2 ^ 12 * (source2 / 2 ^ 12 % 2 ^ 12)
  let d2 := part0 + part1 % 2 ^ 12 * 2 ^ 12 + part2 % 2 ^ 12 * 2 ^ 12
  let d1 := part1 / 2 ^ 12 % 2 ^ 12 + part2 / 2 ^ 12 % 2 ^ 12 + part3 + d2 / 2 ^ 24 % 2 ^ 8
  .ofWords (.ofNat 32 (d1 / 2 ^ 24 % 2 ^ 8)) (.ofNat 32 d1) (.ofNat 32 d2)

def dspMul56 (source1 source2 : BitVec 24) (signe : Bool) : Accu :=
  -- the shift gets rid of the extra sign bit
  let dest := (dspAsl56 (mulParts (magnitude source1) (magnitude source2)) 1).1
  if signe ^^ source1.msb ^^ source2.msb then (dspSub56 dest ⟨0, 0, 0⟩).1 else dest

theorem magnitude_lt (s : BitVec 24) : magnitude s < 2 ^ 24 := by
  rw [magnitude]
  split
  case isTrue hneg => have := toNat_ge_of_msb_true hneg; omega
  case isFalse => exact s.isLt

theorem toInt_eq_magnitude (s : BitVec 24) : s.toInt = if s.msb then -(magnitude s : Int) else magnitude s := by
  rw [toInt_eq_msb_cond, magnitude]
  split <;> omega

theorem mulParts_toNat {m n : Nat} (hm : m < 2 ^ 24) (hn : n < 2 ^ 24) : (mulParts m n).bits.toNat = m * n := by
  have hlow : ∀ k, k % 2 ^ 12 ≤ 4095 := fun k => by omega
  have h0 := mul_le_mul (hlow m) (hlow n)
  have h1 := mul_le_mul (hlow (m / 2 ^ 12)) (hlow n)
  have h2 := mul_le_mul (hlow m) (hlow (n / 2 ^ 12))
  have h3 := mul_le_mul (hlow (m / 2 ^ 12)) (hlow (n / 2 ^ 12))
  have hsum : m * n = m % 2 ^ 12 * (n % 2 ^ 12) + 2 ^ 12 * (m / 2 ^ 12 % 2 ^ 12 * (n % 2 ^ 12)) +
      2 ^ 12 * (m % 2 ^ 12 * (n / 2 ^ 12 % 2 ^ 12)) +
      2 ^ 24 * (m / 2 ^ 12 % 2 ^ 12 * (n / 2 ^ 12 % 2 ^ 12)) := by
    have hdigits : ∀ k < 2 ^ 24, k = k % 2 ^ 12 + 2 ^ 12 * (k / 2 ^ 12 % 2 ^ 12) := fun k hk => by omega
    conv_lhs => rw [hdigits m hm, hdigits n hn]
    ring
  simp only [mulParts, Accu.toNat_bits, Accu.ofWords, toNat_setWidth, toNat_ofNat]
  omega

theorem dspMul56_bits (s1 s2 : BitVec 24) (signe : Bool) : (dspMul56 s1 s2 signe).bits =
    BitVec.ofInt 56 ((if signe then -1 else 1) * (2 * s1.toInt * s2.toInt)) := by
  have hdest : (dspAsl56 (mulParts (magnitude s1) (magnitude s2)) 1).1.bits =
      BitVec.ofInt 56 (2 * magnitude s1 * magnitude s2 : Nat) := by
    rw [dspAsl56_bits, ofInt_natCast]
    apply eq_of_toNat_eq
    rw [toNat_shiftLeft, mulParts_toNat (magnitude_lt s1) (magnitude_lt s2),
      Nat.shiftLeft_eq, toNat_ofNat, mul_assoc 2, mul_comm 2]
  have hsign : (if signe then -1 else 1) * (2 * s1.toInt * s2.toInt) =
      if signe ^^ s1.msb ^^ s2.msb then -((2 * magnitude s1 * magnitude s2 : Nat) : Int)
      else (2 * magnitude s1 * magnitude s2 : Nat) := by
    rw [toInt_eq_magnitude s1, toInt_eq_magnitude s2]
    cases signe <;> cases s1.msb <;> cases s2.msb <;> simp
  rw [dspMul56, hsign]
  split
  · rw [dspSub56_zero, hdest, ofInt_neg]
  · exact hdest

/-- Sums and differences are exact modulo `2 ^ 56` with the carry, the overflow and the limit as
they should be, and so are absolute values and products. -/
theorem accumulator_arithmetic (s d : Accu) (s1 s2 : BitVec 24) (signe : Bool) :
    let sum := dspAdd56 s d
    let difference := dspSub56 s d
    (sum.1.bits = d.bits + s.bits ∧ sum.2.c = d.bits.uaddOverflow s.bits ∧
      sum.2.v = d.bits.saddOverflow s.bits ∧ sum.2.l = d.bits.saddOverflow s.bits) ∧
    (difference.1.bits = d.bits - s.bits ∧ difference.2.c = d.bits.usubOverflow s.bits ∧
      difference.2.v = d.bits.ssubOverflow s.bits ∧ difference.2.l = d.bits.ssubOverflow s.bits) ∧
    (dspAbs56 d).1.bits = BitVec.ofInt 56 |d.bits.toInt| ∧
    (dspMul56 s1 s2 signe).bits =
      BitVec.ofInt 56 ((if signe then -1 else 1) * (2 * s1.toInt * s2.toInt)) := by
  intro sum difference
  have hsum : sum.2 = _ := dspAdd56_flags s d
  have hdifference : difference.2 = _ := dspSub56_flags s d
  rw [hsum, hdifference]
  exact ⟨⟨dspAdd56_bits s d, rfl, rfl, rfl⟩, ⟨dspSub56_bits s d, rfl, rfl, rfl⟩, dspAbs56_bits d,
    dspMul56_bits ..⟩

/-- `r` is the multiple of `2 ^ k` nearest to `x` modulo `2 ^ 56`, and an even one if two are
nearest. -/
def RoundsTo (k : Nat) (x : Int) (r : BitVec 56) : Prop :=
  ∃ m : Int, r = BitVec.ofInt 56 (m * 2 ^ k) ∧ 2 * (x - m * 2 ^ k).natAbs ≤ 2 ^ k ∧
    (2 * (x - m * 2 ^ k).natAbs = 2 ^ k → m % 2 = 0)

def dspRnd56 (sr : Sr) (dest : Accu) : Accu :=
  if sr.s0 then
    let d := (dspAdd56 ⟨0, 1, 0⟩ dest).1
    let d1 := if d.reg2 = 0 ∧ d.reg1 &&& 1 = 0 then d.reg1 &&& 0xfffffc else d.reg1
    { d with reg1 := d1 &&& 0xfffffe, reg2 := 0 }
  else if sr.s1 then
    let d := (dspAdd56 ⟨0, 0, 1 <<< 22⟩ dest).1
    let d2 := if d.reg2 &&& 0x7fffff = 0 then 0 else d.reg2
    { d with reg2 := d2 &&& 0x800000 }
  else
    let d := (dspAdd56 ⟨0, 0, 1 <<< 23⟩ dest).1
    { d with reg1 := if d.reg2 = 0 then d.reg1 &&& 0xfffffe else d.reg1, reg2 := 0 }

theorem roundsTo_of_half {k : Nat} (hk : k = 23 ∨ k = 24 ∨ k = 25) {x y r : BitVec 56}
    (hy : y = x + BitVec.ofNat 56 (2 ^ (k - 1)))
    (hr : r.toNat = if y.toNat % 2 ^ k = 0 then y.toNat / 2 ^ (k + 1) * 2 ^ (k + 1)
      else y.toNat / 2 ^ k * 2 ^ k) : RoundsTo k x.toInt r := by
  have hx := toInt_eq_toNat_cond x
  rw [hy, toNat_add, toNat_ofNat] at hr
  refine ⟨(r.toNat / 2 ^ k : Nat) +
    2 ^ (56 - k) * (((x.toNat + 2 ^ (k - 1)) / 2 ^ 56 : Nat) - (x.toNat / 2 ^ 55 : Nat)),
    ?_, ?_, ?_⟩
  · apply eq_of_toNat_eq
    rw [toNat_ofInt]
    rcases hk with rfl | rfl | rfl <;> split at hr <;> omega
  · rcases hk with rfl | rfl | rfl <;> split at hr <;> split at hx <;> omega
  · rcases hk with rfl | rfl | rfl <;> split at hr <;> split at hx <;> omega

/-- Rounding is convergent, to the step of the scaling mode. -/
theorem dspRnd56_rounds (sr : Sr) (d : Accu) :
    RoundsTo (if sr.s0 then 25 else if sr.s1 then 23 else 24) d.bits.toInt
      (dspRnd56 sr d).bits := by
  have hone (x : BitVec 24) : (x &&& 1).toNat = x.toNat % 2 := and_one_is_mod _
  have hlow (x : BitVec 24) : (x &&& 0x7fffff).toNat = x.toNat % 2 ^ 23 :=
    and_two_pow_sub_one_eq_mod _ 23
  have htwo (x : BitVec 24) : (x &&& 0xfffffe).toNat = _ := toNat_and_high x 1
  have hfour (x : BitVec 24) : (x &&& 0xfffffc).toNat = _ := toNat_and_high x 2
  have htop (x : BitVec 24) : (x &&& 0x800000).toNat = _ := toNat_and_high x 23
  have hzero : (0 : BitVec 24).toNat = 0 := rfl
  unfold dspRnd56
  split
  · refine roundsTo_of_half (.inr (.inr rfl)) (dspAdd56_bits ⟨0, 1, 0⟩ d) ?_
    rw [Accu.toNat_bits, Accu.toNat_bits]
    dsimp only
    split <;> simp_all only [← toNat_inj] <;> split <;> omega
  · split
    · refine roundsTo_of_half (.inl rfl) (dspAdd56_bits ⟨0, 0, 1 <<< 22⟩ d) ?_
      rw [Accu.toNat_bits, Accu.toNat_bits]
      dsimp only
      split <;> simp_all only [← toNat_inj] <;> split <;> omega
    · refine roundsTo_of_half (.inr (.inl rfl)) (dspAdd56_bits ⟨0, 0, 1 <<< 23⟩ d) ?_
      rw [Accu.toNat_bits, Accu.toNat_bits]
      dsimp only
      split <;> simp_all only [← toNat_inj] <;> split <;> omega

end XogMobile.Apu.Dsp.Alu
