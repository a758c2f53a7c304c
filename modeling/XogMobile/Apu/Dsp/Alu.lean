import XogMobile.Apu.Dsp.Accumulator
import Mathlib.Tactic.Positivity

/-!
# Instructions on the accumulators

What `dsp_emu.c.inc` makes of the routines of the accumulators: additions and subtractions with
carry, arithmetic shifts, and the reading of an accumulator as a 24-bit operand. The status register
is where the instructions differ from the exact operations.
-/

namespace XogMobile.Apu.Dsp.Alu

open Function Nat

inductive AccuReg
  | a
  | b
deriving DecidableEq

inductive InputReg
  | x
  | y

structure Core where
  accu : AccuReg → Accu
  input : InputReg → BitVec 24 × BitVec 24
  sr : Sr

def Core.holding (d : Accu) : Core := ⟨fun _ => d, fun _ => 0, default⟩

def emuCcrUpdateEUNZ (sr : Sr) (d : Accu) : Sr :=
  let sr := { sr with e := false, u := false, n := false, z := false }
  let extended (i : Nat) := d.reg0.toNat <<< i + d.reg1.toNat >>> (24 - i)
  let uniform (x ones : Nat) := x == 0 || x == ones
  let (e, u) :=
    if sr.s1 then (!uniform (extended 2) 0x3ff, uniform (d.reg1.toNat &&& 0x600000) 0x600000)
    else if sr.s0 then (!uniform d.reg0.toNat 0xff, uniform (extended 1 &&& 3) 3)
    else (!uniform (extended 1) 0x1ff, uniform (d.reg1.toNat &&& 0xc00000) 0xc00000)
  if sr.s0 && sr.s1 then sr else { sr with e, u, z := d == ⟨0, 0, 0⟩, n := d.reg0.msb }

/-- The bits `V` and `C` are replaced and `L` is kept where it is set. -/
def Sr.put (sr : Sr) (newsr : NewSr) : Sr :=
  { sr with l := sr.l || newsr.l, v := newsr.v, c := newsr.c }

theorem emuCcrUpdateEUNZ_keeps (sr : Sr) (d : Accu) :
    let after := emuCcrUpdateEUNZ sr d
    after.c = sr.c ∧ after.v = sr.v ∧ after.l = sr.l := by
  unfold emuCcrUpdateEUNZ
  dsimp only
  split <;> exact ⟨rfl, rfl, rfl⟩

theorem toInt_eq (x : BitVec 56) : x.toInt = x.toNat - 2 ^ 56 * (x.toNat / 2 ^ 55 : Nat) := by
  rw [BitVec.toInt_eq_toNat_cond]
  split <;> omega

def Representable (x : Int) : Prop := -2 ^ 55 ≤ x ∧ x < 2 ^ 55

instance (x : Int) : Decidable (Representable x) := inferInstanceAs (Decidable (_ ∧ _))

/-- The instruction leaves `x` modulo `2 ^ 56`, with this carry, `V` where `x` is not representable,
and `L` only set with `V`. -/
structure Exact (dsp after : Core) (r : AccuReg) (x : Int) (carry : Prop) : Prop where
  bits : (after.accu r).bits = BitVec.ofInt 56 x
  c : after.sr.c = true ↔ carry
  v : after.sr.v = true ↔ ¬Representable x
  l : after.sr.l = true → dsp.sr.l = true ∨ after.sr.v = true

def withCarry (op : Accu → Accu → Accu × NewSr) (source dest : Accu) (curcarry : Bool) :
    Accu × NewSr :=
  let (dest, newsr) := op source dest
  if curcarry then
    let (dest, more) := op ⟨0, 0, 1⟩ dest
    (dest, ⟨newsr.l || more.l, newsr.v || more.v, newsr.c || more.c⟩)
  else (dest, newsr)

/-- `emu_adc_x_a` and `emu_sbc_x_a` and the members of their families for other registers. -/
def emuWithCarry (op : Accu → Accu → Accu × NewSr) (src : InputReg) (r : AccuReg) (dsp : Core) :
    Core :=
  let (x1, x0) := dsp.input src
  let (dest, newsr) := withCarry op ⟨if x1.msb then 0xff else 0, x1, x0⟩ (dsp.accu r) dsp.sr.c
  { dsp with
    accu := update dsp.accu r dest
    sr := (emuCcrUpdateEUNZ dsp.sr dest).put newsr }

def emuAdc := emuWithCarry dspAdd56
def emuSbc := emuWithCarry dspSub56

def emuAdcXA := emuAdc .x .a
def emuAdcXB := emuAdc .x .b
def emuAdcYA := emuAdc .y .a
def emuAdcYB := emuAdc .y .b
def emuSbcXA := emuSbc .x .a
def emuSbcXB := emuSbc .x .b
def emuSbcYA := emuSbc .y .a
def emuSbcYB := emuSbc .y .b

def Core.source (dsp : Core) (src : InputReg) : BitVec 56 :=
  ((dsp.input src).1 ++ (dsp.input src).2).signExtend 56

theorem source_bits (x1 x0 : BitVec 24) :
    (⟨if x1.msb then 0xff else 0, x1, x0⟩ : Accu).bits = (x1 ++ x0).signExtend 56 := by
  apply BitVec.eq_of_toInt_eq
  rw [BitVec.toInt_signExtend_of_le (by decide), toInt_eq, Accu.toNat_bits, BitVec.toInt_append,
    BitVec.toInt_eq_msb_cond x1]
  split <;> simp_all <;> omega

theorem two_steps {x z : Int} (hz : z = 1 ∨ z = -1) (hx : -2 ^ 56 ≤ x ∧ x < 2 ^ 56) :
    (¬Representable x ∨ ¬Representable (x.bmod (2 ^ 56) + z) ↔ ¬Representable (x + z)) ↔
      ¬(z = 1 ∧ x = -2 ^ 55 - 1) ∧ ¬(z = -1 ∧ x = 2 ^ 55) := by
  unfold Representable
  rw [Int.bmod_def]
  split <;> omega

section

variable (x y : BitVec 56)

theorem saddOverflow_iff : x.saddOverflow y = true ↔ ¬Representable (x.toInt + y.toInt) := by
  rw [BitVec.saddOverflow, Bool.or_eq_true, decide_eq_true_eq, decide_eq_true_eq, Representable]
  omega

theorem ssubOverflow_iff : x.ssubOverflow y = true ↔ ¬Representable (x.toInt - y.toInt) := by
  rw [BitVec.ssubOverflow, Bool.or_eq_true, decide_eq_true_eq, decide_eq_true_eq, Representable]
  omega

end

theorem one_bits : (⟨0#8, 0#24, 1#24⟩ : Accu).bits = 1#56 := rfl

theorem ofInt_sub (x y : Int) : BitVec.ofInt 56 (x - y) = BitVec.ofInt 56 x - BitVec.ofInt 56 y := by
  rw [sub_eq_add_neg, BitVec.ofInt_add, BitVec.ofInt_neg, BitVec.sub_eq_add_neg]

section

variable (s d : Accu) (c : Bool)

theorem withCarry_add :
    let q := withCarry dspAdd56 s d c
    let x := d.bits.toInt + s.bits.toInt
    q.1.bits = BitVec.ofInt 56 (x + c.toNat) ∧ (q.2.c = true ↔ 2 ^ 56 ≤ d.bits.toNat + s.bits.toNat + c.toNat) ∧
      ((q.2.v = true ↔ ¬Representable (x + c.toNat)) ↔ ¬(c = true ∧ x = -2 ^ 55 - 1)) ∧
      q.2.l = q.2.v := by
  have hd := toInt_eq d.bits
  have hs := toInt_eq s.bits
  have hv := two_steps (x := d.bits.toInt + s.bits.toInt) (.inl rfl) (by omega)
  cases c <;> simp [withCarry, dspAdd56_bits, dspAdd56_flags, one_bits, saddOverflow_iff,
    BitVec.uaddOverflow, BitVec.ofInt_add]
  exact ⟨by omega, by simpa using hv⟩

theorem withCarry_sub :
    let q := withCarry dspSub56 s d c
    let x := d.bits.toInt - s.bits.toInt
    q.1.bits = BitVec.ofInt 56 (x - c.toNat) ∧ (q.2.c = true ↔ d.bits.toNat < s.bits.toNat + c.toNat) ∧
      ((q.2.v = true ↔ ¬Representable (x - c.toNat)) ↔ ¬(c = true ∧ x = 2 ^ 55)) ∧
      q.2.l = q.2.v := by
  have hd := toInt_eq d.bits
  have hs := toInt_eq s.bits
  have hv := two_steps (x := d.bits.toInt - s.bits.toInt) (.inr rfl) (by omega)
  cases c <;> simp [withCarry, dspSub56_bits, dspSub56_flags, one_bits, ssubOverflow_iff,
    BitVec.usubOverflow, ofInt_sub]
  exact ⟨by omega, by simpa [← sub_eq_add_neg] using hv⟩

end

theorem emuWithCarry_exact {op : Accu → Accu → Accu × NewSr} {dsp : Core} {src : InputReg}
    {r : AccuReg} {x : Int} {carry p : Prop} (h : ∀ s, s.bits = dsp.source src →
      let q := withCarry op s (dsp.accu r) dsp.sr.c
      q.1.bits = BitVec.ofInt 56 x ∧ (q.2.c = true ↔ carry) ∧ ((q.2.v = true ↔ ¬Representable x) ↔ p) ∧ q.2.l = q.2.v) :
    Exact dsp (emuWithCarry op src r dsp) r x carry ↔ p := by
  obtain ⟨hbits, hc, hv, hl⟩ := h _ (source_bits _ _)
  rw [← hv]
  refine ⟨fun h => ?_, fun h => ⟨?_, ?_, ?_, ?_⟩⟩
  · exact h.v
  · simpa [emuWithCarry] using hbits
  · exact hc
  · exact h
  · have hkept := (emuCcrUpdateEUNZ_keeps dsp.sr ((emuWithCarry op src r dsp).accu r)).2.2
    simp only [emuWithCarry, Sr.put, update_self] at hkept ⊢
    rw [hkept, hl, Bool.or_eq_true]
    exact id

/-- The operation is done in two steps whose flags are joined. They are right but where the first
step overflows and the second one brings the result back. -/
theorem emuAdc_emuSbc_iff (dsp : Core) (src : InputReg) (r : AccuReg) :
    let D := (dsp.accu r).bits
    let S := dsp.source src
    let c := dsp.sr.c.toNat
    (Exact dsp (emuAdc src r dsp) r (D.toInt + S.toInt + c) (2 ^ 56 ≤ D.toNat + S.toNat + c) ↔
      ¬(dsp.sr.c = true ∧ D.toInt + S.toInt = -2 ^ 55 - 1)) ∧
    (Exact dsp (emuSbc src r dsp) r (D.toInt - S.toInt - c) (D.toNat < S.toNat + c) ↔
      ¬(dsp.sr.c = true ∧ D.toInt - S.toInt = 2 ^ 55)) :=
  ⟨emuWithCarry_exact fun s hs => hs ▸ withCarry_add s _ _,
    emuWithCarry_exact fun s hs => hs ▸ withCarry_sub s _ _⟩

/-- The least accumulator, minus one, with a carry: the sum is the least accumulator again. -/
theorem emuAdc_overflows_back :
    let dsp := { Core.holding ⟨0x80, 0, 0⟩ with
      input := fun _ => (0xffffff, 0xffffff), sr := { (default : Sr) with c := true } }
    Representable ((dsp.accu .a).bits.toInt + (dsp.source .x).toInt + dsp.sr.c.toNat) ∧
      (emuAdcXA dsp).sr.v = true := by
  decide

def emuShift (shift : Accu → Nat → Accu × NewSr) (S D : AccuReg) (ii : Nat) (dsp : Core) : Core :=
  let (dest, newsr) := shift (dsp.accu S) ii
  { dsp with
    accu := update dsp.accu D dest
    sr := emuCcrUpdateEUNZ (dsp.sr.put newsr) dest }

def emuAsl := emuShift dspAsl56
def emuAsr := emuShift dspAsr56

def emuAslA := emuAsl .a .a 1
def emuAslB := emuAsl .b .b 1
def emuAsrA := emuAsr .a .a 1
def emuAsrB := emuAsr .b .b 1

def AccuReg.ofBit (bit : Bool) : AccuReg := if bit then .b else .a

def emuAslImm (curInst : Uint32) :=
  emuAsl (.ofBit (curInst.getLsbD 7)) (.ofBit (curInst.getLsbD 0)) (curInst.toNat / 2 % 64)

def emuAsrImm (curInst : Uint32) :=
  emuAsr (.ofBit (curInst.getLsbD 7)) (.ofBit (curInst.getLsbD 0)) (curInst.toNat / 2 % 64)

theorem emuShift_flags (shift : Accu → Nat → Accu × NewSr) (S T : AccuReg) (n : Nat) (dsp : Core) :
    let q := shift (dsp.accu S) n
    let after := emuShift shift S T n dsp
    after.accu T = q.1 ∧ after.sr.c = q.2.c ∧ after.sr.v = q.2.v ∧ after.sr.l = (dsp.sr.l || q.2.l) :=
  ⟨update_self .., emuCcrUpdateEUNZ_keeps _ _⟩

section

variable (d : Accu) (n : Fin 56)

theorem dspAsl56_flags : ((dspAsl56 d n).2.c = true ↔ 0 < n.val ∧ d.bits.getLsbD (56 - n) = true) ∧
      ((dspAsl56 d n).2.v = true ↔ d.bits.msb ≠ d.bits.getLsbD (55 - n)) ∧
      ((dspAsl56 d n).2.l = true ↔ ¬d.bits.toNat < 2 ^ (56 - n.val)) := by
  have hcount : shiftCount (56 - n.val) = 56 - n.val := by
    unfold shiftCount
    omega
  rw [dspAsl56, hcount]
  refine ⟨?_, ?_, ?_⟩
  · rcases Nat.eq_zero_or_pos n.val with h | h
    · simp [h]
    · simp [h]
      omega
  · simp [BitVec.msb_eq_getLsbD_last, show ¬55 < n.val by omega]
  · rw [bne_iff_ne, ne_eq, ← BitVec.toNat_inj, BitVec.toNat_ushiftRight, shiftRight_eq_div_pow, ← div_eq_zero_iff_lt (Nat.two_pow_pos _)]
    rfl

theorem dspAsr56_bits : (dspAsr56 d n).1.bits = d.bits >>> n.val := by
  rw [dspAsr56, Accu.bits_ofLong]
  apply BitVec.eq_of_toNat_eq
  exact mod_eq_of_lt (d.bits >>> n.val).isLt

theorem dspAsr56_c : (dspAsr56 d n).2.c = true ↔ 0 < n.val ∧ d.bits.getLsbD (n - 1) = true := by
  rcases Nat.eq_zero_or_pos n.val with h | h
  · simp [dspAsr56, shiftCount, h]
  · have hcount : shiftCount (n.val - 1) = n.val - 1 := by
      unfold shiftCount
      omega
    simp [dspAsr56, h, hcount, show n.val - 1 < 64 by omega]

end

theorem ushiftRight_toInt_iff (x : BitVec 56) (n : Nat) : (x >>> n).toInt = x.toInt / 2 ^ n ↔ n = 0 ∨ 0 ≤ x.toInt := by
  rcases Nat.eq_zero_or_pos n with rfl | hn
  · simp
  rw [BitVec.toInt_ushiftRight_of_lt hn, shiftRight_eq_div_pow]
  refine ⟨fun h => .inr ?_, fun h => ?_⟩
  · by_contra hneg
    have hpow : (0 : Int) < 2 ^ n := by positivity
    have hlt := Int.ediv_neg_of_neg_of_pos (Int.not_le.mp hneg) hpow
    exact absurd (h ▸ hlt) (Int.not_lt.mpr (Int.natCast_nonneg _))
  · have hx := toInt_eq x
    rw [show x.toInt = x.toNat by omega]
    rfl

theorem shiftLeft_eq_ofInt (x : BitVec 56) (n : Nat) : x <<< n = BitVec.ofInt 56 (x.toInt * 2 ^ n) := by
  have hpow : BitVec.ofInt 56 (2 ^ n) = BitVec.twoPow 56 n := by
    exact BitVec.eq_of_toNat_eq (BitVec.toNat_twoPow 56 n).symm
  rw [BitVec.shiftLeft_eq_mul_twoPow, BitVec.ofInt_mul, BitVec.ofInt_toInt, hpow]

theorem msb_shiftLeft (x : BitVec 56) (n : Fin 56) : (x <<< n.val).msb = x.getLsbD (55 - n) := by
  rw [BitVec.msb_shiftLeft, BitVec.getMsbD, decide_eq_true n.isLt, Bool.true_and]

theorem msb_of_representable {x : BitVec 56} {n : Nat} (h : Representable (x.toInt * 2 ^ n)) :
    (x <<< n).msb = x.msb := by
  rw [BitVec.msb_eq_toInt, BitVec.msb_eq_toInt, shiftLeft_eq_ofInt,
    BitVec.toInt_ofInt_eq_self (by decide) h.1 h.2, decide_eq_decide, ← Int.not_le, ← Int.not_le,
    mul_nonneg_iff_of_pos_right (by positivity)]

theorem representable_of_msb {x : BitVec 56} {n : Fin 56} (h : x.toNat < 2 ^ (56 - n.val))
    (hmsb : x.msb = (x <<< n.val).msb) : Representable (x.toInt * 2 ^ n.val) := by
  have hx := toInt_eq x
  rcases Nat.eq_zero_or_pos n.val with hn | hn
  · rw [hn, pow_zero, Representable]
    omega
  have hle := Nat.pow_le_pow_right (show 0 < 2 by decide) (show 56 - n.val ≤ 55 by omega)
  have hlt := mul_lt_mul_of_pos_right h (Nat.two_pow_pos n.val)
  rw [← pow_add, Nat.sub_add_cancel n.isLt.le] at hlt
  rw [BitVec.msb_eq_false_iff_two_mul_lt.mpr (by omega), eq_comm,
    BitVec.msb_eq_false_iff_two_mul_lt, BitVec.toNat_shiftLeft, shiftLeft_eq] at hmsb
  rw [show x.toInt = x.toNat by omega, show (2 : Int) ^ n.val = (2 ^ n.val : Nat) by push_cast; rfl, Representable]
  omega

/-- The shift to the right is a logical one. The one to the left sets `L` for bits that are lost and
`V` where the sign changes in the end. -/
theorem emuAsr_emuAsl_iff (S T : AccuReg) (d : Accu) (n : Fin 56) :
    ((∀ dsp : Core, dsp.accu S = d →
        ((emuAsr S T n dsp).accu T).bits.toInt = d.bits.toInt / 2 ^ n.val ∧
          ((emuAsr S T n dsp).sr.c = true ↔ 0 < n.val ∧ d.bits.getLsbD (n - 1) = true)) ↔
      n.val = 0 ∨ 0 ≤ d.bits.toInt) ∧
    ((∀ dsp : Core, dsp.accu S = d →
        Exact dsp (emuAsl S T n dsp) T (d.bits.toInt * 2 ^ n.val)
          (0 < n.val ∧ d.bits.getLsbD (56 - n) = true)) ↔
      d.bits.toNat < 2 ^ (56 - n.val) ∨ d.bits.msb ≠ d.bits.getLsbD (55 - n)) := by
  obtain ⟨hc, hv, hl⟩ := dspAsl56_flags d n
  refine ⟨⟨fun h => ?_, fun h dsp hd => ?_⟩, fun h => ?_, fun h dsp hd => ?_⟩
  · obtain ⟨hbits, -⟩ := h (.holding d) rfl
    rw [emuAsr, (emuShift_flags ..).1, dspAsr56_bits] at hbits
    exact (ushiftRight_toInt_iff ..).mp hbits
  · obtain ⟨haccu, hcarry, -⟩ := emuShift_flags dspAsr56 S T n dsp
    rw [emuAsr, haccu, hcarry, hd, dspAsr56_bits, ushiftRight_toInt_iff]
    exact ⟨h, dspAsr56_c d n⟩
  · have hlimit := (h (.holding d) rfl).l
    obtain ⟨-, -, hv', hl'⟩ := emuShift_flags dspAsl56 S T n (.holding d)
    tauto
  · obtain ⟨haccu, hc', hv', hl'⟩ := emuShift_flags dspAsl56 S T n dsp
    rw [hd] at haccu hc' hv' hl'
    refine ⟨?_, ?_, ?_, ?_⟩
    · rw [emuAsl, haccu, dspAsl56_bits, shiftLeft_eq_ofInt]
    · rw [emuAsl, hc', hc]
    · rw [emuAsl, hv', hv, ← msb_shiftLeft]
      refine ⟨fun hne hrep => hne (msb_of_representable hrep).symm, fun hrep hmsb => hrep ?_⟩
      have hfits := h.resolve_right fun hne => hne (hmsb.trans (msb_shiftLeft ..))
      exact representable_of_msb hfits hmsb
    · rw [emuAsl, hl', hv', Bool.or_eq_true, hv]
      tauto

/-- Half of minus two comes out positive, twice minus one sets `L`, and four times `2 ^ 54` sets no
`V`. -/
theorem shifts_inexact :
    let half := emuAsrA (.holding ⟨0xff, 0xffffff, 0xfffffe⟩)
    let twice := emuAslA (.holding ⟨0xff, 0xffffff, 0xffffff⟩)
    let fourTimes := emuAsl .a .a 2 (.holding ⟨0x40, 0, 0⟩)
    (half.accu .a).bits.toInt = 2 ^ 55 - 1 ∧ (twice.accu .a).bits.toInt = -2 ∧
      twice.sr.v = false ∧ twice.sr.l = true ∧ fourTimes.sr.v = false := by
  decide

def scaled (sr : Sr) (d : Accu) : BitVec 24 :=
  let value : Uint32 := d.reg0.setWidth 32 <<< 24 + d.reg1.setWidth 32
  let value :=
    match sr.s1, sr.s0 with
    | false, true => value >>> 1
    | true, false => value.shiftConcat (d.reg2.getLsbD 23)
    | _, _ => value
  value.setWidth 24

/-- The scaled accumulator needs no limiting. -/
def InRange (sr : Sr) (d : Accu) : Prop :=
  d.reg0.toNat = 0 ∧ (scaled sr d).toNat ≤ 0x7fffff ∨
    d.reg0.toNat = 0xff ∧ (scaled sr d).toNat ≥ 0x800000

instance (sr : Sr) (d : Accu) : Decidable (InRange sr d) := inferInstanceAs (Decidable (_ ∨ _))

def emuPmReadAccu24 (dsp : Core) (r : AccuReg) : BitVec 24 × Core × Bool :=
  let d := dsp.accu r
  if InRange dsp.sr d then (scaled dsp.sr d, dsp, false)
  else
    (if d.reg0.msb then 0x800000 else 0x7fffff, { dsp with sr := { dsp.sr with l := true } }, true)

/-- The bits that the scaling mode cuts off a 24-bit operand. -/
def Sr.cut (sr : Sr) : Nat :=
  match sr.s1, sr.s0 with
  | false, true => 25
  | true, false => 23
  | _, _ => 24

theorem toNat_scaled (sr : Sr) (d : Accu) : (scaled sr d).toNat = d.bits.toNat / 2 ^ sr.cut % 2 ^ 24 := by
  rw [scaled, Sr.cut, Accu.toNat_bits]
  cases sr.s1 <;> cases sr.s0 <;> simp only [BitVec.toNat_setWidth, BitVec.toNat_add, BitVec.toNat_shiftLeft,
      BitVec.toNat_ushiftRight, BitVec.toNat_shiftConcat, BitVec.getLsbD, toNat_testBit] <;>
    omega

def Wraps (k : Nat) (d : Int) : Prop :=
  k = 23 ∧ (2 ^ 47 ≤ d ∧ d < 2 ^ 47 + 2 ^ 46 ∨ -2 ^ 47 - 2 ^ 46 ≤ d ∧ d < -2 ^ 47)

def saturated (q : Int) : Int := max (-2 ^ 23) (min q (2 ^ 23 - 1))

theorem cut_cases (sr : Sr) : sr.cut = 23 ∨ sr.cut = 24 ∨ sr.cut = 25 := by
  rw [Sr.cut]
  split <;> decide

theorem toInt_low (d : Accu) : ∃ low < 2 ^ 48, d.bits.toNat = d.reg0.toNat * 2 ^ 48 + low ∧
    d.bits.toInt = d.reg0.toNat * 2 ^ 48 + low - 2 ^ 56 * (d.reg0.toNat / 128 : Nat) := by
  refine ⟨d.reg1.toNat * 2 ^ 24 + d.reg2.toNat, by omega, ?_, ?_⟩
  · rw [d.toNat_bits, add_assoc]
  · rw [toInt_eq, d.toNat_bits]
    omega

section

variable {sr : Sr} {d : Accu} {k : Nat} (hk : sr.cut = k)
include hk

theorem saturated_iff (hin : InRange sr d) :
    (saturated (d.bits.toInt / 2 ^ k) = d.bits.toInt / 2 ^ k ↔ ¬Wraps k d.bits.toInt) ∧
      (¬Wraps k d.bits.toInt → scaled sr d = BitVec.ofInt 24 (d.bits.toInt / 2 ^ k)) := by
  rw [← BitVec.toNat_inj, BitVec.toNat_ofInt]
  obtain ⟨low, hlow, hbits, hd⟩ := toInt_low d
  have hv := toNat_scaled sr d
  rw [InRange] at hin
  unfold Wraps saturated
  rw [hbits, hk] at hv
  have hcut := hk ▸ cut_cases sr
  rcases hin with ⟨h, hin⟩ | ⟨h, hin⟩ <;> rw [h] at hd hv <;> rcases hcut with rfl | rfl | rfl <;> omega

theorem saturated_limit (hout : ¬InRange sr d) :
    saturated (d.bits.toInt / 2 ^ k) = (if d.reg0.msb then -2 ^ 23 else 2 ^ 23 - 1) ∧
      saturated (d.bits.toInt / 2 ^ k) ≠ d.bits.toInt / 2 ^ k ∧ ¬Wraps k d.bits.toInt := by
  obtain ⟨low, hlow, hbits, hd⟩ := toInt_low d
  have hv := toNat_scaled sr d
  rw [InRange] at hout
  unfold Wraps saturated
  rw [hk] at hv
  simp only [BitVec.msb_eq_decide, decide_eq_true_eq]
  have hcut := hk ▸ cut_cases sr
  rcases hcut with rfl | rfl | rfl <;> split <;> omega

end

/-- The operand is the saturated quotient and `L` tells of the saturation, unless the scaling has
shifted the bit out that tells them apart. -/
theorem emuPmReadAccu24_iff (dsp : Core) (r : AccuReg) :
    let d := (dsp.accu r).bits.toInt
    let q := d / 2 ^ dsp.sr.cut
    let (value, after, gotLimited) := emuPmReadAccu24 dsp r
    (value = BitVec.ofInt 24 (saturated q) ∧ after.sr.l = (dsp.sr.l || gotLimited) ∧
      (gotLimited = true ↔ saturated q ≠ q)) ↔ ¬Wraps dsp.sr.cut d := by
  rw [emuPmReadAccu24]
  by_cases hin : InRange dsp.sr (dsp.accu r)
  · obtain ⟨hq, hvalue⟩ := saturated_iff rfl hin
    rw [if_pos hin]
    refine ⟨fun h => hq.mp (not_not.mp (h.2.2.mpr.mt (by simp))), fun h => ?_⟩
    rw [hq.mpr h]
    exact ⟨hvalue h, (Bool.or_false _).symm, by simp⟩
  · obtain ⟨hsat, hq, hwraps⟩ := saturated_limit rfl hin
    rw [if_neg hin]
    refine iff_of_true ⟨?_, (Bool.or_true _).symm, by simp [hq]⟩ hwraps
    rw [hsat]
    split <;> rfl

/-- Scaling up makes zero of the least value that is too large, and it is not limited. -/
theorem read_wraps :
    let dsp := { Core.holding ⟨0, 0x800000, 0⟩ with sr := { (default : Sr) with s1 := true } }
    let (value, after, _) := emuPmReadAccu24 dsp .a
    value = 0 ∧ after.sr.l = false ∧
      saturated ((dsp.accu .a).bits.toInt / 2 ^ dsp.sr.cut) = 2 ^ 23 - 1 := by
  decide

/-- The registers of an accumulator as the code has them. -/
structure Words where
  (reg0 reg1 reg2 : Uint32)
deriving DecidableEq

def Accu.words (d : Accu) : Words := ⟨d.reg0.setWidth 32, d.reg1.setWidth 32, d.reg2.setWidth 32⟩

/-- The outer words change places, and `reg0` may be left with more than eight bits. -/
def Words.exchange (w : Words) : Words := ⟨w.reg2, w.reg1, w.reg0⟩

def emuMax (dsp : Core) : (AccuReg → Words) × Sr :=
  let dest := (dspSub56 (dsp.accu .b) (dsp.accu .a)).1
  let pass := dest.reg0.msb || dest == ⟨0, 0, 0⟩
  let words r := (dsp.accu r).words
  (if pass then update words .b (words .a).exchange else words, { dsp.sr with c := pass })

theorem bits_eq_zero_iff (d : Accu) : d = ⟨0, 0, 0⟩ ↔ d.bits = 0 := by
  refine ⟨fun hd => hd ▸ rfl, fun hbits => ?_⟩
  have hzero := congrArg BitVec.toNat hbits
  obtain ⟨d0, d1, d2⟩ := d
  rw [Accu.toNat_bits] at hzero
  simp only [Accu.mk.injEq, ← BitVec.toNat_inj]
  simp at hzero ⊢
  omega

theorem ofWords_words (d : Accu) : .ofWords d.words.reg0 d.words.reg1 d.words.reg2 = d := by
  simp [Accu.ofWords, Accu.words]

theorem emuMax_pass (a b : Accu) :
    let dest := (dspSub56 b a).1
    let x := a.bits.toInt
    let y := b.bits.toInt
    (dest.reg0.msb || dest == ⟨0, 0, 0⟩) = true ↔ ¬x + 2 ^ 55 < y ∧ ¬(y < x ∧ x < y + 2 ^ 55) := by
  intro dest x y
  rw [Bool.or_eq_true, beq_iff_eq, bits_eq_zero_iff, ← Accu.msb_bits, dspSub56_bits,
    BitVec.msb_eq_toInt, decide_eq_true_eq, ← BitVec.toInt_inj, BitVec.toInt_sub]
  have hx := a.bits.toInt_lt
  have hx' := a.bits.le_toInt
  have hy := b.bits.toInt_lt
  have hy' := b.bits.le_toInt
  simp only [x, y, Int.bmod_def, BitVec.ofNat_eq_ofNat, BitVec.toInt_zero]
  split <;> omega

/-- `MAX A,B` leaves the larger in `B` only where `B` is larger by so much that the difference
wraps, or where the exchanged words of `A` are those of the larger. -/
theorem emuMax_iff (dsp : Core) :
    let a := dsp.accu .a
    let b := dsp.accu .b
    let x := a.bits.toInt
    let y := b.bits.toInt
    let larger := if x ≤ y then b else a
    let after := (emuMax dsp).1
    after .a = a.words ∧ after .b = larger.words ↔
      x + 2 ^ 55 < y ∨ ¬(y < x ∧ x < y + 2 ^ 55) ∧ larger.words = a.words.exchange := by
  intro a b x y larger after
  have hpass := emuMax_pass a b
  by_cases hp : ((dspSub56 b a).1.reg0.msb || (dspSub56 b a).1 == ⟨0, 0, 0⟩) = true
  · have hafter : after = update (fun r => (dsp.accu r).words) .b a.words.exchange := if_pos hp
    have hsmall := hpass.mp hp
    rw [hafter, update_self, update_of_ne (by decide)]
    exact ⟨fun h => .inr ⟨hsmall.2, h.2.symm⟩, fun h => ⟨rfl, (h.resolve_left hsmall.1).2.symm⟩⟩
  · have hafter : after = fun r => (dsp.accu r).words := if_neg hp
    have hstays := mt hpass.mpr hp
    rw [hafter]
    by_cases hle : x ≤ y
    · have hfar : x + 2 ^ 55 < y := by omega
      exact iff_of_true ⟨rfl, congrArg Accu.words (if_pos hle).symm⟩ (.inl hfar)
    · refine iff_of_false (fun h => ?_) (by omega)
      have hsame : b.words = a.words := h.2.trans (congrArg Accu.words (if_neg hle))
      have hbits : b = a := by rw [← ofWords_words b, hsame, ofWords_words]
      exact hle (congrArg (·.bits.toInt) hbits.symm).le

/-- `B` keeps 0 beside 1 in `A`, and with 0 in `A` it loses a 1 of its own. -/
theorem emuMax_keeps_smaller :
    (emuMax ⟨fun r => ⟨0, 0, if r = .a then 1 else 0⟩, fun _ => 0, default⟩).1 .b = ⟨0, 0, 0⟩ ∧
    (emuMax ⟨fun r => ⟨0, 0, if r = .a then 0 else 1⟩, fun _ => 0, default⟩).1 .b = ⟨0, 0, 0⟩ := by
  decide

end XogMobile.Apu.Dsp.Alu
