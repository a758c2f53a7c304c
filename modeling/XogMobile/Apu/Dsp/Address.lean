import XogMobile.Lib.Mask
import XogMobile.Lib.Run
import Mathlib.Data.Nat.Log

/-!
# Address registers of the DSP

The updates of an address register `Rn` by `emu_update_rn`: linear, with reverse carry and modulo,
as the modifier register `Mn` says, and the addressing modes that use them. Reverse carry is an
increment between two reversals of the low bits, so its steps are those of a counter. The modulo
update compares a signed address with unsigned bounds, which are wrong in the upper half of the
address space.
-/

namespace XogMobile.Apu.Dsp.Address

open Lib BitVec

abbrev Uint32 := BitVec 32

structure AddressRegs where
  r : Uint32
  (n m : BitVec 16)
deriving DecidableEq

def bitmask (k : Nat) : Uint32 := 1 <<< k - 1

/-- The loop that reverses the low `k` bits of `r`, after `i` rounds. The bits above are kept. -/
def reverseLow (k : Nat) (r : Uint32) : Nat → Uint32
  | 0 => r &&& (bitmask 16 - bitmask k)
  | i + 1 =>
    if r.getLsbD i then reverseLow k r i ||| BitVec.twoPow 32 (k - i - 1) else reverseLow k r i

/-- One more than the number of zeros below the lowest bit that is set. -/
def revbits (n : BitVec 16) : Nat := ((List.range 16).find? fun i => n.getLsbD i).getD 16 + 1

def emuUpdateRnBitreverse (a : AddressRegs) : AddressRegs :=
  let k := revbits a.n
  let value := (reverseLow k a.r k + 1) &&& bitmask k
  let r := a.r &&& (bitmask 16 - bitmask k) ||| value
  { a with r := reverseLow k r k }

def bufLoop (modulo : BitVec 16) : Nat → BitVec 16 × BitVec 16 → BitVec 16 × BitVec 16
  | 0, buf => buf
  | fuel + 1, (bufsize, bufmask) =>
    if bufsize < modulo then bufLoop modulo fuel (bufsize <<< 1, bufmask <<< 1)
    else (bufsize, bufmask)

def skipLoop (bufsize : BitVec 16) : Nat → BitVec 16 × BitVec 16 → BitVec 16 × BitVec 16
  | 0, regs => regs
  | fuel + 1, (rReg, modifier) =>
    if modifier.toInt > bufsize.toNat then
      skipLoop bufsize fuel (rReg + bufsize, modifier - bufsize)
    else (rReg, modifier)

def emuUpdateRnModulo (a : AddressRegs) (modifier : BitVec 16) : AddressRegs :=
  let modulo := a.m + 1
  let (bufsize, bufmask) := bufLoop modulo 16 (1, 0xffff)
  let lobound := a.r.setWidth 16 &&& bufmask
  let hibound := lobound + modulo - 1
  -- a modifier above `modulo` is positive, so that the loop for negative ones is not entered
  let (rReg, rest) :=
    if modifier.toInt > modulo.toNat then
      skipLoop bufsize modifier.toNat (a.r.setWidth 16, modifier)
    else (a.r.setWidth 16, modifier)
  let rReg := rReg + rest
  let rReg :=
    if modifier.toInt ≠ modulo.toNat then
      if rReg.toInt > hibound.toNat then rReg - modulo
      else if rReg.toInt < lobound.toNat then rReg + modulo
      else rReg
    else rReg
  { a with r := rReg.setWidth 32 }

def emuUpdateRn (a : AddressRegs) (modifier : BitVec 16) : AddressRegs :=
  if a.m = 65535 then { a with r := (a.r.setWidth 16 + modifier).setWidth 32 }
  else if a.m = 0 then emuUpdateRnBitreverse a
  else if a.m.toNat ≤ 32767 then emuUpdateRnModulo a modifier
  else a

inductive EaMode
  | minusN
  | plusN
  | decrement
  | increment
  | plain
  | indexed
  | immediate
  | preDecrement

/-- The address and the registers after the access. `word` is the second word of the instruction. -/
def emuCalcEa (a : AddressRegs) (word : Uint32) : EaMode → Uint32 × AddressRegs
  | .minusN => (a.r, emuUpdateRn a (-a.n))
  | .plusN => (a.r, emuUpdateRn a a.n)
  | .decrement => (a.r, emuUpdateRn a (-1))
  | .increment => (a.r, emuUpdateRn a 1)
  | .plain => (a.r, a)
  | .indexed => ((emuUpdateRn a a.n).r, a)
  | .immediate => (word, a)
  | .preDecrement => ((emuUpdateRn a (-1)).r, emuUpdateRn a (-1))

theorem reverseLow_getLsbD {k : Nat} (hk : k ≤ 32) (r : Uint32) (j : Nat) {i : Nat} (hi : i ≤ k) :
    (reverseLow k r i).getLsbD j = ((r &&& (bitmask 16 - bitmask k)).getLsbD j ||
      (decide (j < k ∧ k ≤ i + j) && r.getLsbD (k - 1 - j))) := by
  induction i with
  | zero => grind [reverseLow]
  | succ i ih =>
    rw [reverseLow]
    split <;> grind

theorem bitmask_getLsbD : ∀ k : Fin 18, ∀ j : Fin 32, (bitmask k).getLsbD j = decide (j.val < k) := by
  decide

theorem high_getLsbD : ∀ k : Fin 17, ∀ j : Fin 32,
    (bitmask 16 - bitmask k).getLsbD j = decide (k.val ≤ j ∧ j.val < 16) := by
  decide

theorem emuUpdateRn_zero (r : Uint32) (n modifier : BitVec 16) :
    emuUpdateRn ⟨r, n, 0⟩ modifier = emuUpdateRnBitreverse ⟨r, n, 0⟩ := by
  rw [emuUpdateRn, if_neg (show (0 : BitVec 16) ≠ 65535 by decide), if_pos rfl]

def place {k : Nat} (r : Uint32) (x : BitVec k) : Uint32 :=
  r &&& (bitmask 16 - bitmask k) ||| x.setWidth 32

section

variable {k : Nat} (hk : k ≤ 16) (r : Uint32) (x : BitVec k)
include hk

theorem place_getLsbD {j : Nat} (hj : j < 32) :
    (place r x).getLsbD j = if j < k then x.getLsbD j else decide (j < 16) && r.getLsbD j := by
  have := high_getLsbD ⟨k, by omega⟩ ⟨j, hj⟩
  grind [place, getLsbD_setWidth]

theorem reverseLow_place : reverseLow k (place r x) k = place r x.reverse := by
  ext j hj
  have := high_getLsbD ⟨k, by omega⟩ ⟨j, hj⟩
  have := place_getLsbD hk r x (j := k - 1 - j) (by omega)
  rw [← getLsbD_eq_getElem, ← getLsbD_eq_getElem,
    reverseLow_getLsbD (by omega) _ _ le_rfl, place_getLsbD hk _ _ hj, getLsbD_and,
    place_getLsbD hk _ _ hj]
  grind [getMsbD]

theorem setWidth_place : (place r x).setWidth k = x := by
  ext j hj
  have := place_getLsbD hk r x (j := j) (by omega)
  grind

theorem place_and_high : place r x &&& (bitmask 16 - bitmask k) = r &&& (bitmask 16 - bitmask k) := by
  ext j hj
  have := place_getLsbD hk r x hj
  have := high_getLsbD ⟨k, by omega⟩ ⟨j, hj⟩
  grind

theorem and_bitmask : r &&& bitmask k = (r.setWidth k).setWidth 32 := by
  ext j hj
  have := bitmask_getLsbD ⟨k, by omega⟩ ⟨j, hj⟩
  grind

theorem place_lt : (place r x).toNat < 2 ^ 16 := by
  have hlow : place r x = ((place r x).setWidth 16).setWidth 32 := by
    ext j hj
    have := place_getLsbD hk r x hj
    grind
  rw [hlow, toNat_setWidth]
  exact Nat.lt_of_le_of_lt (Nat.mod_le _ _) (isLt _)

variable {n : BitVec 16} (hn : revbits n = k) (modifier : BitVec 16)
include hn

theorem emuUpdateRn_place : emuUpdateRn ⟨place r x, n, 0⟩ modifier = ⟨place r (x.reverse + 1).reverse, n, 0⟩ := by
  have hvalue : (place r x.reverse + 1) &&& bitmask k = (x.reverse + 1).setWidth 32 := by
    rw [and_bitmask hk, setWidth_add _ _ (by omega), setWidth_place hk]
    congr 2
    exact eq_of_toNat_eq (by simp)
  rw [emuUpdateRn_zero]
  simp only [emuUpdateRnBitreverse, hn, reverseLow_place hk, hvalue, place_and_high hk]
  rw [← place, reverseLow_place hk]

theorem iterate_place (i : Nat) : (emuUpdateRn · modifier)^[i] ⟨place r x, n, 0⟩ =
    ⟨place r (x.reverse + BitVec.ofNat k i).reverse, n, 0⟩ := by
  induction i with
  | zero => simp
  | succ i ih =>
    rw [Function.iterate_succ_apply', ih, emuUpdateRn_place hk r _ hn, reverse_reverse_eq, add_assoc, ofNat_add]
    rfl

end

theorem setWidth_eq_place {k : Nat} (hk : k ≤ 16) {R b : BitVec 16} (h : b >>> k = R >>> k) :
    b.setWidth 32 = place (R.setWidth 32) (b.setWidth k) := by
  ext j hj
  have hplace := place_getLsbD hk (R.setWidth 32) (b.setWidth k) hj
  have hbit : (b >>> k).getLsbD (j - k) = (R >>> k).getLsbD (j - k) := by rw [h]
  grind

theorem revbits_twoPow : ∀ k : Fin 16, revbits (BitVec.twoPow 16 k) = k + 1 := by decide

theorem revbits_le {n : BitVec 16} (hn : n ≠ 0) : revbits n ≤ 16 := by
  rw [revbits]
  cases hfind : (List.range 16).find? fun i => n.getLsbD i with
  | none =>
    refine absurd (eq_of_getLsbD_eq fun i hi => ?_) hn
    simpa using List.find?_eq_none.mp hfind i (List.mem_range.mpr hi)
  | some i => exact List.mem_range.mp (List.mem_of_find?_eq_some hfind)

theorem bit_sixteen (r : BitVec 16) : (emuUpdateRnBitreverse ⟨r.setWidth 32, 0, 0⟩).r.getLsbD 16 = true := by
  have hbits : revbits 0 = 17 := by decide
  have hhigh : (bitmask 16 - bitmask 17).getLsbD 0 = false := by decide
  have hlow : (bitmask 17).getLsbD 0 = true := by decide
  have heven : (reverseLow 17 (r.setWidth 32) 17).getLsbD 0 = false := by
    rw [reverseLow_getLsbD (by decide) _ _ le_rfl]
    grind
  have hodd : (reverseLow 17 (r.setWidth 32) 17 + 1).getLsbD 0 = true := by
    rw [getLsbD_add (by decide), heven, carry_zero]
    rfl
  simp only [emuUpdateRnBitreverse, hbits]
  rw [reverseLow_getLsbD (by decide) _ _ le_rfl]
  grind

/-- The updates with reverse carry run through a block of addresses and come back, and an update
leaves a 16-bit address exactly if there is a bit set in `N`. -/
theorem emuUpdateRn_bitreverse_iff (k : Fin 16) (R modifier : BitVec 16) :
    let a : AddressRegs := ⟨R.setWidth 32, twoPow 16 k, 0⟩
    ((∀ b : BitVec 16, b >>> (k.val + 1) = R >>> (k.val + 1) →
      ∃! i, i < 2 ^ (k.val + 1) ∧ ((emuUpdateRn · modifier)^[i] a).r = b.setWidth 32) ∧
    (emuUpdateRn · modifier)^[2 ^ (k.val + 1)] a = a) ∧
    ∀ n, (emuUpdateRn ⟨R.setWidth 32, n, 0⟩ modifier).r.toNat < 2 ^ 16 ↔ n ≠ 0 := by
  have hk : k.val + 1 ≤ 16 := by omega
  have hn := revbits_twoPow k
  refine ⟨?_, fun n => ⟨?_, fun hne => ?_⟩⟩
  · rw [setWidth_eq_place hk (rfl : R >>> (k.val + 1) = _)]
    refine ⟨fun b hb => ?_, ?_⟩
    · rw [setWidth_eq_place hk hb]
      refine ⟨((b.setWidth _).reverse - (R.setWidth _).reverse).toNat, ⟨isLt _, ?_⟩, ?_⟩
      · rw [iterate_place hk _ _ hn, ofNat_toNat, setWidth_eq, BitVec.add_comm,
          sub_add_cancel, reverse_reverse_eq]
      · intro i ⟨hi, heq⟩
        rw [iterate_place hk _ _ hn] at heq
        have hlow := congrArg (reverse ∘ setWidth (k.val + 1)) heq
        simp only [Function.comp_apply, setWidth_place hk, reverse_reverse_eq] at hlow
        rw [← hlow, BitVec.add_comm, add_sub_cancel, toNat_ofNat, Nat.mod_eq_of_lt hi]
    · have hzero : BitVec.ofNat (k.val + 1) (2 ^ (k.val + 1)) = 0#(k.val + 1) :=
        eq_of_toNat_eq (Nat.mod_self _)
      rw [iterate_place hk _ _ hn, hzero, BitVec.add_zero, reverse_reverse_eq]
  · rintro hlt rfl
    exact absurd (Nat.ge_two_pow_of_testBit (bit_sixteen R)) (Nat.not_le.mpr hlt)
  · have hle := revbits_le hne
    rw [setWidth_eq_place hle (rfl : R >>> revbits n = _), emuUpdateRn_place hle _ _ rfl]
    exact place_lt hle _ _

/-- With no bit set in `N` the carry goes into bit 16. -/
theorem reverse_carry_out : (emuUpdateRn ⟨0, 0, 0⟩ 0).r.toNat = 2 ^ 16 := by decide

def buffer (r m : BitVec 16) : Nat :=
  r.toNat / 2 ^ Nat.clog 2 (m.toNat + 1) * 2 ^ Nat.clog 2 (m.toNat + 1)

theorem bufLoop_eq {modulo : BitVec 16} (fuel : Nat) {i j : Nat} (hj : Nat.clog 2 modulo.toNat = j)
    (hlt : j < 16) (hi : i ≤ j) (hfuel : j ≤ i + fuel) :
    bufLoop modulo fuel (BitVec.twoPow 16 i, BitVec.allOnes 16 <<< i) =
      (BitVec.twoPow 16 j, BitVec.allOnes 16 <<< j) := by
  induction fuel generalizing i with
  | zero => rw [bufLoop, show i = j by omega]
  | succ fuel ih =>
    have hclog : j ≤ i ↔ modulo.toNat ≤ 2 ^ i := hj ▸ Nat.clog_le_iff_le_pow (by decide)
    have hpow : (twoPow 16 i).toNat = 2 ^ i := toNat_twoPow_of_lt (by omega)
    simp only [bufLoop, lt_def, hpow]
    split
    case isTrue h =>
      rw [twoPow_eq, ← shiftLeft_add, ← shiftLeft_add, ← twoPow_eq]
      exact ih (by omega) (by omega)
    case isFalse h => rw [show i = j by omega]

theorem emod_cases {t m : Int} (hlow : -m ≤ t) (hhigh : t ≤ 2 * m) :
    t % (m + 1) = if t < 0 then t + (m + 1) else if t ≤ m then t else t - (m + 1) := by
  split
  · rw [← Int.add_emod_right, Int.emod_eq_of_lt (by omega) (by omega)]
  split
  · exact Int.emod_eq_of_lt (by omega) (by omega)
  · rw [← Int.sub_emod_right, Int.emod_eq_of_lt (by omega) (by omega)]

theorem buffer_half (r : BitVec 16) {m : BitVec 16} (hm : m.toNat ≤ 32767) :
    buffer r m ≤ r.toNat ∧ buffer r m + m.toNat < 65536 ∧ (r.toNat < 32768 → buffer r m + m.toNat < 32768) ∧
      (32768 ≤ r.toNat → 32768 ≤ buffer r m) := by
  have hfits := Nat.le_pow_clog (b := 2) (by decide) (m.toNat + 1)
  obtain ⟨q, hq⟩ : 2 ^ Nat.clog 2 (m.toNat + 1) ∣ 2 ^ 15 :=
    Nat.pow_dvd_pow 2 ((Nat.clog_le_iff_le_pow (by decide)).mpr (by omega))
  unfold buffer
  generalize 2 ^ Nat.clog 2 (m.toNat + 1) = p at *
  have hp : 0 < p := by omega
  have hmul := Nat.div_mul_le_self r.toNat p
  have hnext : ∀ k, r.toNat < k * p → r.toNat / p * p + p ≤ k * p := fun k hk => by
    rw [← Nat.succ_mul]
    exact Nat.mul_le_mul_right p ((Nat.div_lt_iff_lt_mul hp).mpr hk)
  have hlow := hnext q
  have hfull := hnext (2 * q) (by rw [Nat.mul_assoc, Nat.mul_comm q, ← hq]; omega)
  rw [Nat.mul_assoc, Nat.mul_comm q, ← hq] at hfull
  rw [Nat.mul_comm q, ← hq] at hlow
  refine ⟨hmul, by omega, by omega, fun h => ?_⟩
  rw [show 32768 = q * p by rw [Nat.mul_comm, ← hq]] at h ⊢
  exact Nat.mul_le_mul_right p ((Nat.le_div_iff_mul_le hp).mpr h)

/-- Where the signed comparisons of the code come out right: below the middle of the address space,
and beyond it where the buffer is left at its start. -/
def Safe (r m : BitVec 16) (offset : Int) : Prop :=
  r.toNat + offset < 32768 ∨ r.toNat + offset < buffer r m ∨
    m.toNat = 32767 ∧ buffer r m + m.toNat < r.toNat + offset

section

variable {m : BitVec 16} {offset : Int} (hm : 1 ≤ m.toNat ∧ m.toNat ≤ 32767)
  (hoffset : offset.natAbs ≤ m.toNat)
include hm hoffset

theorem emuUpdateRn_eq_iff {r n : BitVec 16} (hr : r.toNat ≤ buffer r m + m.toNat) :
    (((emuUpdateRn ⟨r.setWidth 32, n, m⟩ (BitVec.ofInt 16 offset)).r.toNat : Int) =
      buffer r m + (r.toNat - buffer r m + offset) % (m.toNat + 1)) ↔ Safe r m offset := by
  unfold Safe
  obtain ⟨hle, hfit, hlow, hhigh⟩ := buffer_half r hm.2
  have hmodulo : (m + 1).toNat = m.toNat + 1 := by
    exact Nat.mod_eq_of_lt (show m.toNat + 1 < 2 ^ 16 by omega)
  have hclog : Nat.clog 2 (m.toNat + 1) < 16 :=
    Nat.lt_succ_iff.mpr ((Nat.clog_le_iff_le_pow (by decide)).mpr (by omega))
  have hloop : bufLoop (m + 1) 16 (1, 0xffff) = _ :=
    bufLoop_eq (i := 0) 16 (congrArg _ hmodulo) hclog (Nat.zero_le _) (by omega)
  have hlo : (r &&& allOnes 16 <<< Nat.clog 2 (m.toNat + 1)).toNat = buffer r m := toNat_and_high r _
  have hint : (BitVec.ofInt 16 offset).toInt = offset := toInt_ofInt_eq_self (by decide) (by omega) (by omega)
  have hne : m ≠ 65535 ∧ m ≠ 0 := by
    constructor <;> rintro rfl <;> revert hm <;> decide
  have hbig : ¬offset > (m.toNat + 1 : Nat) := by omega
  have hother : offset ≠ (m.toNat + 1 : Nat) := by omega
  have hwide : (r.setWidth 32).setWidth 16 = r := by simp
  rw [emuUpdateRn, if_neg hne.1, if_neg hne.2, if_pos hm.2, emuUpdateRnModulo]
  simp only [hloop, hint, hmodulo, if_neg hbig, if_pos hother, hwide]
  generalize r &&& allOnes 16 <<< Nat.clog 2 (m.toNat + 1) = lobound at hlo ⊢
  have hhi : (lobound + (m + 1) - 1).toNat = buffer r m + m.toNat := by
    rw [toNat_sub, toNat_add, hmodulo, hlo, show (1 : BitVec 16).toNat = 1 from rfl]
    omega
  have hx : (r + BitVec.ofInt 16 offset).toNat = ((r.toNat + offset) % 65536).toNat := by
    rw [toNat_add, toNat_ofInt]
    omega
  have hsigned := toInt_eq_toNat_cond (r + BitVec.ofInt 16 offset)
  rw [emod_cases (by omega) (by omega), hhi, hlo, hsigned, hx]
  -- what is rewritten already would only be split again in every case
  have hbounds : -(m.toNat : Int) ≤ offset ∧ offset ≤ m.toNat := by omega
  clear hoffset hclog hint hbig hother hhi hx hsigned
  split_ifs <;> simp only [toNat_setWidth, toNat_add, toNat_sub, toNat_ofInt, hmodulo] <;> omega

/-- The address is in the buffer at `lo`. -/
structure InBuffer (lo : Nat) (m : BitVec 16) (a : AddressRegs) : Prop where
  modifier : a.m = m
  address : ∃ r : BitVec 16, a.r = r.setWidth 32 ∧ buffer r m = lo ∧ r.toNat ≤ lo + m.toNat

omit hm hoffset in
theorem emuUpdateRn_m (a : AddressRegs) (modifier : BitVec 16) : (emuUpdateRn a modifier).m = a.m := by
  unfold emuUpdateRn
  split_ifs <;> rfl

omit hm hoffset in
theorem buffer_eq {r r' : BitVec 16} (hle : buffer r m ≤ r'.toNat)
    (hlt : r'.toNat ≤ buffer r m + m.toNat) : buffer r' m = buffer r m := by
  have hfits := Nat.le_pow_clog (b := 2) (by decide) (m.toNat + 1)
  rw [buffer] at hle hlt
  rw [buffer, Nat.div_eq_of_lt_le hle (by rw [Nat.succ_mul]; omega)]
  rfl

theorem InBuffer.update {lo : Nat} {a : AddressRegs} (h : InBuffer lo m a) (hsafe : Safe (a.r.setWidth 16) m offset) :
    InBuffer lo m (emuUpdateRn a (BitVec.ofInt 16 offset)) := by
  obtain ⟨_, n, k⟩ := a
  obtain ⟨rfl, r, rfl, rfl, hr⟩ := h
  rw [show (r.setWidth 32).setWidth 16 = r by simp] at hsafe
  have heq := (emuUpdateRn_eq_iff (n := n) hm hoffset hr).mpr hsafe
  have hpos : (0 : Int) < k.toNat + 1 := by omega
  have hnonneg := Int.emod_nonneg (r.toNat - buffer r k + offset) hpos.ne'
  have hlt := Int.emod_lt_of_pos (r.toNat - buffer r k + offset) hpos
  have hfit := (buffer_half r hm.2).2.1
  have hkept := emuUpdateRn_m ⟨r.setWidth 32, n, k⟩ (BitVec.ofInt 16 offset)
  generalize emuUpdateRn ⟨r.setWidth 32, n, k⟩ (BitVec.ofInt 16 offset) = a' at *
  dsimp only at *
  have hlow : (a'.r.setWidth 16).toNat = a'.r.toNat := by
    rw [toNat_setWidth]
    omega
  refine ⟨hkept, a'.r.setWidth 16, eq_of_toNat_eq ?_, buffer_eq (by omega) (by omega), by omega⟩
  rw [toNat_setWidth, hlow]
  omega

end

def EaMode.offset (n : BitVec 16) : EaMode → Int
  | .minusN => -n.toInt
  | .plusN | .indexed => n.toInt
  | .decrement | .preDecrement => -1
  | .increment => 1
  | .plain | .immediate => 0

/-- The access moves the address by no more than `m`, and safely. -/
def Allowed (a : AddressRegs) (mode : EaMode) : Prop :=
  (mode.offset a.n).natAbs ≤ a.m.toNat ∧ Safe (a.r.setWidth 16) a.m (mode.offset a.n)

section

variable {lo : Nat} {m : BitVec 16} {a : AddressRegs} (hm : 1 ≤ m.toNat ∧ m.toNat ≤ 32767)
  (h : InBuffer lo m a)
include hm h

theorem InBuffer.bounds : lo ≤ a.r.toNat ∧ a.r.toNat ≤ lo + m.toNat := by
  obtain ⟨-, r, hr, rfl, hle⟩ := h
  rw [hr, toNat_setWidth, Nat.mod_eq_of_lt (Nat.lt_trans r.isLt (by decide))]
  exact ⟨(buffer_half r hm.2).1, hle⟩

theorem emuCalcEa_inBuffer (word : Uint32) {mode : EaMode} (hallowed : Allowed a mode) :
    InBuffer lo m (emuCalcEa a word mode).2 ∧
      (mode ≠ .immediate → InBuffer lo m { a with r := (emuCalcEa a word mode).1 }) := by
  obtain ⟨hoffset, hsafe⟩ := hallowed
  rw [h.modifier] at hoffset hsafe
  have hnext := h.update hm hoffset hsafe
  cases mode
  case minusN =>
    rw [EaMode.offset, ofInt_neg, ofInt_toInt] at hnext
    exact ⟨hnext, fun _ => h⟩
  case plusN =>
    rw [EaMode.offset, ofInt_toInt] at hnext
    exact ⟨hnext, fun _ => h⟩
  case indexed =>
    rw [EaMode.offset, ofInt_toInt] at hnext
    exact ⟨h, fun _ => ⟨h.modifier, hnext.address⟩⟩
  case decrement | increment => exact ⟨hnext, fun _ => h⟩
  case preDecrement => exact ⟨hnext, fun _ => ⟨h.modifier, hnext.address⟩⟩
  case plain => exact ⟨h, fun _ => h⟩
  case immediate => exact ⟨h, fun hne => absurd rfl hne⟩

end

structure ModuloAddress where
  (r m : BitVec 16)
  range : 1 ≤ m.toNat ∧ m.toNat ≤ 32767
  mem : r.toNat ≤ buffer r m + m.toNat

/-- An access after the program has loaded `N` anew. -/
def access (word : Uint32) (a : AddressRegs) (e : BitVec 16 × EaMode) : Option AddressRegs :=
  some (emuCalcEa { a with n := e.1 } word e.2).2

/-- An update leaves the address in the buffer exactly where it is safe, and so do sequences of
accesses that are all safe: they access no address outside the buffer. -/
theorem emuUpdateRn_modulo_iff (x : ModuloAddress) (n : BitVec 16) :
    let lo := buffer x.r x.m
    let start : AddressRegs := ⟨x.r.setWidth 32, n, x.m⟩
    (∀ offset : Int, offset.natAbs ≤ x.m.toNat →
      (((emuUpdateRn start (BitVec.ofInt 16 offset)).r.toNat : Int) =
        lo + (x.r.toNat - lo + offset) % (x.m.toNat + 1) ↔ Safe x.r x.m offset)) ∧
    ∀ word accesses a', Meets (access word) (fun a e => Allowed { a with n := e.1 } e.2) start accesses →
      run (access word) start accesses = some a' →
      (lo ≤ a'.r.toNat ∧ a'.r.toNat ≤ lo + x.m.toNat) ∧
      ∀ n mode, mode ≠ .immediate → Allowed { a' with n } mode →
        lo ≤ (emuCalcEa { a' with n } word mode).1.toNat ∧
          (emuCalcEa { a' with n } word mode).1.toNat ≤ lo + x.m.toNat := by
  refine ⟨fun offset hoffset => emuUpdateRn_eq_iff x.range hoffset x.mem, ?_⟩
  intro word accesses a' hmeets hrun
  have hload {a : AddressRegs} (h : InBuffer (buffer x.r x.m) x.m a) (n : BitVec 16) :
      InBuffer (buffer x.r x.m) x.m { a with n } := ⟨h.modifier, h.address⟩
  have hin : InBuffer (buffer x.r x.m) x.m a' := by
    refine run_invariant_of_meets _ (fun a e a' h hallowed hstep => ?_)
      ⟨rfl, x.r, rfl, rfl, x.mem⟩ hmeets hrun
    cases hstep
    exact (emuCalcEa_inBuffer x.range (hload h e.1) word hallowed).1
  exact ⟨hin.bounds x.range, fun n mode hne hallowed =>
    ((emuCalcEa_inBuffer x.range (hload hin n) word hallowed).2 hne).bounds x.range⟩

/-- A buffer of two words in the upper half of the address space is left at its end. -/
theorem modulo_leaves_buffer :
    buffer 0x8000 1 = 0x8000 ∧ (emuUpdateRn ⟨0x8000, 0, 1⟩ 1).r.toNat = 0x8003 := by
  refine ⟨?_, by decide⟩
  rfl

end XogMobile.Apu.Dsp.Address
