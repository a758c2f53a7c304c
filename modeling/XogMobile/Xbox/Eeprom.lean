import XogMobile.Lib.Bytes
import Mathlib.Algebra.Order.BigOperators.Group.List
import Mathlib.Algebra.Order.Ring.Nat

/-!
# The checksums of the EEPROM

`xbox_eeprom_crc` adds the words of a section in two halves, and adds the halves at the end. The sum
with end-around carry adds every carry back, and the carry of the last addition is dropped here.
-/

namespace XogMobile.Xbox.Eeprom

open Lib Nat List

/-- The complete words of a section. -/
def words : List Byte → List (BitVec 32)
  | a :: b :: c :: d :: bs => .ofNat 32 (leNat [a, b, c, d]) :: words bs
  | _ => []

/-- One round of the loop, on `high` and `low`. -/
def crcStep (acc : BitVec 32 × BitVec 32) (val : BitVec 32) : BitVec 32 × BitVec 32 :=
  let sum : BitVec 64 := acc.1 ++ acc.2
  (((sum + val.setWidth 64) >>> 32).setWidth 32, acc.2 + val)

def xboxEepromCrc (data : List Byte) : BitVec 32 :=
  let acc := (words data).foldl crcStep (0, 0)
  ~~~(acc.1 + acc.2)

/-- A section whose words the loop can count in an `int`. -/
structure Section where
  data : List Byte
  length_lt : data.length / 4 < 2 ^ 31

def Section.words (s : Section) : List Nat := (Eeprom.words s.data).map BitVec.toNat

def endAround (x y : Nat) : Nat := (x + y) % 2 ^ 32 + (x + y) / 2 ^ 32

def endAroundSum (ws : List Nat) : Nat := ws.foldl endAround 0

/-- What the sum with end-around carry is of numbers with a total. -/
def folded (total : Nat) : Nat := if total = 0 then 0 else (total - 1) % (2 ^ 32 - 1) + 1

theorem endAround_folded {t w : Nat} (hw : w < 2 ^ 32) : endAround (folded t) w = folded (t + w) := by
  simp only [endAround, folded]
  split <;> split <;> omega

theorem foldl_endAround {ws : List Nat} (hws : ∀ w ∈ ws, w < 2 ^ 32) (t : Nat) :
    ws.foldl endAround (folded t) = folded (t + ws.sum) := by
  induction ws generalizing t with
  | nil => rfl
  | cons w ws ih =>
    rw [forall_mem_cons] at hws
    rw [foldl_cons, endAround_folded hws.1, ih hws.2, sum_cons, add_assoc]

theorem folded_halves {t s : Nat} (ht : t < 2 ^ 64) (hs : t / 2 ^ 32 + t % 2 ^ 32 = s) :
    folded t = if s < 2 ^ 32 then s else s - (2 ^ 32 - 1) := by
  rw [folded]
  split
  next hzero => simp [← hs, hzero]
  next hpos =>
    rw [show t - 1 = (2 ^ 32 - 1) * (t / 2 ^ 32) + (s - 1) by omega, mul_add_mod]
    split
    · rw [mod_eq_of_lt (by omega)]
      omega
    · rw [mod_eq_sub_mod (by omega), mod_eq_of_lt (by omega)]
      omega

theorem toNat_halves (high low : BitVec 32) : (high ++ low).toNat = 2 ^ 32 * high.toNat + low.toNat := by
  rw [BitVec.toNat_append, shiftLeft_eq, mul_comm, ← two_pow_add_eq_or_of_lt low.isLt]

theorem crcStep_append (acc : BitVec 32 × BitVec 32) (val : BitVec 32) :
    ((crcStep acc val).1 ++ (crcStep acc val).2).toNat = ((acc.1 ++ acc.2).toNat + val.toNat) % 2 ^ 64 := by
  have hhigh : (crcStep acc val).1.toNat = ((acc.1 ++ acc.2).toNat + val.toNat) % 2 ^ 64 / 2 ^ 32 % 2 ^ 32 := by
    simp [crcStep, shiftRight_eq_div_pow, -BitVec.toNat_append]
  have hlow : (crcStep acc val).2.toNat = (acc.2.toNat + val.toNat) % 2 ^ 32 := rfl
  rw [toNat_halves, hhigh, hlow, toNat_halves]
  omega

theorem foldl_crcStep (ws : List (BitVec 32)) (acc : BitVec 32 × BitVec 32) :
    ((ws.foldl crcStep acc).1 ++ (ws.foldl crcStep acc).2).toNat =
      ((acc.1 ++ acc.2).toNat + (ws.map BitVec.toNat).sum) % 2 ^ 64 := by
  induction ws generalizing acc with
  | nil => exact (mod_eq_of_lt (BitVec.isLt _)).symm
  | cons w ws ih =>
    rw [foldl_cons, ih, crcStep_append, mod_add_mod, map_cons, sum_cons, add_assoc]

theorem length_words (data : List Byte) : (words data).length ≤ data.length / 4 := by
  induction data using words.induct with
  | case1 a b c d bs ih =>
    simp only [words, length_cons]
    omega
  | case2 data hshort =>
    rw [words]
    · exact zero_le _
    · exact hshort

theorem Section.sum_lt (s : Section) : s.words.sum < 2 ^ 63 := by
  have hle : s.words.sum ≤ s.words.length * (2 ^ 32 - 1) := by
    refine sum_le_card_nsmul s.words (2 ^ 32 - 1) fun w hw => ?_
    obtain ⟨v, -, rfl⟩ := mem_map.mp hw
    exact le_pred_of_lt v.isLt
  have hlength := length_words s.data
  have hlt := s.length_lt
  rw [Section.words, length_map] at hle
  rw [Section.words]
  omega

/-- The checksum is the complement of the sum with end-around carry, and brings it to all ones, if the
addition of the two halves has no carry. -/
theorem xboxEepromCrc_iff (s : Section) :
    let crc := (xboxEepromCrc s.data).toNat
    let total := s.words.sum
    (crc = 2 ^ 32 - 1 - endAroundSum s.words ∧
      endAroundSum (s.words ++ [crc]) = 2 ^ 32 - 1) ↔
      total / 2 ^ 32 + total % 2 ^ 32 < 2 ^ 32 := by
  intro crc total
  have htotal : total < 2 ^ 63 := s.sum_lt
  have hsum : endAroundSum s.words = folded total := by
    refine (foldl_endAround (fun w hw => ?_) 0).trans (congrArg folded (zero_add _))
    obtain ⟨v, -, rfl⟩ := mem_map.mp hw
    exact v.isLt
  have hcrc : crc = 2 ^ 32 - 1 - (total / 2 ^ 32 + total % 2 ^ 32) % 2 ^ 32 := by
    have hfold := foldl_crcStep (words s.data) (0, 0)
    rw [toNat_halves] at hfold
    simp only [crc, xboxEepromCrc, BitVec.toNat_not, BitVec.toNat_add]
    generalize (words s.data).foldl crcStep (0, 0) = acc at hfold ⊢
    have hlow := acc.2.isLt
    have hzero : ((0 : BitVec 32) ++ (0 : BitVec 32)).toNat = 0 := rfl
    change _ = (_ + total) % _ at hfold
    rw [hzero, zero_add, mod_eq_of_lt (htotal.trans (by decide))] at hfold
    omega
  have hlast : endAroundSum (s.words ++ [crc]) = endAround (folded total) crc := by
    rw [← hsum]
    exact foldl_append
  obtain ⟨halves, hhalves⟩ : ∃ h, total / 2 ^ 32 + total % 2 ^ 32 = h := ⟨_, rfl⟩
  rw [hhalves] at hcrc ⊢
  rw [hlast, hsum, hcrc, endAround, folded_halves (htotal.trans (by decide)) hhalves]
  split <;> omega

/-- A serial section with the digits 0, for which the carry of the last addition is lost. -/
theorem carry_lost :
    let data : List Byte := [0x30, 0x30, 0x30, 0x30, 0x30, 0x30, 0x30, 0x30, 0x30, 0x30, 0x30, 0x30,
      0, 0x50, 0xf2, 0, 0, 0, 0, 0, 0xff, 0xff, 0xff, 0xff, 0x70, 0x1e, 0x3d, 0x6e,
      0, 0, 0, 0, 0, 0, 0, 0, 0, 1, 0x40, 0, 0, 0, 0, 0]
    data.length = 0x2c ∧ xboxEepromCrc data = 0xffffffff ∧
      endAroundSum ((words data).map BitVec.toNat) = 1 := by
  decide

end XogMobile.Xbox.Eeprom
