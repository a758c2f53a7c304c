import Mathlib.Data.List.Basic
import Mathlib.Algebra.Group.Nat.Defs

/-!
# Bytes in memory

A memory is a function from addresses to bytes. Blocks are read and written as lists of bytes, and
numbers are stored little endian.
-/

namespace XogMobile.Lib

abbrev Byte := BitVec 8

/-- The `n` bytes from address `a` on. -/
def readBytes (m : Nat → Byte) (a n : Nat) : List Byte := (List.range n).map fun i => m (a + i)

def writeBytes (m : Nat → Byte) (a : Nat) (bs : List Byte) : Nat → Byte := fun x =>
  if a ≤ x then bs[x - a]?.getD (m x) else m x

section

variable {m : Nat → Byte} {a b n : Nat} {bs : List Byte}

@[simp] theorem length_readBytes : (readBytes m a n).length = n := by
  simp [readBytes]

theorem writeBytes_of_lt {x : Nat} (h : x < a) : writeBytes m a bs x = m x := by
  rw [writeBytes, if_neg (by omega)]

theorem writeBytes_of_ge {x : Nat} (h : a + bs.length ≤ x) : writeBytes m a bs x = m x := by
  rw [writeBytes, if_pos (by omega), List.getElem?_eq_none (by omega), Option.getD_none]

theorem readBytes_congr {m' : Nat → Byte} (h : ∀ i < n, m (a + i) = m' (a + i)) :
    readBytes m a n = readBytes m' a n := by
  apply List.map_congr_left
  intro i hi
  exact h i (List.mem_range.mp hi)

theorem readBytes_writeBytes : readBytes (writeBytes m a bs) a bs.length = bs := by
  apply List.ext_getElem
  · simp
  · intro i _ hi
    simp [readBytes, writeBytes, hi]

theorem readBytes_writeBytes_of_le (h : b + n ≤ a) : readBytes (writeBytes m a bs) b n = readBytes m b n := by
  apply readBytes_congr
  intro i hi
  exact writeBytes_of_lt (by omega)

theorem readBytes_writeBytes_of_ge (h : a + bs.length ≤ b) : readBytes (writeBytes m a bs) b n = readBytes m b n := by
  apply readBytes_congr
  intro i hi
  exact writeBytes_of_ge (by omega)

theorem readBytes_append (k : Nat) : readBytes m a (n + k) = readBytes m a n ++ readBytes m (a + n) k := by
  simp [readBytes, List.range_add, Nat.add_assoc]

end

/-- The `n` low bytes of a number, the lowest first. -/
def leBytes : Nat → Nat → List Byte
  | 0, _ => []
  | n + 1, v => BitVec.ofNat 8 v :: leBytes n (v / 256)

def leNat : List Byte → Nat
  | [] => 0
  | b :: bs => b.toNat + 256 * leNat bs

@[simp] theorem length_leBytes (n v : Nat) : (leBytes n v).length = n := by
  induction n generalizing v with
  | zero => rfl
  | succ n ih => rw [leBytes, List.length_cons, ih]

theorem leNat_leBytes (n v : Nat) : leNat (leBytes n v) = v % 256 ^ n := by
  induction n generalizing v with
  | zero => simp [leBytes, leNat, Nat.mod_one]
  | succ n ih =>
    have hsplit : v % 256 ^ (n + 1) = v % 256 + 256 * (v / 256 % 256 ^ n) := by
      rw [Nat.pow_succ', Nat.mod_mul]
    simp only [leBytes, leNat, ih, BitVec.toNat_ofNat, hsplit]

theorem ofNat_leNat_leBytes (n : Nat) (v : BitVec (8 * n)) : BitVec.ofNat (8 * n) (leNat (leBytes n v.toNat)) = v := by
  have hpow : 256 ^ n = 2 ^ (8 * n) := by
    rw [Nat.pow_mul]
  rw [leNat_leBytes, hpow, Nat.mod_eq_of_lt v.isLt, BitVec.ofNat_toNat, BitVec.setWidth_eq]

theorem leBytes_leNat (bs : List Byte) : leNat bs < 256 ^ bs.length ∧ leBytes bs.length (leNat bs) = bs := by
  induction bs with
  | nil => exact ⟨Nat.one_pos, rfl⟩
  | cons b bs ih =>
    have hlow : b.toNat < 256 := b.isLt
    have hrest : (b.toNat + 256 * leNat bs) / 256 = leNat bs := by omega
    have hhead : BitVec.ofNat 8 (b.toNat + 256 * leNat bs) = b := BitVec.eq_of_toNat_eq (by simp; omega)
    rw [List.length_cons, leBytes, leNat, hrest, hhead, ih.2, Nat.pow_succ']
    exact ⟨by omega, rfl⟩

theorem leBytes_ofNat_leNat {w : Nat} (bs : List Byte) (h : w = 8 * bs.length) :
    leBytes bs.length (BitVec.ofNat w (leNat bs)).toNat = bs := by
  have hpow : 2 ^ w = 256 ^ bs.length := by rw [h, Nat.pow_mul]
  rw [BitVec.toNat_ofNat, hpow, Nat.mod_eq_of_lt (leBytes_leNat bs).1, (leBytes_leNat bs).2]

end XogMobile.Lib
