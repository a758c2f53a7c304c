import XogMobile.Nv2a.PgraphMethod
import XogMobile.Lib.Bytes

/-!
# The hash table of objects

`ramht_lookup` finds the entry of a handle in RAMIN. The hash folds the handle in digits of one bit
less than the size of the table in bytes has, and adds the channel above. An entry takes eight bytes,
so the hash would have to fit two bits less than a digit has: whether it does depends on the bits of
the handle that are folded into the two highest bits of a digit, and on the channel.
-/

namespace XogMobile.Nv2a

open Lib Nat

structure Ramht where
  (ramht push1 : Word)

/-- `NV_PFIFO_RAMHT_SIZE`, `NV_PFIFO_RAMHT_BASE_ADDRESS` and `NV_PFIFO_CACHE1_PUSH1_CHID`. -/
def ramhtSizeMask : Word := 0x00030000
def ramhtBaseMask : Word := 0x000001F0
def push1ChidMask : Word := 0x0000001F

namespace Ramht

def sizeField (r : Ramht) : Nat := (getMask r.ramht ramhtSizeMask).toNat

def size (r : Ramht) : Word := (1 : Word) <<< (r.sizeField + 12)

def bits (r : Ramht) : Nat := r.size.ctz.toNat - 1

def channelId (r : Ramht) : Word := getMask r.push1 push1ChidMask

/-- The loop of `ramht_hash`. It has no bound of its own; `none` is a run that is not over. -/
def hashLoop (bits : Nat) : Nat → Word → Word → Option Word
  | 0, handle, hash => if handle = 0 then some hash else none
  | fuel + 1, handle, hash =>
    if handle = 0 then some hash
    else hashLoop bits fuel (handle >>> bits) (hash ^^^ (handle &&& ((1 : Word) <<< bits - 1)))

def hash (fuel : Nat) (r : Ramht) (handle : Word) : Option Word :=
  (hashLoop r.bits fuel handle 0).map (· ^^^ (r.channelId <<< (r.bits - 4)))

inductive Failure where
  | loop
  | outsideTable
  | outsideRamin
  deriving DecidableEq

structure Found extends RamhtEntry where
  handle : Word
  valid : Bool

def entryAt (ramin : Nat → Byte) (a : Nat) : Found :=
  let context : Word := BitVec.ofNat 32 (leNat (readBytes ramin (a + 4) 4))
  { handle := BitVec.ofNat 32 (leNat (readBytes ramin a 4))
    instanceAddr := (context &&& 0x0000FFFF) <<< 4
    engine := (context &&& 0x00030000) >>> 16
    channelId := (context &&& 0x1F000000) >>> 24
    valid := context &&& 0x80000000 != 0 }

def lookup (fuel : Nat) (ramin : Nat → Byte) (raminSize : Nat) (r : Ramht) (handle : Word) :
    Except Failure Found :=
  match r.hash fuel handle with
  | none => .error .loop
  | some hash =>
    if r.size.toNat ≤ (hash * 8).toNat then .error .outsideTable
    else
      let address := (getMask r.ramht ramhtBaseMask).toNat <<< 12
      if raminSize ≤ address + (hash * 8).toNat then .error .outsideRamin
      else .ok (entryAt ramin (address + (hash * 8).toNat))

theorem sizeField_le (r : Ramht) : r.sizeField ≤ 3 := by
  have h := getMask_toNat_le r.ramht ramhtSizeMask
  have hfield : (ramhtSizeMask >>> ramhtSizeMask.ctz.toNat).toNat = 3 := by decide +kernel
  rwa [hfield] at h

theorem size_toNat (r : Ramht) : r.size.toNat = 2 ^ (r.sizeField + 12) := by
  have h := r.sizeField_le
  rw [size]
  generalize r.sizeField = n at h
  obtain rfl | rfl | rfl | rfl : n = 0 ∨ n = 1 ∨ n = 2 ∨ n = 3 := by omega
  all_goals decide +kernel

theorem bits_eq (r : Ramht) : r.bits = r.sizeField + 11 := by
  have h := r.sizeField_le
  rw [bits, size]
  generalize r.sizeField = n at h
  obtain rfl | rfl | rfl | rfl : n = 0 ∨ n = 1 ∨ n = 2 ∨ n = 3 := by omega
  all_goals decide +kernel

theorem channelId_lt (r : Ramht) : r.channelId.toNat < 32 := by
  have h := getMask_toNat_le r.push1 push1ChidMask
  have hfield : (push1ChidMask >>> push1ChidMask.ctz.toNat).toNat = 31 := by decide +kernel
  rw [hfield] at h
  exact lt_succ_of_le h

/-- The first `n` digits of a handle, folded. -/
def folded (bits : Nat) : Nat → Word → Word
  | 0, _ => 0
  | n + 1, handle => (handle &&& ((1 : Word) <<< bits - 1)) ^^^ folded bits n (handle >>> bits)

theorem folded_zero (bits n : Nat) : folded bits n 0#32 = 0#32 := by
  induction n with
  | zero => rfl
  | succ n ih => simp [folded, ih]

variable {bits fuel : Nat}

theorem hashLoop_eq {n : Nat} {handle : Word} (hash : Word) (hlt : handle.toNat < 2 ^ (bits * n))
    (hn : n ≤ fuel) : hashLoop bits fuel handle hash = some (hash ^^^ folded bits n handle) := by
  induction n generalizing fuel handle hash with
  | zero =>
    have hzero : handle = 0 := BitVec.eq_of_toNat_eq (by simpa using hlt)
    subst hzero
    cases fuel <;> simp [hashLoop, folded]
  | succ n ih =>
    by_cases hzero : handle = 0
    · subst hzero
      have hsame : hash ^^^ folded bits (n + 1) 0#32 = hash := by simp [folded_zero]
      change hashLoop bits fuel 0#32 hash = some (hash ^^^ folded bits (n + 1) 0#32)
      rw [hsame]
      cases fuel <;> exact if_pos rfl
    · obtain ⟨fuel, rfl⟩ : ∃ k, fuel = k + 1 := ⟨fuel - 1, by omega⟩
      have hshift : (handle >>> bits).toNat < 2 ^ (bits * n) := by
        rw [BitVec.toNat_ushiftRight, shiftRight_eq_div_pow]
        apply Nat.div_lt_of_lt_mul
        rwa [← Nat.pow_add, add_comm]
      rw [hashLoop, if_neg hzero, ih _ hshift (by omega), folded, BitVec.xor_assoc]

theorem getLsbD_digit (hbits : bits < 32) (i : Nat) : ((1 : Word) <<< bits - 1).getLsbD i = decide (i < bits) := by
  have hvalue : ((1 : Word) <<< bits - 1).toNat = 2 ^ bits - 1 := by
    have hpow : 2 ^ bits < 2 ^ 32 := Nat.pow_lt_pow_right (by decide) hbits
    have hpos : 0 < 2 ^ bits := Nat.two_pow_pos bits
    have hone : (1 : Word).toNat = 1 := rfl
    rw [BitVec.toNat_sub, BitVec.toNat_shiftLeft, hone]
    omega
  rw [BitVec.getLsbD, hvalue, testBit_two_pow_sub_one]

def foldedBit (bits : Nat) (handle : Word) (i : Nat) : Bool :=
  handle.getLsbD i ^^ (handle.getLsbD (bits + i) ^^ handle.getLsbD (bits + (bits + i)))

theorem getLsbD_folded (hbits : bits < 32) (handle : Word) (i : Nat) :
    (folded bits 3 handle).getLsbD i = (decide (i < bits) && foldedBit bits handle i) := by
  simp only [folded, foldedBit, BitVec.getLsbD_xor, BitVec.getLsbD_and, getLsbD_digit hbits]
  by_cases hi : i < bits <;> simp [hi]

variable (r : Ramht) (handle : Word)

theorem hash_eq (hfuel : 3 ≤ fuel) : r.hash fuel handle =
      some (folded r.bits 3 handle ^^^ (r.channelId <<< (r.bits - 4))) := by
  have hbits := r.bits_eq
  have hlt : handle.toNat < 2 ^ (r.bits * 3) := lt_of_lt_of_le handle.isLt (Nat.pow_le_pow_right (by decide) (by omega))
  rw [hash, hashLoop_eq 0 hlt hfuel, Option.map_some]
  congr 2
  exact BitVec.zero_xor

/-- The condition on the channel and the handle: the channel's highest bit is clear, and its next two
cancel the bits of the handle that are folded into the two highest of a digit. -/
def Cancels (r : Ramht) (handle : Word) : Prop :=
  r.channelId.getLsbD 4 = false ∧
  r.channelId.getLsbD 3 = foldedBit r.bits handle (r.bits - 1) ∧
  r.channelId.getLsbD 2 = foldedBit r.bits handle (r.bits - 2)

theorem channelId_getLsbD {i : Nat} (hi : 5 ≤ i) : r.channelId.getLsbD i = false := by
  apply testBit_lt_two_pow
  calc r.channelId.toNat < 2 ^ 5 := r.channelId_lt
    _ ≤ 2 ^ i := Nat.pow_le_pow_right (by decide) hi

theorem getLsbD_hash (i : Nat) : (folded r.bits 3 handle ^^^ (r.channelId <<< (r.bits - 4))).getLsbD (r.bits - 4 + i) =
      ((decide (i < 4) && foldedBit r.bits handle (r.bits - 4 + i)) ^^ r.channelId.getLsbD i) := by
  have hbits := r.bits_eq
  have hfield := r.sizeField_le
  have hlow : decide (r.bits - 4 + i < r.bits) = decide (i < 4) := by
    rw [decide_eq_decide]
    omega
  rw [BitVec.getLsbD_xor, getLsbD_folded (by omega), BitVec.getLsbD_shiftLeft, hlow]
  by_cases hi : 5 ≤ i
  · simp [r.channelId_getLsbD hi]
  · simp [show r.bits - 4 + i < 32 by omega]

private theorem xor_eq_false_iff (a b : Bool) : (a ^^ b) = false ↔ b = a := by
  cases a <;> cases b <;> decide

theorem hash_lt_iff : (folded r.bits 3 handle ^^^ (r.channelId <<< (r.bits - 4))).toNat < 2 ^ (r.bits - 2) ↔
      r.Cancels handle := by
  have hbits := r.bits_eq
  have hbit := r.getLsbD_hash handle
  generalize folded r.bits 3 handle ^^^ (r.channelId <<< (r.bits - 4)) = hash at hbit
  have h2 : hash.getLsbD (r.bits - 2) = false ↔ r.channelId.getLsbD 2 = foldedBit r.bits handle (r.bits - 2) := by
    rw [show r.bits - 2 = r.bits - 4 + 2 by omega, hbit, xor_eq_false_iff]
    rfl
  have h3 : hash.getLsbD (r.bits - 1) = false ↔ r.channelId.getLsbD 3 = foldedBit r.bits handle (r.bits - 1) := by
    rw [show r.bits - 1 = r.bits - 4 + 3 by omega, hbit, xor_eq_false_iff]
    rfl
  have h4 : hash.getLsbD r.bits = false ↔ r.channelId.getLsbD 4 = false := by
    rw [show hash.getLsbD r.bits = hash.getLsbD (r.bits - 4 + 4) by congr 1; omega, hbit, xor_eq_false_iff]
    rfl
  rw [Cancels, ← h2, ← h3, ← h4]
  constructor
  · intro hlt
    have hclear (i : Nat) (hi : r.bits - 2 ≤ i) : hash.getLsbD i = false := by
      apply testBit_lt_two_pow
      exact lt_of_lt_of_le hlt (Nat.pow_le_pow_right (by decide) hi)
    exact ⟨hclear _ (by omega), hclear _ (by omega), hclear _ (by omega)⟩
  · rintro ⟨hfour, hthree, htwo⟩
    apply lt_pow_two_of_testBit
    intro i hi
    -- above the channel's highest bit nothing is set
    obtain rfl | rfl | rfl | hi : i = r.bits - 2 ∨ i = r.bits - 1 ∨ i = r.bits ∨ r.bits < i := by
      omega
    · exact htwo
    · exact hthree
    · exact hfour
    · obtain ⟨j, rfl⟩ : ∃ j, i = r.bits - 4 + (j + 5) := ⟨i - r.bits - 1, by omega⟩
      change hash.getLsbD _ = false
      rw [hbit, r.channelId_getLsbD (by omega), decide_eq_false (by omega)]
      rfl

/-- The hash is the same however much fuel the loop is given from three passes on, and its entry is
inside the table, so that the lookup passes its first assertion, exactly when the condition holds. -/
theorem ramht_hash_in_table_iff :
    (∃ hash, (∀ fuel, 3 ≤ fuel → r.hash fuel handle = some hash) ∧
        hash.toNat * 8 < r.size.toNat ∧
        ∀ fuel, 3 ≤ fuel → ∀ ramin raminSize,
          r.lookup fuel ramin raminSize handle ≠ .error .outsideTable ∧
          r.lookup fuel ramin raminSize handle ≠ .error .loop) ↔
      r.Cancels handle := by
  have hbits := r.bits_eq
  have hsize : r.size.toNat = 2 ^ (r.bits - 2) * 8 := by
    rw [r.size_toNat, show r.sizeField + 12 = r.bits - 2 + 3 by omega, Nat.pow_add]
  have hhash {fuel : Nat} (hfuel : 3 ≤ fuel) := r.hash_eq handle hfuel
  have hlt := r.hash_lt_iff handle
  generalize folded r.bits 3 handle ^^^ (r.channelId <<< (r.bits - 4)) = hash at hhash hlt
  rw [← hlt]
  constructor
  · rintro ⟨hash', hsome, hin, -⟩
    have hsame := (hhash (le_refl 3)).symm.trans (hsome 3 (le_refl 3))
    cases hsame
    omega
  · intro hin
    refine ⟨hash, fun fuel => hhash, by omega, ?_⟩
    intro fuel hfuel ramin raminSize
    have hmul : (hash * 8).toNat < r.size.toNat := by
      change hash.toNat * 8 % 2 ^ 32 < _
      omega
    rw [lookup, hhash hfuel]
    dsimp only
    rw [if_neg (by omega)]
    split <;> simp

/-- In the smallest table, on channel 0, the handle `0x200` is its own hash, and that entry is past
the end. -/
theorem ramht_hash_outside_table :
    (⟨0, 0⟩ : Ramht).size = 0x1000 ∧ (⟨0, 0⟩ : Ramht).hash 3 0x200 = some 0x200 ∧
      ¬0x200 * 8 < (0x1000 : Word).toNat ∧
      ∀ ramin raminSize,
        (⟨0, 0⟩ : Ramht).lookup 3 ramin raminSize 0x200 = .error .outsideTable := by
  have hhash : (⟨0, 0⟩ : Ramht).hash 3 0x200 = some 0x200 := by decide +kernel
  refine ⟨by decide +kernel, hhash, by decide +kernel, ?_⟩
  intro ramin raminSize
  rw [lookup, hhash]
  exact if_pos (by decide +kernel)

end Ramht

end XogMobile.Nv2a
