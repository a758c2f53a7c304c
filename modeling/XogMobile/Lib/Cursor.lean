import Mathlib.Order.Interval.Finset.Nat
import Mathlib.Data.BitVec

/-!
# Free-running cursors

A ring of `2 ^ k` slots addressed by two `w`-bit cursors that are never reduced: a cursor is the
residue modulo `2 ^ w` of an unbounded position, the slot of a position is its low `k` bits, and the
fill level is the difference of the cursors. The lemmas move these from residues to positions, so
that a proof about the ring never meets the wrap-around.
-/

namespace XogMobile.Lib

open BitVec Finset Nat

variable {w : Nat}

def slotOf (k : Nat) (cursor : BitVec w) : Nat := (cursor &&& BitVec.ofNat w (2 ^ k - 1)).toNat

theorem slotOf_ofNat {k : Nat} (hk : k ≤ w) (p : Nat) : slotOf k (BitVec.ofNat w p) = p % 2 ^ k := by
  have hle : 2 ^ k ≤ 2 ^ w := Nat.pow_le_pow_right (by decide) hk
  have hpos : 0 < 2 ^ k := Nat.two_pow_pos k
  have hmask : (2 ^ k - 1) % 2 ^ w = 2 ^ k - 1 := mod_eq_of_lt (by omega)
  rw [slotOf, toNat_and, toNat_ofNat, toNat_ofNat, hmask, and_two_pow_sub_one_eq_mod]
  exact mod_mod_of_dvd p (pow_dvd_pow 2 hk)

theorem cursor_distance {r p : Nat} (hle : r ≤ p) (hlt : p - r < 2 ^ w) :
    (BitVec.ofNat w p - BitVec.ofNat w r).toNat = p - r := by
  have hp : p = r + (p - r) := by omega
  have hsub : BitVec.ofNat w p - BitVec.ofNat w r = BitVec.ofNat w (p - r) := by
    conv_lhs => rw [hp, ofNat_add]
    rw [add_sub_cancel_left]
  rw [hsub, toNat_ofNat, mod_eq_of_lt hlt]

theorem cursor_succ (p : Nat) : BitVec.ofNat w p + 1 = BitVec.ofNat w (p + 1) := by
  rw [ofNat_add]
  rfl

theorem cursor_rebase {r r' c : BitVec w} (h : (r' - r).toNat ≤ (c - r).toNat) :
    (c - r').toNat = (c - r).toNat - (r' - r).toNat := by
  have hsub : c - r' = (c - r) - (r' - r) := (sub_sub_sub_cancel_right c r' r).symm
  rw [hsub, toNat_sub_of_le (le_def.mpr h)]

theorem slot_inj {n r p q : Nat} (hp : r ≤ p) (hp' : p < r + n) (hq : r ≤ q) (hq' : q < r + n)
    (hslot : p % n = q % n) : p = q :=
  mod_injOn_Ico r n (mem_coe.mpr (mem_Ico.mpr ⟨hp, hp'⟩))
    (mem_coe.mpr (mem_Ico.mpr ⟨hq, hq'⟩)) hslot

section Holds

variable {α : Type*} {n start lo hi q : Nat} {ring : Nat → α} {xs ys : List α} {x : α}

/-- The slots of the positions from `lo` up to `hi` hold the elements of `xs`, the first of which
stands at the position `start`. -/
def Holds (n : Nat) (ring : Nat → α) (xs : List α) (start lo hi : Nat) : Prop :=
  ∀ p, lo ≤ p → p < hi → xs[p - start]? = some (ring (p % n))

theorem Holds.of_le (h : Holds n ring xs start lo hi) {lo' : Nat} (hlo : lo ≤ lo') : Holds n ring xs start lo' hi :=
  fun p hle hlt => h p (hlo.trans hle) hlt

theorem Holds.empty : Holds n ring xs start lo lo := fun _ hle hlt => absurd hlt (not_lt.mpr hle)

theorem update_slot_of_lt {p : Nat} (hpq : p < q) (hlap : q < p + n) :
    Function.update ring (q % n) x (p % n) = ring (p % n) := by
  apply Function.update_of_ne
  intro hslot
  have := slot_inj le_rfl (by omega) hpq.le hlap hslot
  omega

/-- A store at or behind the end, less than a lap ahead of the first position, keeps what the ring
holds. -/
theorem Holds.update (h : Holds n ring xs start lo hi) (hhi : hi ≤ q) (hlap : q < lo + n) :
    Holds n (Function.update ring (q % n) x) xs start lo hi := by
  intro p hle hlt
  rw [update_slot_of_lt (hlt.trans_le hhi) (by omega)]
  exact h p hle hlt

theorem Holds.extend (h : Holds n ring xs start lo hi)
    (hnext : xs[hi - start]? = some (ring (hi % n))) : Holds n ring xs start lo (hi + 1) := by
  intro p hle hlt
  rcases Nat.lt_succ_iff_lt_or_eq.mp hlt with hlt' | rfl
  · exact h p hle hlt'
  · exact hnext

theorem Holds.append (h : Holds n ring xs start lo (start + xs.length)) (hlo : start ≤ lo)
    (hbatch : Holds n ring ys (start + xs.length) (start + xs.length) (start + xs.length + ys.length)) :
    Holds n ring (xs ++ ys) start lo (start + xs.length + ys.length) := by
  intro p hle hlt
  rcases lt_or_ge p (start + xs.length) with hold | hnew
  · rw [List.getElem?_append_left (by omega)]
    exact h p hle hold
  · rw [List.getElem?_append_right (by omega), Nat.sub_sub]
    exact hbatch p hnew hlt

end Holds

end XogMobile.Lib
