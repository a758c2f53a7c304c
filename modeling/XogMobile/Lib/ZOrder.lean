import Mathlib.Algebra.BigOperators.Fin
import Mathlib.Data.Nat.Bitwise
import Mathlib.Tactic.Ring

/-!
# Interleaving the bits of coordinates

The bits of several coordinates are interleaved into one number. A list says which coordinate each bit
comes from, the lowest bit first, and a coordinate has as many bits as it occurs in the list. Interleaving
is a bijection from the coordinates that have no more bits onto the numbers below the power of two.

The part of the number that comes from one coordinate can be stepped without taking it apart: subtract the
mask of its bits, and keep the bits of the mask. The borrow runs through the bits of the other coordinates.
-/

namespace XogMobile.Lib.ZOrder

open List Finset Function Nat

variable {ι : Type} [DecidableEq ι]

def interleave : List ι → (ι → Nat) → Nat
  | [], _ => 0
  | i :: order, c => c i % 2 + 2 * interleave order (Function.update c i (c i / 2))

def extract : List ι → Nat → ι → Nat
  | [], _ => fun _ => 0
  | i :: order, n => Function.update (extract order (n / 2)) i (n % 2 + 2 * extract order (n / 2) i)

def mask (a : ι) : List ι → Nat
  | [] => 0
  | i :: order => (if i = a then 1 else 0) + 2 * mask a order

def deposit (a : ι) : List ι → Nat → Nat
  | [], _ => 0
  | i :: order, x => if i = a then x % 2 + 2 * deposit a order (x / 2) else 2 * deposit a order x

theorem interleave_lt (order : List ι) (c : ι → Nat) : interleave order c < 2 ^ order.length := by
  induction order generalizing c with
  | nil => exact one_pos
  | cons i order ih =>
    have hlt := ih (update c i (c i / 2))
    rw [interleave, length_cons]
    omega

variable {order : List ι} {n b b' : Nat} {c : ι → Nat}

theorem interleave_extract (hn : n < 2 ^ order.length) : interleave order (extract order n) = n := by
  induction order generalizing n with
  | nil =>
    rw [length_nil] at hn
    rw [interleave]
    omega
  | cons i order ih =>
    rw [length_cons] at hn
    have hhalf : (n % 2 + 2 * extract order (n / 2) i) / 2 = extract order (n / 2) i := by omega
    rw [extract, interleave, update_self, update_idem, hhalf, update_eq_self, ih (by omega)]
    omega

theorem extract_lt (order : List ι) (n : Nat) (a : ι) : extract order n a < 2 ^ order.count a := by
  induction order generalizing n with
  | nil => exact one_pos
  | cons i order ih =>
    have hlt := ih (n / 2)
    rw [extract]
    by_cases ha : a = i
    · subst ha
      rw [update_self, count_cons_self]
      omega
    · rwa [update_of_ne ha, count_cons_of_ne (Ne.symm ha)]

def Box (order : List ι) : Set (ι → Nat) := {c | ∀ a, c a < 2 ^ order.count a}

theorem box_tail {i : ι} (hc : c ∈ Box (i :: order)) : Function.update c i (c i / 2) ∈ Box order := by
  intro a
  have hlt := hc a
  by_cases ha : a = i
  · subst ha
    rw [count_cons_self] at hlt
    rw [update_self]
    omega
  · rw [count_cons_of_ne (Ne.symm ha)] at hlt
    rwa [update_of_ne ha]

theorem extract_interleave (hc : c ∈ Box order) : extract order (interleave order c) = c := by
  induction order generalizing c with
  | nil =>
    funext a
    have hlt := hc a
    exact (lt_one_iff.mp hlt).symm
  | cons i order ih =>
    have hmod : interleave (i :: order) c % 2 = c i % 2 := by
      rw [interleave]
      omega
    have hdiv : interleave (i :: order) c / 2 = interleave order (update c i (c i / 2)) := by
      rw [interleave]
      omega
    rw [extract, hmod, hdiv, ih (box_tail hc), update_self, update_idem, mod_add_div, update_eq_self]

theorem interleave_bijOn (order : List ι) : Set.BijOn (interleave order) (Box order) (Set.Iio (2 ^ order.length)) :=
  ⟨fun c _ => interleave_lt order c,
    fun c hc c' hc' heq => by rw [← extract_interleave hc, heq, extract_interleave hc'],
    fun n hn => ⟨extract order n, extract_lt order n, interleave_extract hn⟩⟩

theorem interleave_last (order : List ι) :
    interleave order (fun a => 2 ^ order.count a - 1) = 2 ^ order.length - 1 := by
  induction order with
  | nil => rfl
  | cons i order ih =>
    have hpos := Nat.two_pow_pos (order.count i)
    have hpos' := Nat.two_pow_pos order.length
    have htail : update (fun a => 2 ^ (i :: order).count a - 1) i
        ((2 ^ (i :: order).count i - 1) / 2) = fun a => 2 ^ order.count a - 1 := by
      funext a
      by_cases ha : a = i
      · subst ha
        rw [update_self, count_cons_self]
        omega
      · rw [update_of_ne ha, count_cons_of_ne (Ne.symm ha)]
    rw [interleave, htail, count_cons_self, length_cons, pow_succ]
    omega

theorem deposit_cons (a i : ι) (order : List ι) (x : Nat) : deposit a (i :: order) x =
      (if i = a then x % 2 else 0) + 2 * deposit a order (if i = a then x / 2 else x) := by
  rw [deposit]
  split
  · rfl
  · rw [zero_add]

theorem sum_deposit [Fintype ι] (order : List ι) (c : ι → Nat) : ∑ a, deposit a order (c a) = interleave order c := by
  induction order generalizing c with
  | nil => exact sum_const_zero
  | cons i order ih =>
    have htail (a : ι) : (if i = a then c a / 2 else c a) = update c i (c i / 2) a := by
      by_cases ha : a = i
      · subst ha
        rw [if_pos rfl, update_self]
      · rw [if_neg (Ne.symm ha), update_of_ne ha]
    simp only [deposit_cons, htail]
    rw [sum_add_distrib, ← mul_sum, ih, sum_ite_eq univ i, if_pos (mem_univ i), interleave]

theorem mask_lt (a : ι) (order : List ι) : mask a order < 2 ^ order.length := by
  induction order with
  | nil => exact one_pos
  | cons i order ih =>
    rw [mask, length_cons]
    split <;> omega

theorem deposit_le_mask (a : ι) (order : List ι) (x : Nat) : deposit a order x ≤ mask a order := by
  induction order generalizing x with
  | nil => exact le_refl 0
  | cons i order ih =>
    have hle := ih x
    have hle' := ih (x / 2)
    rw [deposit, mask]
    split <;> omega

theorem deposit_last (a : ι) (order : List ι) : deposit a order (2 ^ order.count a - 1) = mask a order := by
  induction order with
  | nil => rfl
  | cons i order ih =>
    have hpos := Nat.two_pow_pos (order.count a)
    rw [deposit, mask]
    by_cases ha : i = a
    · subst ha
      rw [if_pos rfl, if_pos rfl, count_cons_self, pow_succ,
        show (2 ^ order.count i * 2 - 1) / 2 = 2 ^ order.count i - 1 by omega]
      omega
    · rw [if_neg ha, if_neg ha, count_cons_of_ne ha, ih, zero_add]

theorem mask_append (a : ι) (order order' : List ι) :
    mask a (order ++ order') = mask a order + 2 ^ order.length * mask a order' := by
  induction order with
  | nil => rw [nil_append, mask, length_nil, pow_zero, one_mul, zero_add]
  | cons i order ih =>
    rw [cons_append, mask, mask, ih, length_cons]
    ring

theorem op_cons {op : Nat → Nat → Nat} (hmod : ∀ a b, op a b % 2 = op (a % 2) (b % 2))
    (hdiv : ∀ a b, op a b / 2 = op (a / 2) (b / 2)) (hb : b < 2) (hb' : b' < 2) (u v : Nat) :
    op (b + 2 * u) (b' + 2 * v) = op b b' + 2 * op u v := by
  rw [← mod_add_div (op _ _) 2, hmod, hdiv, add_mul_mod_self_left, add_mul_mod_self_left,
    mod_eq_of_lt hb, mod_eq_of_lt hb', show (b + 2 * u) / 2 = u by omega,
    show (b' + 2 * v) / 2 = v by omega]

theorem land_cons (hb : b < 2) (hb' : b' < 2) (u v : Nat) : (b + 2 * u) &&& (b' + 2 * v) = (b &&& b') + 2 * (u &&& v) :=
  op_cons (fun _ _ => and_mod_two_pow (n := 1)) (fun _ _ => and_div_two) hb hb' u v

theorem xor_cons (hb : b < 2) (hb' : b' < 2) (u v : Nat) : (b + 2 * u) ^^^ (b' + 2 * v) = (b ^^^ b') + 2 * (u ^^^ v) :=
  op_cons (fun _ _ => xor_mod_two_pow (n := 1)) (fun _ _ => xor_div_two) hb hb' u v

theorem mod_cons (hb : b < 2) (u m : Nat) : (b + 2 * u) % 2 ^ (m + 1) = b + 2 * (u % 2 ^ m) := by
  have hbit : (b + 2 * u) % 2 = b := by omega
  have hrest : (b + 2 * u) / 2 = u := by omega
  rw [pow_succ, mul_comm (2 ^ m), mod_mul, hbit, hrest]

/-- A carry runs through the bits outside the mask, which are all set. -/
theorem deposit_carry (a : ι) (hn : order.length ≤ n) (x : Nat) (hb : b < 2) :
    (deposit a order x + (2 ^ n - 1 - mask a order) + b) % 2 ^ n &&& mask a order = deposit a order (x + b) := by
  induction order generalizing n x b with
  | nil => exact and_zero _
  | cons i order ih =>
    obtain ⟨n, rfl⟩ := Nat.exists_eq_add_of_le' (lt_of_lt_of_le (succ_pos _) hn)
    have hn' : order.length ≤ n := le_of_succ_le_succ hn
    have hmask : mask a order < 2 ^ n := (mask_lt a order).trans_le (Nat.pow_le_pow_right two_pos hn')
    have hpow : 2 ^ (n + 1) = 2 ^ n * 2 := pow_succ 2 n
    rw [deposit, deposit, mask]
    by_cases ha : i = a
    · have hcarry : (x + b) / 2 = x / 2 + (x % 2 + b) / 2 := by omega
      rw [if_pos ha, if_pos ha, if_pos ha,
        show x % 2 + 2 * deposit a order (x / 2) + (2 ^ (n + 1) - 1 - (1 + 2 * mask a order)) + b = (x + b) % 2 +
            2 * (deposit a order (x / 2) + (2 ^ n - 1 - mask a order) + (x % 2 + b) / 2) by omega,
        mod_cons (mod_lt _ two_pos), land_cons (mod_lt _ two_pos) one_lt_two, ih hn' _ (by omega),
        ← hcarry, and_one_is_mod, mod_mod]
    · rw [if_neg ha, if_neg ha, if_neg ha, show 2 * deposit a order x + (2 ^ (n + 1) - 1 - (0 + 2 * mask a order)) + b =
          (1 + b) % 2 + 2 * (deposit a order x + (2 ^ n - 1 - mask a order) + b) by omega,
        mod_cons (mod_lt _ two_pos), land_cons (mod_lt _ two_pos) two_pos, ih hn' x hb, and_zero,
        zero_add]

def step {n : Nat} (mask offset : BitVec n) : BitVec n := (offset - mask) &&& mask

theorem step_deposit (a : ι) (hn : order.length ≤ n) (x : Nat) :
    step (BitVec.ofNat n (mask a order)) (BitVec.ofNat n (deposit a order x)) =
      BitVec.ofNat n (deposit a order (x + 1)) := by
  have hmask : mask a order < 2 ^ n := (mask_lt a order).trans_le (Nat.pow_le_pow_right two_pos hn)
  have hdeposit (x : Nat) : deposit a order x < 2 ^ n := (deposit_le_mask a order x).trans_lt hmask
  apply BitVec.eq_of_toNat_eq
  rw [step, BitVec.toNat_and, BitVec.toNat_sub, BitVec.toNat_ofNat, BitVec.toNat_ofNat,
    BitVec.toNat_ofNat, mod_eq_of_lt hmask, mod_eq_of_lt (hdeposit x), mod_eq_of_lt (hdeposit (x + 1)),
    ← deposit_carry a hn x one_lt_two]
  congr 2
  omega

theorem deposit_zero (a : ι) (order : List ι) : deposit a order 0 = 0 := by
  induction order with
  | nil => rfl
  | cons i order ih =>
    rw [deposit, ih]
    exact ite_self 0

theorem deposit_take (a : ι) (order : List ι) (m x : Nat) : deposit a (order.take m) x = deposit a order x % 2 ^ m := by
  induction order generalizing m x with
  | nil => rw [take_nil, deposit, zero_mod]
  | cons i order ih =>
    cases m with
    | zero => rw [take_zero, deposit, pow_zero, mod_one]
    | succ m =>
      have hbit : (if i = a then x % 2 else 0) < 2 := by split <;> omega
      rw [take_succ_cons, deposit_cons, deposit_cons, ih, mod_cons hbit]

theorem mask_take (a : ι) (order : List ι) (m : Nat) : mask a (order.take m) = mask a order % 2 ^ m := by
  induction order generalizing m with
  | nil => rw [take_nil, mask, zero_mod]
  | cons i order ih =>
    cases m with
    | zero => rw [take_zero, mask, pow_zero, mod_one]
    | succ m =>
      have hbit : (if i = a then 1 else 0) < 2 := by split <;> decide
      rw [take_succ_cons, mask, mask, ih, mod_cons hbit]

theorem iterate_step (a : ι) (order : List ι) (n x : Nat) :
    (step (BitVec.ofNat n (mask a order)))^[x] 0 = BitVec.ofNat n (deposit a order x) := by
  have hword (v : Nat) : BitVec.ofNat n v = BitVec.ofNat n (v % 2 ^ n) := by
    apply BitVec.eq_of_toNat_eq
    rw [BitVec.toNat_ofNat, BitVec.toNat_ofNat, mod_mod]
  have hmask : BitVec.ofNat n (mask a order) = BitVec.ofNat n (mask a (order.take n)) := by
    rw [hword, mask_take]
  have hdeposit (x : Nat) : BitVec.ofNat n (deposit a order x) = BitVec.ofNat n (deposit a (order.take n) x) := by
    rw [hword, deposit_take]
  have hlen : (order.take n).length ≤ n := length_take_le n order
  rw [hmask]
  induction x with
  | zero =>
    rw [deposit_zero]
    rfl
  | succ x ih => rw [iterate_succ_apply', ih, hdeposit, step_deposit a hlen, hdeposit]

def rounds (axes : List ι) (log : ι → Nat) (count : Nat) : List ι :=
  (List.range count).flatMap fun k => axes.filter fun a => k < log a

omit [DecidableEq ι] in
theorem rounds_succ (axes : List ι) (log : ι → Nat) (count : Nat) :
    rounds axes log (count + 1) = rounds axes log count ++ axes.filter fun a => count < log a := by
  rw [rounds, rounds, range_succ, flatMap_append, flatMap_singleton]

theorem count_rounds {axes : List ι} {a : ι} (ha : axes.count a = 1) (log : ι → Nat) (count : Nat) :
    (rounds axes log count).count a = min count (log a) := by
  induction count with
  | zero => exact (zero_min _).symm
  | succ count ih =>
    rw [rounds_succ, count_append]
    by_cases hlt : count < log a
    · rw [count_filter (by simpa using hlt)]
      omega
    · have hnone : a ∉ axes.filter fun a => count < log a := fun hmem =>
        hlt (by simpa using of_mem_filter hmem)
      rw [count_eq_zero_of_not_mem hnone]
      omega

theorem sum_count [Fintype ι] (order : List ι) : ∑ a, order.count a = order.length := by
  induction order with
  | nil => exact sum_const_zero
  | cons i order ih =>
    simp only [count_cons, beq_iff_eq]
    rw [sum_add_distrib, ih, sum_ite_eq univ i, if_pos (mem_univ i), length_cons]

end XogMobile.Lib.ZOrder
