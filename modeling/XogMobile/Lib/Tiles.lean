import Mathlib.Data.Multiset.Bind

/-!
# Loops over tiles

An axis is cut into tiles of one size, the last of which may be smaller. Running through the tiles and
through each tile is running through the axis, and nested loops may be exchanged up to the order of what
they visit. A counter that is stepped in the innermost of nested loops is a function of the loop variables.
-/

namespace XogMobile.Lib

open List Nat

variable {α : Type}

def tile (size n j : Nat) : List Nat := (List.range (min size (n - j * size))).map (j * size + ·)

theorem mem_tile {size n j x : Nat} (hsize : 0 < size) : x ∈ tile size n j ↔ x < n ∧ x / size = j := by
  simp only [tile, mem_map, mem_range]
  rw [Nat.div_eq_iff hsize]
  constructor
  · rintro ⟨k, hk, rfl⟩
    omega
  · rintro ⟨hx, hle, hle'⟩
    exact ⟨x - j * size, by omega, by omega⟩

theorem flatMap_tile (size n m : Nat) : (List.range m).flatMap (tile size n) = List.range (min (m * size) n) := by
  induction m with
  | zero => rw [Nat.zero_mul, Nat.zero_min, range_zero, flatMap_nil]
  | succ m ih =>
    rw [range_succ, flatMap_append, ih, flatMap_singleton, tile]
    obtain hlt | hle := lt_or_ge (m * size) n
    · rw [min_eq_left (le_of_lt hlt), ← range_add, succ_mul]
      congr 1
      omega
    · rw [Nat.sub_eq_zero_of_le hle, Nat.min_zero, range_zero, map_nil, append_nil, succ_mul]
      congr 1
      omega

theorem takeWhile_range {p : Nat → Bool} {m n : Nat} (hp : ∀ k < m, p k = decide (k < n)) :
    (List.range m).takeWhile p = List.range (min m n) := by
  induction m with
  | zero => rw [Nat.zero_min, range_zero, takeWhile_nil]
  | succ m ih =>
    rw [range_succ, takeWhile_append, ih fun k hk => hp k (lt_succ_of_lt hk), length_range, length_range]
    by_cases hlt : m < n
    · rw [if_pos (min_eq_left (le_of_lt hlt)),
        takeWhile_cons_of_pos ((hp m (lt_succ_self m)).trans (decide_eq_true hlt)),
        takeWhile_nil, ← range_succ, min_eq_left hlt]
    · have hstop : ¬ p m = true := by
        rw [hp m (lt_succ_self m), decide_eq_true_eq]
        exact hlt
      rw [takeWhile_cons_of_neg hstop, append_nil, min_eq_right (by omega), min_eq_right (by omega)]
      split
      · next hm => rw [← hm]
      · rfl

theorem flatMap_rows (m n : Nat) :
    ((List.range m).flatMap fun y => (List.range n).map fun x => y * n + x) = List.range (m * n) := by
  induction m with
  | zero => rw [Nat.zero_mul, range_zero, flatMap_nil]
  | succ m ih => rw [range_succ, flatMap_append, ih, flatMap_singleton, succ_mul, range_add]

theorem flatMap_perm_comm {β γ : Type} (l : List α) (m : List β) (f : α → β → List γ) :
    (l.flatMap fun a => m.flatMap fun b => f a b).Perm (m.flatMap fun b => l.flatMap fun a => f a b) := by
  rw [← Multiset.coe_eq_coe, ← Multiset.coe_bind]
  simp only [← Multiset.coe_bind]
  exact Multiset.bind_bind (l : Multiset α) (m : Multiset β)

theorem zipIdx_flatMap_range (f : Nat → List α) {g : Nat → Nat} {m : Nat} (start : Nat)
    (hg : ∀ k < m, ((List.range k).flatMap f).length = g k) :
    ((List.range m).flatMap f).zipIdx start = (List.range m).flatMap fun k => (f k).zipIdx (start + g k) := by
  induction m with
  | zero => rfl
  | succ m ih =>
    rw [range_succ, flatMap_append, flatMap_append, zipIdx_append,
      ih fun k hk => hg k (lt_succ_of_lt hk), hg m (lt_succ_self m), flatMap_singleton,
      flatMap_singleton]

theorem length_flatMap_const {f : Nat → List α} {n : Nat} (hf : ∀ k, (f k).length = n) (m : Nat) :
    ((List.range m).flatMap f).length = m * n := by
  induction m with
  | zero => rw [Nat.zero_mul, range_zero, flatMap_nil, length_nil]
  | succ m ih => rw [range_succ, flatMap_append, length_append, ih, flatMap_singleton, hf, succ_mul]

theorem zipIdx_map_range (f : Nat → α) (n start : Nat) :
    ((List.range n).map f).zipIdx start = (List.range n).map fun k => (f k, start + k) := by
  induction n with
  | zero => rfl
  | succ n ih =>
    rw [range_succ, map_append, zipIdx_append, ih, map_append, length_map, length_range]
    rfl

end XogMobile.Lib
