import Mathlib.Data.List.Nodup

/-!
# Lists without duplicates

Counting when one element changes, the last element of an ordered list that meets a condition, and a fallible
map over a list.
-/

namespace XogMobile.Lib

open List

variable {α : Type*} {xs : List α} {a b : α} {p : α → Bool} {R : α → α → Prop}

theorem rel_of_find?_reverse (hxs : xs.Pairwise R) (hfind : xs.reverse.find? p = some a) (hb : b ∈ xs)
    (hpb : p b = true) : b = a ∨ R b a := by
  obtain ⟨-, as, bs, heq, has⟩ := find?_eq_some_iff_append.mp hfind
  have hrev : as ++ a :: bs = xs.reverse := heq.symm
  rw [← reverse_reverse xs, pairwise_reverse, ← hrev] at hxs
  have hbmem : b ∈ as ++ a :: bs := hrev ▸ mem_reverse.mpr hb
  obtain hb | hb := mem_append.mp hbmem
  · have := has b hb
    rw [hpb] at this
    exact absurd this (by decide)
  obtain rfl | hb := mem_cons.mp hb
  · exact .inl rfl
  · exact .inr (rel_of_pairwise_cons (pairwise_append.mp hxs).2.1 hb)

theorem mem_of_find?_reverse (hfind : xs.reverse.find? p = some a) : a ∈ xs :=
  mem_reverse.mp (mem_of_find?_eq_some hfind)

theorem find?_reverse_eq_none : xs.reverse.find? p = none ↔ ∀ a ∈ xs, p a = false := by
  simp only [find?_eq_none, mem_reverse, Bool.not_eq_true]

theorem mapM_congr {β : Type*} {f g : α → Option β} {l : List α} (h : ∀ a ∈ l, f a = g a) : l.mapM f = l.mapM g := by
  induction l with
  | nil => rfl
  | cons a l ih =>
    rw [mapM_cons, mapM_cons, h a mem_cons_self, ih fun b hb => h b (mem_cons_of_mem a hb)]

variable [DecidableEq α] {q : α → Bool}

theorem countP_eq_erase_add (ha : a ∈ xs) (p : α → Bool) :
    xs.countP p = (xs.erase a).countP p + if p a then 1 else 0 := by
  rw [(perm_cons_erase ha).countP_eq, countP_cons]

theorem countP_of_joins (hxs : xs.Nodup) (ha : a ∈ xs) (hp : p a = false) (hq : q a = true)
    (hother : ∀ b, b ≠ a → q b = p b) : xs.countP q = xs.countP p + 1 := by
  have herase : (xs.erase a).countP q = (xs.erase a).countP p := by
    apply countP_congr
    intro b hb
    rw [hother b (ne_of_mem_of_not_mem hb hxs.not_mem_erase)]
  rw [countP_eq_erase_add ha q, countP_eq_erase_add ha p, herase, hp, hq]
  rfl

end XogMobile.Lib
