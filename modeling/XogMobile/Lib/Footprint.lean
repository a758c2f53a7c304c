import Mathlib.Data.Set.Lattice
import Mathlib.Tactic.Common

/-!
# Footprints of memory operations

A memory is a function from addresses. An operation has footprint `R`, `W` if it changes nothing
outside `W` and what it leaves on `W` depends on the contents of `R` only. Such operations compose, and
they commute with an overlay that stays clear of the footprint.
-/

namespace XogMobile.Lib

open Function

variable {α β ι : Type}

structure Footprint (R W : Set α) (op : (α → β) → α → β) : Prop where
  frame : ∀ m a, a ∉ W → op m a = m a
  agree : ∀ m m', Set.EqOn m m' R → Set.EqOn (op m) (op m') (R ∪ W)

namespace Footprint

variable {R R' W W' : Set α} {f g : (α → β) → α → β}

theorem id (R : Set α) : Footprint R ∅ (fun m : α → β => m) where
  frame _ _ _ := rfl
  agree _ _ h := by rwa [Set.union_empty]

theorem mono (h : Footprint R W f) (hR : R ⊆ R') : Footprint R' W f where
  frame := h.frame
  agree m m' heq := by
    have hold := h.agree m m' (heq.mono hR)
    rintro a (ha | ha)
    · by_cases hW : a ∈ W
      · exact hold (.inr hW)
      · rw [h.frame m a hW, h.frame m' a hW]
        exact heq ha
    · exact hold (.inr ha)

theorem comp (hf : Footprint R W f) (hg : Footprint R W' g) : Footprint R (W ∪ W') (fun m => g (f m)) where
  frame m a ha := by
    rw [Set.mem_union, not_or] at ha
    rw [hg.frame _ a ha.2, hf.frame _ a ha.1]
  agree m m' heq := by
    rw [← Set.union_assoc]
    exact (hg.mono Set.subset_union_left).agree _ _ (hf.agree m m' heq)

theorem foldl {step : ι → (α → β) → α → β} {write : ι → Set α} (is : List ι)
    (h : ∀ i ∈ is, Footprint R (write i) (step i)) :
    Footprint R {a | ∃ i ∈ is, a ∈ write i} (fun m => is.foldl (fun m i => step i m) m) := by
  induction is with
  | nil =>
    have hempty : {a | ∃ i ∈ ([] : List ι), a ∈ write i} = ∅ := by
      ext a
      simp
    rw [hempty]
    exact id R
  | cons i is ih =>
    have hcons : {a | ∃ j ∈ i :: is, a ∈ write j} = write i ∪ {a | ∃ j ∈ is, a ∈ write j} := by
      ext a
      simp
    rw [hcons]
    exact (h i List.mem_cons_self).comp (ih fun j hj => h j (List.mem_cons_of_mem i hj))

theorem update [DecidableEq α] (a : α) {value : (α → β) → β} (hvalue : ∀ m m', Set.EqOn m m' R → value m = value m') :
    Footprint R {a} (fun m => Function.update m a (value m)) where
  frame m b hb := update_of_ne hb _ _
  agree m m' heq := by
    rintro b hb
    by_cases hba : b = a
    · subst hba
      rw [update_self, update_self]
      exact hvalue m m' heq
    · rw [update_of_ne hba, update_of_ne hba]
      exact heq (hb.resolve_right hba)

/-- An operation on the memory under an overlay that is clear of the footprint does what the operation
does on the memory as it is seen through the overlay. -/
theorem overlay (h : Footprint R W f) {under seen : α → β} {cover : α → Option β}
    (hseen : ∀ a, a ∉ W → (cover a).getD (under a) = seen a) (hread : Set.EqOn under seen R)
    (hwrite : ∀ a ∈ W, cover a = none) (a : α) : (cover a).getD (f under a) = f seen a := by
  by_cases ha : a ∈ W
  · rw [hwrite a ha]
    exact h.agree under seen hread (.inr ha)
  · rw [h.frame under a ha, h.frame seen a ha]
    exact hseen a ha

end Footprint

/-- After a list of writes an address has what it had or what one of them wrote. -/
theorem foldl_update_cases [DecidableEq α] (ws : List (α × β)) (m : α → β) (a : α) :
    ws.foldl (fun m w => Function.update m w.1 w.2) m a = m a ∨
      ∃ w ∈ ws, w.1 = a ∧ ws.foldl (fun m w => Function.update m w.1 w.2) m a = w.2 := by
  induction ws generalizing m with
  | nil => exact .inl rfl
  | cons w ws ih =>
    obtain hsame | ⟨u, hu, hua, hlast⟩ := ih (update m w.1 w.2)
    · by_cases hwa : w.1 = a
      · subst hwa
        rw [update_self] at hsame
        exact .inr ⟨w, List.mem_cons_self, rfl, hsame⟩
      · rw [update_of_ne (Ne.symm hwa)] at hsame
        exact .inl hsame
    · exact .inr ⟨u, .tail w hu, hua, hlast⟩

end XogMobile.Lib
