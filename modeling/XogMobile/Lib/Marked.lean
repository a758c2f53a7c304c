import Mathlib.Logic.Function.Basic

/-!
# Marked values

An array of values with a mark for each one that a write has changed. A value without a mark is the one
that was there when the marks were cleared.
-/

namespace XogMobile.Lib

structure Marked (α β : Type) where
  value : α → β
  dirty : α → Bool

namespace Marked

variable {α β : Type}

def write [DecidableEq α] [DecidableEq β] (m : Marked α β) (a : α) (v : β) : Marked α β where
  value := Function.update m.value a v
  dirty b := m.dirty b || decide (b = a ∧ m.value a ≠ v)

def clean (m : Marked α β) : Marked α β := { m with dirty := fun _ => false }

/-- What is not marked dirty is as it was. -/
def Since (m : Marked α β) (old : α → β) (l : List α) : Prop :=
  ∀ a ∈ l, m.dirty a = false → m.value a = old a

variable {m : Marked α β} {old : α → β} {l : List α}

theorem Since.write [DecidableEq α] [DecidableEq β] (h : m.Since old l) (a : α) (v : β) :
    (m.write a v).Since old l := by
  intro b hb hdirty
  obtain ⟨hclean, hsame⟩ := Bool.or_eq_false_iff.mp hdirty
  rw [← h b hb hclean]
  by_cases hba : b = a
  · subst hba
    have hv : m.value b = v := by simpa using hsame
    rw [hv]
    exact Function.update_self b v m.value
  · exact Function.update_of_ne hba v m.value

theorem Since.overwrite {new : α → β} (h : m.Since old l) (hnew : ∀ a ∈ l, m.dirty a = true ∨ new a = m.value a) :
    Since { m with value := new } old l := by
  intro a ha hclean
  have hsame : new a = m.value a := (hnew a ha).resolve_left (ne_true_of_eq_false hclean)
  exact hsame.trans (h a ha hclean)

end Marked

end XogMobile.Lib
