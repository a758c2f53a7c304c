import Mathlib.Tactic.Common

/-!
# Computations that can fail

How a result of a composed computation comes about: the first part returned and the second part made
the result of it, or the first part failed already.
-/

namespace XogMobile.Lib

variable {ε α β : Type*} {x : Except ε α} {f : α → Except ε β} {g : α → β} {a : α} {b : β} {e : ε}

theorem bind_eq_ok : x.bind f = .ok b ↔ ∃ a, x = .ok a ∧ f a = .ok b := by
  cases x with
  | error e => exact ⟨nofun, nofun⟩
  | ok a => exact ⟨fun h => ⟨a, rfl, h⟩, fun ⟨_, ha, hb⟩ => Except.ok.inj ha ▸ hb⟩

theorem bind_eq_error : x.bind f = .error e ↔ x = .error e ∨ ∃ a, x = .ok a ∧ f a = .error e := by
  cases x with
  | error e' =>
    exact ⟨fun h => .inl (congrArg _ (Except.error.inj h)), fun h =>
      h.elim (fun he => congrArg _ (Except.error.inj he)) nofun⟩
  | ok a => exact ⟨fun h => .inr ⟨a, rfl, h⟩, fun h => h.elim nofun fun ⟨_, ha, he⟩ => Except.ok.inj ha ▸ he⟩

theorem map_eq_ok : x.map g = .ok b ↔ ∃ a, x = .ok a ∧ g a = b := by
  cases x with
  | error e => exact ⟨nofun, nofun⟩
  | ok a => exact ⟨fun h => ⟨a, rfl, Except.ok.inj h⟩, fun ⟨_, ha, hb⟩ => by cases ha; exact congrArg _ hb⟩

theorem map_eq_error : x.map g = .error e ↔ x = .error e := by
  cases x with
  | error e' => exact ⟨fun h => congrArg _ (Except.error.inj h), fun h => congrArg _ (Except.error.inj h)⟩
  | ok a => exact ⟨nofun, nofun⟩

theorem toOption_eq_some : x.toOption = some a ↔ x = .ok a := by
  cases x with
  | error e => exact ⟨nofun, nofun⟩
  | ok a' => exact ⟨fun h => congrArg _ (Option.some.inj h), fun h => congrArg _ (Except.ok.inj h)⟩

/-- What a computation returns meets `P`, and what it fails with meets `E`. -/
def Yields (E : ε → Prop) (P : α → Prop) : Except ε α → Prop
  | .error e => E e
  | .ok a => P a

variable {E : ε → Prop} {P : α → Prop} {Q : β → Prop}

theorem yields_iff : Yields E P x ↔ (∀ e, x = .error e → E e) ∧ ∀ a, x = .ok a → P a := by
  cases x with
  | error e => exact ⟨fun h => ⟨fun _ he => Except.error.inj he ▸ h, nofun⟩, fun h => h.1 e rfl⟩
  | ok a => exact ⟨fun h => ⟨nofun, fun _ ha => Except.ok.inj ha ▸ h⟩, fun h => h.2 a rfl⟩

theorem Yields.bind (h : Yields E P x) (hf : ∀ a, x = .ok a → P a → Yields E Q (f a)) : Yields E Q (x.bind f) := by
  cases x with
  | error e => exact h
  | ok a => exact hf a rfl h

theorem Yields.map (h : Yields E P x) (hg : ∀ a, P a → Q (g a)) : Yields E Q (x.map g) := by
  cases x with
  | error e => exact h
  | ok a => exact hg a h

end XogMobile.Lib
