import Mathlib.Data.List.Basic

/-!
# Machines seen from outside

A view `π` of a state hides what an observer cannot see of it. Results that show the same under their
views compose, and a machine whose steps show the same from states that show the same puts out the same
for every list of inputs.
-/

namespace XogMobile.Lib

variable {σ τ σ' τ' ι ω : Type*} {π : σ → τ} {π' : σ' → τ'}

def Shows (π : σ → τ) (x y : Option σ) : Prop := x.map π = y.map π

theorem shows_some {a b : σ} (h : π a = π b) : Shows π (some a) (some b) := congrArg some h

variable {x y : Option σ}

theorem Shows.bind {f g : σ → Option σ'} (h : Shows π x y)
    (hfg : ∀ a b, π a = π b → Shows π' (f a) (g b)) : Shows π' (x.bind f) (y.bind g) := by
  cases x with
  | none =>
    cases y with
    | none => rfl
    | some b => cases h
  | some a =>
    cases y with
    | none => cases h
    | some b => exact hfg a b (Option.some.inj h)

theorem Shows.map {f g : σ → σ'} (h : Shows π x y) (hfg : ∀ a b, π a = π b → π' (f a) = π' (g b)) :
    Shows π' (x.map f) (y.map g) := by
  rw [Option.map_eq_bind, Option.map_eq_bind]
  exact h.bind fun a b hab => shows_some (hfg a b hab)

theorem shows_bind {f g : σ → Option σ'} (h : ∀ a, Shows π' (f a) (g a)) : Shows π' (x.bind f) (x.bind g) := by
  refine Shows.bind (π := id) rfl fun a b hab => ?_
  cases hab
  exact h a

theorem shows_map {f g : σ → σ'} (h : ∀ a, π' (f a) = π' (g a)) : Shows π' (x.map f) (x.map g) := by
  refine Shows.map (π := id) rfl fun a b hab => ?_
  cases hab
  exact h a

/-- Where a view is a state itself, it can stand for every state that shows it. -/
theorem Shows.of_view {π : σ → σ} {f : σ → Option σ'} (hf : ∀ a, Shows π' (f a) (f (π a))) {a b : σ}
    (h : π a = π b) : Shows π' (f a) (f b) := by
  have ha := hf a
  rw [h] at ha
  exact ha.trans (hf b).symm

theorem Shows.bind_view {π : σ → σ} {x y : Option σ} {f : σ → Option σ'} (h : Shows π x y)
    (hf : ∀ a, Shows π' (f a) (f (π a))) : Shows π' (x.bind f) (y.bind f) :=
  h.bind fun _ _ => Shows.of_view hf

theorem shows_ite {p q : Prop} [Decidable p] [Decidable q] {x' y' : Option σ} (hpq : p ↔ q)
    (hx : Shows π x y) (hx' : Shows π x' y') :
    Shows π (if p then x else x') (if q then y else y') := by
  by_cases hp : p
  · rw [if_pos hp, if_pos (hpq.mp hp)]
    exact hx
  · rw [if_neg hp, if_neg (mt hpq.mpr hp)]
    exact hx'

/-- What a machine puts out for a list of inputs. It stops where it has no step. -/
def observe (step : ι → σ → Option (ω × σ)) : List ι → σ → List (Option ω)
  | [], _ => []
  | i :: is, s =>
    match step i s with
    | none => [none]
    | some (o, s') => some o :: observe step is s'

theorem observe_congr {step : ι → σ → Option (ω × σ)}
    (hstep : ∀ i s t, π s = π t → Shows (Prod.map id π) (step i s) (step i t)) (is : List ι) {s t : σ}
    (h : π s = π t) : observe step is s = observe step is t := by
  induction is generalizing s t with
  | nil => rfl
  | cons i is ih =>
    have hi := hstep i s t h
    unfold observe
    cases hs : step i s with rw [hs] at hi
    | none =>
      cases ht : step i t with
      | none => rfl
      | some r =>
        rw [ht] at hi
        cases hi
    | some r =>
      cases ht : step i t with rw [ht] at hi
      | none => cases hi
      | some r' =>
        have hpair := Prod.mk.inj (Option.some.inj hi)
        have hout : r.1 = r'.1 := hpair.1
        dsimp only
        rw [hout, ih hpair.2]

end XogMobile.Lib
