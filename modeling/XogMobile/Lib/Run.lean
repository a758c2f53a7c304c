import Mathlib.Data.List.Basic

/-!
# Runs of a guarded step function

A system is a step function `step : σ → ε → Option σ`: `none` means that the event cannot happen in
the state, or that the program aborts there. A run is a list of events. Three rules are all the
later modules use: an invariant kept by every step holds after every run, an invariant kept by the
steps that meet a condition holds after every run whose steps all meet it, and a step by step
simulation lifts to runs.
-/

namespace XogMobile.Lib

variable {σ τ ε δ : Type*}

/-- The state after a list of events, if every one of them can happen. -/
def run (step : σ → ε → Option σ) : σ → List ε → Option σ
  | s, [] => some s
  | s, e :: es => (step s e).bind fun s' => run step s' es

/-- Every step of the run meets a condition on the state before it and the event. -/
def Meets (step : σ → ε → Option σ) (ok : σ → ε → Prop) : σ → List ε → Prop
  | _, [] => True
  | s, e :: es => ok s e ∧ ∀ s', step s e = some s' → Meets step ok s' es

variable {step : σ → ε → Option σ} {ok : σ → ε → Prop}

instance decidableMeets [∀ s e, Decidable (ok s e)] : ∀ s es, Decidable (Meets step ok s es)
  | _, [] => isTrue trivial
  | s, e :: es =>
    have hrest : Decidable (∀ s', step s e = some s' → Meets step ok s' es) :=
      match step s e with
      | none => isTrue nofun
      | some s' =>
        @decidable_of_iff _ (Meets step ok s' es) (by simp) (decidableMeets s' es)
    inferInstanceAs (Decidable (_ ∧ _))

/-- What a computed state is to satisfy can be decided by computing it. -/
instance decidableExistsSome {P : σ → Prop} [DecidablePred P] :
    ∀ x : Option σ, Decidable (∃ s, x = some s ∧ P s)
  | none => isFalse nofun
  | some s => decidable_of_iff (P s) (by simp)

/-- What is decided of a computed state, with what is proved of it. -/
theorem exists_some_and {x : Option σ} {P Q : σ → Prop} (hP : ∃ s, x = some s ∧ P s)
    (hQ : ∀ s, x = some s → P s → Q s) : ∃ s, x = some s ∧ P s ∧ Q s := by
  obtain ⟨s, hs, h⟩ := hP
  exact ⟨s, hs, h, hQ s hs h⟩

theorem exists_some_of_isSome {x : Option σ} {Q : σ → Prop} (hx : x.isSome = true)
    (hQ : ∀ s, x = some s → Q s) : ∃ s, x = some s ∧ Q s := by
  obtain ⟨s, hs⟩ := Option.isSome_iff_exists.mp hx
  exact ⟨s, hs, hQ s hs⟩

@[simp] theorem run_nil (s : σ) : run step s [] = some s := rfl

theorem run_cons (s : σ) (e : ε) (es : List ε) : run step s (e :: es) = (step s e).bind fun s' => run step s' es := rfl

variable {s t s' : σ} {es es' : List ε} {step' : τ → δ → Option τ}

theorem run_cons_eq_some {e : ε} :
    run step s (e :: es) = some t ↔ ∃ s', step s e = some s' ∧ run step s' es = some t := by
  rw [run_cons, Option.bind_eq_some_iff]

theorem run_append (s : σ) (es es' : List ε) :
    run step s (es ++ es') = (run step s es).bind fun s' => run step s' es' := by
  induction es generalizing s with
  | nil => rfl
  | cons e es ih =>
    rw [List.cons_append, run_cons, run_cons, Option.bind_assoc]
    congr 1
    funext s'
    exact ih s'

theorem run_append_of_eq_some (hfirst : run step s es = some s')
    (hsecond : run step s' es' = some t) : run step s (es ++ es') = some t := by
  rw [run_append, hfirst]
  exact hsecond

theorem meets_cons {e : ε} (hok : ok s e) (hstep : step s e = some s')
    (hrest : Meets step ok s' es) : Meets step ok s (e :: es) := by
  refine ⟨hok, fun m hm => ?_⟩
  rw [hstep] at hm
  cases hm
  exact hrest

theorem run_append_eq_some :
    run step s (es ++ es') = some t ↔ ∃ s', run step s es = some s' ∧ run step s' es' = some t := by
  rw [run_append, Option.bind_eq_some_iff]

theorem meets_append : Meets step ok s (es ++ es') ↔
      Meets step ok s es ∧ ∀ s', run step s es = some s' → Meets step ok s' es' := by
  induction es generalizing s with
  | nil => exact ⟨fun h => ⟨trivial, fun s' hs' => by cases hs'; exact h⟩, fun h => h.2 s rfl⟩
  | cons e es ih =>
    constructor
    · intro h
      refine ⟨⟨h.1, fun m hm => (ih.mp (h.2 m hm)).1⟩, fun s' hs' => ?_⟩
      obtain ⟨m, hm, hrest⟩ := run_cons_eq_some.mp hs'
      exact (ih.mp (h.2 m hm)).2 s' hrest
    · intro h
      refine ⟨h.1.1, fun m hm => ih.mpr ⟨h.1.2 m hm, fun s' hs' => ?_⟩⟩
      exact h.2 s' (run_cons_eq_some.mpr ⟨m, hm, hs'⟩)

/-- What every step that meets the condition keeps, every run whose steps all meet it keeps. -/
theorem run_invariant_of_meets (Inv : σ → Prop)
    (hstep : ∀ s e s', Inv s → ok s e → step s e = some s' → Inv s') (hinv : Inv s)
    (hmeets : Meets step ok s es) (hrun : run step s es = some t) : Inv t := by
  induction es generalizing s with
  | nil =>
    cases hrun
    exact hinv
  | cons e es ih =>
    obtain ⟨s', hs', hrest⟩ := run_cons_eq_some.mp hrun
    exact ih (hstep s e s' hinv hmeets.1 hs') (hmeets.2 s' hs') hrest

theorem meets_of_forall {P : ε → Prop} (s : σ) (h : ∀ e ∈ es, P e) : Meets step (fun _ e => P e) s es := by
  induction es generalizing s with
  | nil => trivial
  | cons e es ih => exact ⟨h e List.mem_cons_self, fun s' _ => ih s' fun e' he' => h e' (.tail e he')⟩

theorem run_invariant (Inv : σ → Prop) (hstep : ∀ s e s', Inv s → step s e = some s' → Inv s')
    (hinv : Inv s) (hrun : run step s es = some t) : Inv t :=
  run_invariant_of_meets Inv (fun s e s' hs _ he => hstep s e s' hs he) hinv
    (meets_of_forall (P := fun _ => True) s fun _ _ => trivial) hrun

/-- Where the events that count lower a rank as long as `P` holds, enough of them lead to a state where
it does not. -/
theorem run_exits (P : σ → Prop) (rank : σ → Nat) (counts : ε → Bool)
    (hstep : ∀ s e s', P s → ok s e → step s e = some s' → rank s' + (if counts e then 1 else 0) ≤ rank s)
    (hs : P s) (hmeets : Meets step ok s es) (hlong : rank s < es.countP counts)
    (hrun : run step s es = some t) :
    ∃ es₁ es₂ s₁, es = es₁ ++ es₂ ∧ run step s es₁ = some s₁ ∧ ¬P s₁ := by
  induction es generalizing s with
  | nil => cases hlong
  | cons e es ih =>
    obtain ⟨hok, hrest⟩ := hmeets
    obtain ⟨s', hfirst, hrun⟩ := run_cons_eq_some.mp hrun
    by_cases hs' : P s'
    · have hle := hstep s e s' hs hok hfirst
      have hlong' : rank s' < es.countP counts := by
        rw [List.countP_cons] at hlong
        omega
      obtain ⟨es₁, es₂, s₁, rfl, hrun₁, hexit⟩ := ih hs' (hrest s' hfirst) hlong' hrun
      exact ⟨e :: es₁, es₂, s₁, rfl, run_cons_eq_some.mpr ⟨s', hfirst, hrun₁⟩, hexit⟩
    · exact ⟨[e], es, s', rfl, run_cons_eq_some.mpr ⟨s', hfirst, rfl⟩, hs'⟩

/-- Events that change nothing where they meet the condition can be erased from the run. -/
theorem run_filter (keep : ε → Bool) (hskip : ∀ s e, ok s e → keep e = false → step s e = some s)
    (hmeets : Meets step ok s es) : run step s (es.filter keep) = run step s es := by
  induction es generalizing s with
  | nil => rfl
  | cons e es ih =>
    obtain ⟨hok, hrest⟩ := hmeets
    cases hkeep : keep e with
    | true =>
      rw [List.filter_cons_of_pos hkeep, run_cons, run_cons]
      cases hstep : step s e with
      | none => rfl
      | some s' => exact ih (hrest s' hstep)
    | false =>
      have hsame := hskip s e hok hkeep
      rw [List.filter_cons_of_neg (by rw [hkeep]; exact Bool.false_ne_true), run_cons, hsame]
      exact ih (hrest s hsame)

/-- Where the first has a result, the second has one that is related to it. -/
def Simulates (r : σ → τ → Prop) (x : Option σ) (y : Option τ) : Prop :=
  ∀ ⦃a⦄, x = some a → ∃ b, y = some b ∧ r a b

section Simulates

variable {σ' τ' : Type*} {r : σ → τ → Prop} {r' : σ' → τ' → Prop} {x x' : Option σ} {y y' : Option τ}
  {p q : Prop} [Decidable p] [Decidable q]

theorem simulates_some {a : σ} {b : τ} (h : r a b) : Simulates r (some a) (some b) := by
  rintro _ ⟨⟩
  exact ⟨b, rfl, h⟩

theorem simulates_refl (x : Option σ) : Simulates Eq x x := fun a ha => ⟨a, ha, rfl⟩

theorem Simulates.imp {r' : σ → τ → Prop} (h : Simulates r x y) (hr : ∀ a b, r a b → r' a b) : Simulates r' x y :=
  fun a ha => (h ha).imp fun b hb => ⟨hb.1, hr a b hb.2⟩

theorem Simulates.bind {f : σ → Option σ'} {g : τ → Option τ'} (h : Simulates r x y)
    (hfg : ∀ a b, x = some a → r a b → Simulates r' (f a) (g b)) :
    Simulates r' (x.bind f) (y.bind g) := by
  intro c hc
  obtain ⟨a, ha, hc⟩ := Option.bind_eq_some_iff.mp hc
  obtain ⟨b, rfl, hab⟩ := h ha
  exact hfg a b ha hab hc

theorem Simulates.map {f : σ → σ'} {g : τ → τ'} (h : Simulates r x y)
    (hfg : ∀ a b, r a b → r' (f a) (g b)) : Simulates r' (x.map f) (y.map g) := by
  intro c hc
  obtain ⟨a, ha, rfl⟩ := Option.map_eq_some_iff.mp hc
  obtain ⟨b, rfl, hab⟩ := h ha
  exact ⟨g b, rfl, hfg a b hab⟩

theorem simulates_ite (hpq : p ↔ q) (h : p → Simulates r x y) (h' : ¬p → Simulates r x' y') :
    Simulates r (if p then x else x') (if q then y else y') := by
  by_cases hp : p
  · rw [if_pos hp, if_pos (hpq.mp hp)]
    exact h hp
  · rw [if_neg hp, if_neg (mt hpq.mpr hp)]
    exact h' hp

/-- An assertion of the first system holds in the second as well. -/
theorem simulates_guard (hpq : p → q) (h : p → Simulates r x y) :
    Simulates r (if p then x else none) (if q then y else none) := by
  intro a ha
  obtain ⟨hp, ha⟩ := Option.ite_none_right_eq_some.mp ha
  rw [if_pos (hpq hp)]
  exact h hp ha

end Simulates

/-- If every step that meets the condition is matched by one step of a second system, so is every run
whose steps all meet it. -/
theorem run_map (event : ε → δ) (Rel : σ → τ → Prop) (hstep : ∀ s t e s', Rel s t → ok s e → step s e = some s' →
      ∃ t', step' t (event e) = some t' ∧ Rel s' t')
    {t : τ} (hrel : Rel s t) (hmeets : Meets step ok s es) (hrun : run step s es = some s') :
    ∃ t', run step' t (es.map event) = some t' ∧ Rel s' t' := by
  induction es generalizing s t with
  | nil =>
    cases hrun
    exact ⟨t, rfl, hrel⟩
  | cons e es ih =>
    obtain ⟨m, hm, hrest⟩ := run_cons_eq_some.mp hrun
    obtain ⟨t', ht', hrel'⟩ := hstep s t e m hrel hmeets.1 hm
    obtain ⟨t'', ht'', hrel''⟩ := ih hrel' (hmeets.2 m hm) hrest
    exact ⟨t'', run_cons_eq_some.mpr ⟨t', ht', ht''⟩, hrel''⟩

theorem run_view {step' : τ → ε → Option τ} (view : σ → τ) (Inv : σ → Prop)
    (hview : ∀ s e, Inv s → (step s e).map view = step' (view s) e)
    (hinv : ∀ s e s', Inv s → step s e = some s' → Inv s') (hs : Inv s) (es : List ε) :
    (run step s es).map view = run step' (view s) es := by
  induction es generalizing s with
  | nil => rfl
  | cons e es ih =>
    rw [run_cons, run_cons, ← hview s e hs]
    cases hstep : step s e with
    | none => rfl
    | some s' => exact ih (hinv s e s' hs hstep)

def expand (step : σ → ε → Option σ) (events : σ → ε → List δ) : σ → List ε → List δ
  | _, [] => []
  | s, e :: es => events s e ++ (step s e).elim [] fun s' => expand step events s' es

/-- If every step that meets the condition is matched by a run of a second system, so is every run
whose steps all meet it. -/
theorem run_expand {events : σ → ε → List δ} (Rel : σ → τ → Prop)
    (hstep : ∀ s t e s', Rel s t → ok s e → step s e = some s' → ∃ t', run step' t (events s e) = some t' ∧ Rel s' t')
    {t : τ} (hrel : Rel s t) (hmeets : Meets step ok s es) (hrun : run step s es = some s') :
    ∃ t', run step' t (expand step events s es) = some t' ∧ Rel s' t' := by
  induction es generalizing s t with
  | nil =>
    cases hrun
    exact ⟨t, rfl, hrel⟩
  | cons e es ih =>
    obtain ⟨m, hm, hrest⟩ := run_cons_eq_some.mp hrun
    obtain ⟨t', ht', hrel'⟩ := hstep s t e m hrel hmeets.1 hm
    obtain ⟨t'', ht'', hrel''⟩ := ih hrel' (hmeets.2 m hm) hrest
    refine ⟨t'', ?_, hrel''⟩
    rw [expand, hm]
    exact run_append_of_eq_some ht' ht''

end XogMobile.Lib
