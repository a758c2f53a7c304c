import XogMobile.Lib.Run
import Mathlib.Data.Fintype.Basic

/-!
# Threads over locks

Threads run one program each, over a shared state and a set of locks. An event is one step of one
thread: it takes a free lock, gives a lock back, or acts on the shared state. `Locks` says which locks
are held at each point of the program; then the owner of a lock is the thread that is at such a point.
A set of threads each blocked on a lock of another one is a deadlock, and none is reachable when the
locks that blocked threads hold and want are in order.
-/

namespace XogMobile.Lib

open Function

/-- What a thread at a point of the program does. `act` may depend on a choice of the schedule. -/
inductive Instr (σ P L : Type) where
  | lock (l : L) (next : P)
  | unlock (l : L) (next : P)
  | act (f : Nat → σ → Option (σ × P))

/-- Shared data, who holds each lock, and where each thread is. -/
structure Threads (σ P L T : Type) where
  shared : σ
  owner : L → Option T
  pc : T → P

/-- Whose step it is, and what the environment answers it. -/
structure Turn (T : Type) where
  thread : T
  choice : Nat

namespace Threads

variable {σ P L T : Type} [DecidableEq L] [DecidableEq T]

def step (code : P → Instr σ P L) (s : Threads σ P L T) (e : Turn T) : Option (Threads σ P L T) :=
  match code (s.pc e.thread) with
  | .lock l next =>
    match s.owner l with
    | none => some { s with
        owner := Function.update s.owner l (some e.thread)
        pc := Function.update s.pc e.thread next }
    | some _ => none
  | .unlock l next =>
    some { s with
      owner := Function.update s.owner l none
      pc := Function.update s.pc e.thread next }
  | .act f =>
    (f e.choice s.shared).map fun r =>
      { s with shared := r.1, pc := Function.update s.pc e.thread r.2 }

variable {code : P → Instr σ P L} {s s' : Threads σ P L T} {e : Turn T}

/-- What one step of a thread does, by kind of instruction. -/
inductive Moves (code : P → Instr σ P L) (s : Threads σ P L T) (e : Turn T) :
    Threads σ P L T → Prop
  | lock {l : L} {next : P} (hcode : code (s.pc e.thread) = .lock l next) (hfree : s.owner l = none) :
      Moves code s e { s with
        owner := Function.update s.owner l (some e.thread)
        pc := Function.update s.pc e.thread next }
  | unlock {l : L} {next : P} (hcode : code (s.pc e.thread) = .unlock l next) :
      Moves code s e { s with
        owner := Function.update s.owner l none
        pc := Function.update s.pc e.thread next }
  | act {f : Nat → σ → Option (σ × P)} {shared : σ} {next : P}
      (hcode : code (s.pc e.thread) = .act f) (hact : f e.choice s.shared = some (shared, next)) :
      Moves code s e { s with shared := shared, pc := Function.update s.pc e.thread next }

theorem step_moves (h : step code s e = some s') : Moves code s e s' := by
  rw [step] at h
  split at h
  · next l next hcode =>
    split at h
    · next hfree =>
      cases h
      exact .lock hcode hfree
    · cases h
  · next l next hcode =>
    cases h
    exact .unlock hcode
  · next f hcode =>
    obtain ⟨⟨shared, next⟩, hact, rfl⟩ := Option.map_eq_some_iff.mp h
    exact .act hcode hact

theorem step_of_act {t : T} {c : Nat} {f : Nat → σ → Option (σ × P)} {x' : σ} {next : P}
    (hcode : code (s.pc t) = .act f) (hact : f c s.shared = some (x', next)) :
    step code s ⟨t, c⟩ = some { s with shared := x', pc := update s.pc t next } := by
  simp only [step, hcode, hact, Option.map_some]

section At

variable {x x' : σ} {owner : L → Option T} {pc : T → P} {t : T} {c : Nat} {p next : P} {l : L}
  {f : Nat → σ → Option (σ × P)}

theorem step_at_lock (hcode : code p = .lock l next) (hfree : owner l = none) :
    step code ⟨x, owner, Function.update pc t p⟩ ⟨t, c⟩ =
      some ⟨x, Function.update owner l (some t), Function.update pc t next⟩ := by
  simp only [step, update_self, hcode, hfree, update_idem]

theorem step_at_unlock (hcode : code p = .unlock l next) : step code ⟨x, owner, Function.update pc t p⟩ ⟨t, c⟩ =
      some ⟨x, Function.update owner l none, Function.update pc t next⟩ := by
  simp only [step, update_self, hcode, update_idem]

theorem step_at_act (hcode : code p = .act f) (hact : f c x = some (x', next)) :
    step code ⟨x, owner, Function.update pc t p⟩ ⟨t, c⟩ = some ⟨x', owner, Function.update pc t next⟩ := by
  simp only [step, update_self, hcode, hact, Option.map_some, update_idem]

end At

/-- The program goes from `p` to `next` in one step. -/
inductive Goes (code : P → Instr σ P L) (p next : P) : Prop
  | lock {l : L} (hcode : code p = .lock l next)
  | unlock {l : L} (hcode : code p = .unlock l next)
  | act {f : Nat → σ → Option (σ × P)} {c : Nat} {x x' : σ} (hcode : code p = .act f)
      (hact : f c x = some (x', next))

theorem Moves.goes (h : Moves code s e s') : Goes code (s.pc e.thread) (s'.pc e.thread) := by
  cases h <;> dsimp only <;> rw [update_self]
  case lock hcode hfree => exact .lock hcode
  case unlock hcode => exact .unlock hcode
  case act hcode hact => exact .act hcode hact

theorem Moves.pc_of_ne (h : Moves code s e s') {t : T} (ht : t ≠ e.thread) : s'.pc t = s.pc t := by
  cases h <;> exact update_of_ne ht _ _

/-- `held p` are the locks held at `p`, as the program takes and gives them. -/
structure Locks (code : P → Instr σ P L) (held : P → L → Bool) : Prop where
  lock : ∀ {p l next}, code p = .lock l next → held next = Function.update (held p) l true
  unlock : ∀ {p l next}, code p = .unlock l next → held next = Function.update (held p) l false
  owned : ∀ {p l next}, code p = .unlock l next → held p l = true
  act : ∀ {p f c x x' next}, code p = .act f → f c x = some (x', next) → held next = held p

variable {held : P → L → Bool} {l : L}

/-- A lock is owned where the program counter says it is held. -/
def Owned (held : P → L → Bool) (s : Threads σ P L T) : Prop :=
  ∀ l t, s.owner l = some t ↔ held (s.pc t) l = true

omit [DecidableEq L] [DecidableEq T] in
theorem Owned.unique (h : Owned held s) {t u : T} (ht : held (s.pc t) l = true) (hu : held (s.pc u) l = true) : t = u :=
  Option.some.inj (((h l t).mpr ht).symm.trans ((h l u).mpr hu))

theorem Owned.update (howned : Owned held s) {t : T} {next : P} {owner : Option T} {b : Bool}
    (hnext : held next = Function.update (held (s.pc t)) l b) (hself : owner = some t ↔ b = true)
    (hothers : ∀ u, u ≠ t → (owner = some u ↔ held (s.pc u) l = true)) :
    Owned held { s with
      owner := Function.update s.owner l owner
      pc := Function.update s.pc t next } := by
  intro m u
  dsimp only
  by_cases hu : u = t
  · subst hu
    rw [update_self, hnext]
    by_cases hm : m = l
    · subst hm
      rw [update_self, update_self]
      exact hself
    · rw [update_of_ne hm, update_of_ne hm]
      exact howned m u
  · rw [update_of_ne hu]
    by_cases hm : m = l
    · subst hm
      rw [update_self]
      exact hothers u hu
    · rw [update_of_ne hm]
      exact howned m u

theorem Moves.owned (hlocks : Locks code held) (howned : Owned held s) (h : Moves code s e s') : Owned held s' := by
  cases h with
  | @lock l next hcode hfree =>
    refine howned.update (hlocks.lock hcode) (iff_of_true rfl rfl) fun u hu => ?_
    refine iff_of_false (fun heq => hu (Option.some.inj heq).symm) fun hheld => ?_
    rw [(howned l u).mpr hheld] at hfree
    cases hfree
  | @unlock l next hcode =>
    refine howned.update (hlocks.unlock hcode) (iff_of_false nofun nofun) fun u hu => ?_
    exact iff_of_false nofun fun hheld => hu (howned.unique hheld (hlocks.owned hcode))
  | @act f shared next hcode hact =>
    intro m t
    dsimp only
    by_cases ht : t = e.thread
    · subst ht
      rw [update_self, hlocks.act hcode hact]
      exact howned m e.thread
    · rw [update_of_ne ht]
      exact howned m t

/-- Thread `t` wants the lock `l` that `u` holds. -/
structure BlockedOn (code : P → Instr σ P L) (s : Threads σ P L T) (t : T) (l : L) (u : T) :
    Prop where
  wants : ∃ next, code (s.pc t) = .lock l next
  owner : s.owner l = some u
  ne : u ≠ t

/-- Each thread of a set is blocked on a lock that another one of the set holds. -/
def Deadlock (code : P → Instr σ P L) (s : Threads σ P L T) : Prop :=
  ∃ S : Set T, S.Nonempty ∧ ∀ t ∈ S, ∃ u ∈ S, ∃ l, BlockedOn code s t l u

omit [DecidableEq L] [DecidableEq T] in
/-- No deadlock where a blocked thread wants a lock above each lock it is itself blocking with. -/
theorem not_deadlock_of_rank (rank : L → Nat) (bound : Nat) (hbound : ∀ l, rank l < bound)
    (horder : ∀ t u v w l m n, BlockedOn code s t l u → BlockedOn code s u m v →
      BlockedOn code s v n w → rank l < rank m) : ¬ Deadlock code s := by
  rintro ⟨S, ⟨t, ht⟩, hS⟩
  -- Along the chain of blocked threads the rank of the wanted lock grows without end.
  have hgrows : ∀ k, ∃ t ∈ S, ∃ u ∈ S, ∃ l, BlockedOn code s t l u ∧ k ≤ rank l := by
    intro k
    induction k with
    | zero =>
      obtain ⟨u, hu, l, h⟩ := hS t ht
      exact ⟨t, ht, u, hu, l, h, Nat.zero_le _⟩
    | succ k ih =>
      obtain ⟨t, -, u, hu, l, hblocked, hk⟩ := ih
      obtain ⟨v, hv, m, hblocked'⟩ := hS u hu
      obtain ⟨w, -, n, hblocked''⟩ := hS v hv
      have hlt := horder t u v w l m n hblocked hblocked' hblocked''
      exact ⟨u, hu, v, hv, m, hblocked', by omega⟩
  obtain ⟨t, -, u, -, l, -, hk⟩ := hgrows bound
  exact absurd (hbound l) (by omega)

end Threads

/-! ## Schedules that end -/

variable {σ ε : Type*} {step : σ → ε → Option σ} {final : σ → Prop} {s : σ}

/-- Every schedule ends, and in a final state, if it goes on for as long as any event can happen. -/
inductive Ends (step : σ → ε → Option σ) (final : σ → Prop) : σ → Prop
  | intro {s : σ} (later : ∀ e s', step s e = some s' → Ends step final s')
      (stuck : (∀ e, step s e = none) → final s) : Ends step final s

theorem Ends.final_of_run {s' : σ} (es : List ε) (h : Ends step final s)
    (hrun : run step s es = some s') (hstuck : ∀ e, step s' e = none) : final s' := by
  induction es generalizing s with
  | nil =>
    cases hrun
    cases h with
    | intro _ stuck => exact stuck hstuck
  | cons e es ih =>
    obtain ⟨m, hm, hrest⟩ := run_cons_eq_some.mp hrun
    cases h with
    | intro later _ => exact ih (later e m hm) hrest

theorem not_ends_of_invariant (Inv : σ → Prop)
    (hstep : ∀ s e s', Inv s → step s e = some s' → Inv s') (hfinal : ∀ s, Inv s → ¬ final s)
    (hinv : Inv s) : ¬ Ends step final s := by
  intro h
  induction h with
  | @intro s later stuck ih =>
    refine hfinal s hinv (stuck fun e => ?_)
    cases he : step s e with
    | none => rfl
    | some s' => exact (ih e s' he (hstep s e s' hinv he)).elim

def endsIn [Fintype ε] (step : σ → ε → Option σ) (final : σ → Prop) [DecidablePred final] :
    Nat → σ → Bool
  | 0, _ => false
  | k + 1, s => decide (∀ e, (step s e).all (endsIn step final k) = true) &&
      (decide (∃ e, (step s e).isSome) || final s)

theorem ends_of_endsIn [Fintype ε] [DecidablePred final] {k : Nat}
    (h : endsIn step final k s = true) : Ends step final s := by
  induction k generalizing s with
  | zero => cases h
  | succ k ih =>
    simp only [endsIn, Bool.and_eq_true, Bool.or_eq_true, decide_eq_true_eq] at h
    refine ⟨fun e s' hs' => ?_, fun hstuck => ?_⟩
    · have hall := h.1 e
      rw [hs'] at hall
      exact ih hall
    · refine h.2.resolve_left fun ⟨e, he⟩ => ?_
      rw [hstuck e] at he
      cases he

end XogMobile.Lib
