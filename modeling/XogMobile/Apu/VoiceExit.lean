import XogMobile.Lib.Threads
import Mathlib.Data.Fintype.Option

/-!
# The voice workers leave

`voice_work_finalize` asks the workers to leave, wakes them and joins them one after the other. A worker
finds `workers_should_exit` set after its wait, with the lock taken again, and returns without giving
the lock back: the next one cannot come out of its wait. What a worker does on its way to the wait is
left out up to the last lock it takes: its bit of `workers_pending` and `work_finished`, for which no
thread waits here.
-/

namespace XogMobile.Apu

open Lib Threads Function

variable {n : Nat}

structure Leaving (n : Nat) where
  shouldExit : Bool
  (asleep returned : Fin n → Bool)

/-- Places in `voice_work_finalize` and, from the last lock before the wait on, in
`voice_worker_thread`. -/
inductive ExitPoint (n : Nat) where
  | lock
  | setExit
  | broadcast
  | unlock
  | join (i : Nat)
  | joined
  | workerRelock (i : Fin n)
  | workerEnqueue (i : Fin n)
  | workerRelease (i : Fin n)
  | workerBlocked (i : Fin n)
  | workerReacquire (i : Fin n)
  | workerTest (i : Fin n)
  | workerReturned (i : Fin n)
  deriving DecidableEq

open ExitPoint

def exitCode : ExitPoint n → Instr (Leaving n) (ExitPoint n) Unit
  | lock => .lock () setExit
  | setExit => .act fun _ x => some ({ x with shouldExit := true }, broadcast)
  | broadcast => .act fun _ x => some ({ x with asleep := fun _ => false }, unlock)
  | unlock => .unlock () (join 0)
  -- `qemu_thread_join`
  | join i => .act fun _ x =>
    if h : i < n then if x.returned ⟨i, h⟩ then some (x, join (i + 1)) else none else some (x, joined)
  | joined => .act fun _ _ => none
  | workerRelock i => .lock () (workerEnqueue i)
  -- `qemu_cond_wait(&vwd->work_pending, &vwd->lock)`
  | workerEnqueue i => .act fun _ x => some ({ x with asleep := update x.asleep i true }, workerRelease i)
  | workerRelease i => .unlock () (workerBlocked i)
  | workerBlocked i => .act fun _ x => if x.asleep i then none else some (x, workerReacquire i)
  | workerReacquire i => .lock () (workerTest i)
  | workerTest i => .act fun _ x =>
    some (if x.shouldExit then ({ x with returned := update x.returned i true }, workerReturned i)
      else (x, workerEnqueue i))
  | workerReturned _ => .act fun _ _ => none

def exitHeld : ExitPoint n → Unit → Bool
  | setExit, _ | broadcast, _ | unlock, _ | workerEnqueue _, _ | workerRelease _, _ | workerTest _, _
  | workerReturned _, _ => true
  | _, _ => false

/-- Workers that are idle or on their way to the wait; `holder` has the lock. -/
structure Settling (n : Nat) where
  place : Fin n → ExitPoint n
  holder : Option (Fin n)
  on_way : ∀ i, place i ∈ [workerRelock i, workerEnqueue i, workerRelease i, workerBlocked i]
  holder_iff : ∀ i, holder = some i ↔ exitHeld (place i) () = true

abbrev ExitThreads (n : Nat) := Threads (Leaving n) (ExitPoint n) Unit (Option (Fin n))

def Settling.start (w : Settling n) : ExitThreads n where
  shared := ⟨false, fun i => w.place i ∈ [workerRelease i, workerBlocked i], fun _ => false⟩
  owner := fun _ => w.holder.map some
  pc := fun t => t.elim lock w.place

def Joined (s : ExitThreads n) : Prop := s.pc none = joined ∧ ∀ i, s.shared.returned i = true

instance (s : ExitThreads n) : Decidable (Joined s) := inferInstanceAs (Decidable (_ ∧ _))

/-- A turn of one thread; no step here depends on a choice. -/
def exitStep (s : ExitThreads n) (t : Option (Fin n)) : Option (ExitThreads n) :=
  Threads.step exitCode s ⟨t, 0⟩

theorem exitLocks : Locks (exitCode (n := n)) exitHeld where
  lock {p l next} h := by
    cases p <;> cases h <;> rfl
  unlock {p l next} h := by
    cases p <;> cases h <;> rfl
  owned {p l next} h := by
    cases p <;> cases h <;> rfl
  act {p f c x x' next} h hact := by
    cases p <;> cases h <;> grind [exitHeld]

variable {s s' : ExitThreads n}

/-- A worker that has returned still holds the lock. -/
structure ExitInv (s : ExitThreads n) : Prop where
  owned : Owned exitHeld s
  returned : ∀ i, s.shared.returned i = true → ∃ t, s.pc t = workerReturned i

theorem ExitInv.step {t : Option (Fin n)} (h : ExitInv s) (hstep : exitStep s t = some s') : ExitInv s' := by
  have hmoves := step_moves hstep
  refine ⟨hmoves.owned exitLocks h.owned, fun i hi => ?_⟩
  have hold : s.shared.returned i = true → ∃ t, s'.pc t = workerReturned i := by
    intro hi
    obtain ⟨u, hu⟩ := h.returned i hi
    refine ⟨u, (hmoves.pc_of_ne ?_).trans hu⟩
    rintro rfl
    rw [exitStep, Threads.step, hu] at hstep
    cases hstep
  cases hmoves with
  | lock | unlock => exact hold hi
  | @act f x' next hcode hact =>
    by_cases hnext : next = workerReturned i
    · exact ⟨t, hnext ▸ update_self ..⟩
    · refine hold ?_
      generalize s.pc t = p at hcode
      cases p with
      | workerTest j =>
        cases hcode
        have heq := Option.some.inj hact
        split at heq <;> cases heq
        · have hne : i ≠ j := by
            rintro rfl
            exact hnext rfl
          exact (update_of_ne hne ..).symm.trans hi
        · exact hi
      | _ => cases hcode <;> grind

theorem ExitInv.start (w : Settling n) : ExitInv w.start where
  owned l t := by
    cases t with
    | none => simp [Settling.start, exitHeld]
    | some i => simpa [Settling.start] using w.holder_iff i
  returned := nofun

theorem ExitInv.not_joined {s : ExitThreads (n + 2)} (h : ExitInv s) : ¬ Joined s := by
  intro hjoined
  obtain ⟨t, ht⟩ := h.returned 0 (hjoined.2 0)
  obtain ⟨u, hu⟩ := h.returned 1 (hjoined.2 1)
  have heq : t = u := h.owned.unique (l := ()) (by rw [ht]; rfl) (by rw [hu]; rfl)
  rw [heq, hu] at ht
  cases ht

/-- `voice_work_finalize` returns under every schedule, with every worker joined, exactly where there
is one worker and it is in the wait or holds the lock up to it. -/
theorem finalize_returns_iff (w : Settling (n + 1)) :
    Ends exitStep Joined w.start ↔ n = 0 ∧ ∀ i, w.place i ≠ workerRelock i := by
  cases n with
  | succ n =>
    refine iff_of_false ?_ nofun
    exact not_ends_of_invariant ExitInv (fun _ _ _ h => h.step) (fun _ h => h.not_joined) (.start w)
  | zero =>
    obtain ⟨place, holder, on_way, holder_iff⟩ := w
    obtain ⟨p, rfl⟩ : ∃ p, place = fun _ => p :=
      ⟨place 0, funext fun i => by rw [Fin.fin_one_eq_zero i]⟩
    have hholder : holder = if exitHeld p () then some 0 else none := by
      have h := holder_iff 0
      cases holder with
      | none => grind
      | some i =>
        rw [Fin.fin_one_eq_zero i] at h ⊢
        exact (if_pos (h.mp rfl)).symm
    have hp := on_way 0
    simp only [List.mem_cons, List.not_mem_nil, or_false] at hp
    subst hholder
    rcases hp with rfl | rfl | rfl | rfl
    · -- the broadcast finds nobody in the wait, and the worker then sleeps for good
      refine iff_of_false (fun h => ?_) fun h => h.2 0 rfl
      have hjoined := h.final_of_run (List.replicate 4 none ++ List.replicate 3 (some 0)) rfl
        fun | none => rfl | some ⟨0, _⟩ => rfl
      exact absurd hjoined.1 nofun
    all_goals exact iff_of_true (ends_of_endsIn (k := 12) rfl) ⟨rfl, nofun⟩

def twoIdle : Settling 2 where
  place := workerBlocked
  holder := none
  on_way := by decide
  holder_iff := by decide

/-- A worker returns with the lock still held, so the second one never gets it. -/
theorem two_workers_hang : ¬ Ends exitStep Joined twoIdle.start :=
  not_ends_of_invariant ExitInv (fun _ _ _ h => h.step) (fun _ h => h.not_joined) (.start twoIdle)

end XogMobile.Apu
