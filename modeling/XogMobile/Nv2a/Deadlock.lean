import XogMobile.Nv2a.Threads

/-!
# Deadlocks of the locks around PFIFO

Everywhere but in one place a thread that holds `pfifo.lock` or `pgraph.lock` and wants another lock
wants a later one in the order `pfifo.lock`, `pgraph.lock`, `renderer_lock`. A renderer switch takes
`pfifo.lock` with `pgraph.lock` held, so a thread that takes `pfifo.lock` in the window before and goes
on to `pgraph.lock` is blocked with it for good.
-/

namespace XogMobile.Nv2a.Locking

open Lib Lib.Threads

abbrev State (ι : Type) := Threads Flags Pc Lock (Thread ι)

def Flags.init (framebufferInUse : Bool) : Flags where
  halt := false
  fifoKick := false
  fifoCond := 0
  fifoIdleCond := 0
  downloadsPending := false
  downloadsComplete := false
  downloadDirtySurfacesPending := false
  dirtySurfacesDownloadComplete := false
  flushPending := false
  flushComplete := false
  rendererSwitchPhase := .idle
  rendererSwitchComplete := false
  rendererSwitchQueued := false
  framebufferInUse := framebufferInUse

def State.init {ι : Type} (scales : ι → Bool) (framebufferInUse : Bool) : State ι where
  shared := .init framebufferInUse
  owner _ := none
  pc
    | .pfifo => .threadLock
    | .other i => if scales i then .scaleFree else .free

variable {ι : Type} {s s' : State ι}

/-- Each thread stays in the regions of its role. -/
structure Roles (scales : ι → Bool) (s : State ι) : Prop where
  pfifo : (region (s.pc .pfifo)).role = .fifo
  other : ∀ i, (region (s.pc (.other i))).role = if scales i then .scale else .other

theorem role_of_reachedFrom {a b : Region} (h : b.reachedFrom a = true) : b.role = a.role := by
  revert h
  cases a <;> cases b <;> decide

theorem init_roles (scales : ι → Bool) (framebufferInUse : Bool) :
    Roles scales (State.init scales framebufferInUse) := by
  refine ⟨rfl, fun i => ?_⟩
  change (region (if scales i then .scaleFree else .free)).role = _
  cases scales i <;> rfl

theorem init_owned (scales : ι → Bool) (framebufferInUse : Bool) : Owned held (State.init scales framebufferInUse) := by
  intro l t
  refine iff_of_false (Option.some_ne_none t).symm ?_
  cases t with
  | pfifo => cases l <;> exact Bool.false_ne_true
  | other i =>
    change ¬ held (if scales i then .scaleFree else .free) l = true
    cases scales i <;> cases l <;> exact Bool.false_ne_true

variable [DecidableEq ι] {scales : ι → Bool} {e : Turn (Thread ι)}

theorem moves_role (h : Moves code s e s') (t : Thread ι) : (region (s'.pc t)).role = (region (s.pc t)).role := by
  by_cases ht : t = e.thread
  · rw [ht]
    exact role_of_reachedFrom (goes_region h.goes)
  · rw [h.pc_of_ne ht]

theorem moves_roles (h : Moves code s e s') (hroles : Roles scales s) : Roles scales s' where
  pfifo := (moves_role h .pfifo).trans hroles.pfifo
  other i := (moves_role h (.other i)).trans (hroles.other i)

/-- Whether this step leaves the renderer switch alone: in its window no thread takes `pfifo.lock` to
wait for `pgraph.lock` with it. -/
def leavesSwitch (s : State ι) (e : Turn (Thread ι)) : Bool :=
  region (s.pc .pfifo) != .switchWindow || region (s.pc e.thread) != .pairEntry

/-- No other thread waits for `pgraph.lock` with `pfifo.lock` in the window of a switch. -/
def SwitchClear (s : State ι) : Prop :=
  region (s.pc .pfifo) = .switchWindow → ∀ i, region (s.pc (.other i)) ≠ .pair

variable {p next : Pc}

theorem held_of_pair (h : region p = .pair) : held p .pfifo = true := by
  cases p <;> first | rfl | cases h

theorem held_of_switchEntry (h : region p = .switchEntry) : held p .pfifo = true := by
  cases p <;> first | rfl | cases h

theorem moves_switchClear (h : Moves code s e s') (howned : Owned held s)
    (hclear : SwitchClear s) (hok : leavesSwitch s e = true) : SwitchClear s' := by
  intro hwindow i hpair
  have hreached : (region (s'.pc e.thread)).reachedFrom (region (s.pc e.thread)) = true := goes_region h.goes
  by_cases hpfifo : .pfifo = e.thread
  · -- The PFIFO thread enters the window with `pfifo.lock` in hand.
    have hother : s'.pc (.other i) = s.pc (.other i) := h.pc_of_ne (hpfifo ▸ nofun)
    rw [hother] at hpair
    rw [← hpfifo, hwindow] at hreached
    simp only [Region.reachedFrom, Bool.or_eq_true, beq_iff_eq] at hreached
    obtain hentry | hin := hreached
    · exact nomatch howned.unique (held_of_switchEntry hentry) (held_of_pair hpair)
    · exact hclear hin i hpair
  rw [h.pc_of_ne hpfifo] at hwindow
  by_cases hi : .other i = e.thread
  · rw [← hi, hpair] at hreached
    have hentry : region (s.pc e.thread) = .pairEntry := by
      simpa [Region.reachedFrom, hi] using hreached
    simp [leavesSwitch, hwindow, hentry] at hok
  · rw [h.pc_of_ne hi] at hpair
    exact hclear hwindow i hpair

def rank : Lock → Nat
  | .pfifo => 0
  | .pgraph => 1
  | .renderer => 2

theorem lock_order {l m : Lock} (hcode : code p = .lock m next) (hheld : held p l = true) (hscale : region p ≠ .scale) :
    rank l < rank m ∨ l = .renderer ∨ (region p = .switchWindow ∧ m = .pfifo) := by
  cases p <;> cases hcode <;> cases l <;> first
    | exact .inr (.inl rfl)
    | exact .inl (by decide)
    | exact .inr (.inr ⟨rfl, rfl⟩)
    | exact absurd rfl hscale
    | cases hheld

theorem fifo_of_renderer (h : held p .renderer = true) (hscale : region p ≠ .scale) : (region p).role = .fifo := by
  cases p <;> first | rfl | exact absurd rfl hscale | cases h

theorem fifo_of_lock_renderer (h : code p = .lock .renderer next) (hscale : region p ≠ .scale) :
    (region p).role = .fifo := by
  cases p <;> cases h <;> first | rfl | exact absurd rfl hscale

theorem pair_of_lock {m : Lock} (h : code p = .lock m next) (hheld : held p .pfifo = true)
    (hother : (region p).role = .other) : region p = .pair := by
  cases p <;> cases h <;> first | rfl | (cases hother; done) | cases hheld

omit [DecidableEq ι] in
theorem not_deadlock (howned : Owned held s) (hroles : Roles (fun _ => false) s)
    (hclear : SwitchClear s) : ¬ Deadlock code s := by
  have hscale : ∀ t, region (s.pc t) ≠ .scale := by
    intro t ht
    cases t with
    | pfifo => exact absurd (ht ▸ hroles.pfifo) (by decide)
    | other i => exact absurd (ht ▸ hroles.other i) (by decide)
  have hpfifo : ∀ t, (region (s.pc t)).role = .fifo → t = .pfifo := by
    intro t ht
    cases t with
    | pfifo => rfl
    | other i => exact absurd (ht.symm.trans (hroles.other i)) (by decide)
  refine not_deadlock_of_rank rank 3 (fun l => by cases l <;> decide) ?_
  intro t u v w l m n ht hu hv
  obtain ⟨next, hcode⟩ := hu.wants
  obtain hlt | rfl | ⟨hwindow, rfl⟩ := lock_order hcode ((howned l u).mp ht.owner) (hscale u)
  · exact hlt
  · obtain ⟨next', hcode'⟩ := ht.wants
    have htf := hpfifo t (fifo_of_lock_renderer hcode' (hscale t))
    have huf := hpfifo u (fifo_of_renderer ((howned _ u).mp ht.owner) (hscale u))
    exact absurd (huf.trans htf.symm) ht.ne
  · have huf := hpfifo u (by rw [hwindow]; rfl)
    obtain ⟨next', hcode'⟩ := hv.wants
    cases v with
    | pfifo => exact absurd huf.symm hu.ne
    | other i =>
      have hpair := pair_of_lock hcode' ((howned _ _).mp hu.owner) (hroles.other i)
      exact absurd hpair (hclear (huf ▸ hwindow) i)

/-- In every run where no thread takes `pfifo.lock` for `pgraph.lock` in the window of a renderer
switch, no set of threads is deadlocked. -/
theorem locks_deadlock_free {framebufferInUse : Bool} {es : List (Turn (Thread ι))}
    (hrun : run (step code) (State.init (fun _ : ι => false) framebufferInUse) es = some s)
    (hmeets : Meets (step code) (fun s e => leavesSwitch s e = true)
      (State.init (fun _ : ι => false) framebufferInUse) es) : ¬ Deadlock code s := by
  obtain ⟨howned, hroles, hclear⟩ := run_invariant_of_meets
    (fun s => Owned held s ∧ Roles (fun _ => false) s ∧ SwitchClear s)
    (fun s e s' hinv hok hstep =>
      have hmoves := step_moves hstep
      ⟨hmoves.owned locks hinv.1, moves_roles hmoves hinv.2.1,
        moves_switchClear hmoves hinv.1 hinv.2.2 hok⟩)
    ⟨init_owned _ _, init_roles _ _, nofun⟩ hmeets hrun
  exact not_deadlock howned hroles hclear

/-- A reset that waits for an idle FIFO (`true`) and the CPU that waits for a renderer switch (`false`),
up to the window of the switch. The reset has been woken and has not taken `pfifo.lock` yet. -/
def switchDuringReset : List (Turn (Thread Bool)) :=
  [⟨.other true, 4⟩, ⟨.other true, 0⟩, ⟨.other true, 0⟩, ⟨.other true, 0⟩, ⟨.pfifo, 0⟩, ⟨.pfifo, 0⟩,
    ⟨.pfifo, 0⟩, ⟨.pfifo, 1⟩, ⟨.pfifo, 0⟩, ⟨.pfifo, 0⟩, ⟨.pfifo, 0⟩, ⟨.pfifo, 0⟩, ⟨.pfifo, 0⟩,
    ⟨.other true, 0⟩, ⟨.other false, 3⟩, ⟨.other false, 0⟩, ⟨.other false, 0⟩, ⟨.other false, 0⟩,
    ⟨.pfifo, 0⟩, ⟨.pfifo, 0⟩, ⟨.pfifo, 0⟩, ⟨.pfifo, 0⟩, ⟨.pfifo, 0⟩, ⟨.pfifo, 0⟩, ⟨.pfifo, 0⟩]

def switchBeforeReset : List (Turn (Thread Bool)) :=
  switchDuringReset ++ [⟨.pfifo, 0⟩, ⟨.pfifo, 0⟩, ⟨.pfifo, 0⟩, ⟨.pfifo, 0⟩, ⟨.pfifo, 0⟩, ⟨.pfifo, 0⟩,
    ⟨.other true, 0⟩, ⟨.other true, 0⟩]

theorem locks_deadlock_free_switch :
    ∃ s, run (step code) (State.init (fun _ : Bool => false) false) switchBeforeReset = some s ∧
      ¬ Deadlock code s := by
  refine exists_some_of_isSome (by decide +kernel) fun s hrun => ?_
  exact locks_deadlock_free hrun (by decide +kernel)

/-- The reset takes `pfifo.lock` in the window. -/
theorem locks_deadlock :
    ∃ s, run (step code) (State.init (fun _ : Bool => false) false)
      (switchDuringReset ++ [⟨.other true, 0⟩, ⟨.pfifo, 0⟩, ⟨.pfifo, 0⟩]) = some s ∧
      Deadlock code s := by
  obtain ⟨s, hs, hpfifo, hreset, howner, howner'⟩ : ∃ s, run (step code)
      (State.init (fun _ : Bool => false) false)
        (switchDuringReset ++ [⟨.other true, 0⟩, ⟨.pfifo, 0⟩, ⟨.pfifo, 0⟩]) = some s ∧
      s.pc .pfifo = .switchLockPfifo ∧ s.pc (.other true) = .lockPgraph .resetHalt ∧
      s.owner .pfifo = some (.other true) ∧ s.owner .pgraph = some .pfifo := by decide +kernel
  refine ⟨s, hs, {.pfifo, .other true}, ⟨.pfifo, .inl rfl⟩, ?_⟩
  rintro t (rfl | rfl)
  · exact ⟨.other true, .inr rfl, .pfifo, ⟨_, by rw [hpfifo]; rfl⟩, howner, nofun⟩
  · exact ⟨.pfifo, .inl rfl, .pgraph, ⟨_, by rw [hreset]; rfl⟩, howner', nofun⟩

end XogMobile.Nv2a.Locking
