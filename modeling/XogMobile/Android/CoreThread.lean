import XogMobile.Lib.Handle
import XogMobile.Lib.Run

/-!
# The life of the core thread

`nativeLaunch`, `nativeStop` and the end of `xemu_thread_main` in `android_backend.cpp`. Each of them
works under `g_lock` and gives it up only to join a finished thread and while `nativeStop` waits for
the core, so a step here is what a thread does between taking the lock and releasing it. Launches
come from the UI thread, stops from any thread.
-/

namespace XogMobile.Android

open Lib Function

/-- Where a core thread is in `xemu_thread_main`. After it has cleared `g_xemu_running` it still
notifies the condition variable and returns. -/
inductive Core where
  | unstarted
  | running
  | leaving
  | finished
  deriving DecidableEq

/-- What the checks of `nativeLaunch` read. `dupFd` is what `dup` returns. -/
structure LaunchArgs where
  (mcpxPath biosPath hddPath : String)
  (discFd dupFd : Int)
  deriving DecidableEq

inductive Reply where
  | missingFile
  | alreadyRunning
  | dupFailed
  | launched
  | stoppedCleanly
  | notRunning
  | pendingAfterTimeout
  deriving DecidableEq

/-- Where a thread is in `nativeLaunch` or `nativeStop`. In the `Join` states it holds the handle of
a finished thread in a local variable, in the `Locked` states it holds `g_lock`. -/
inductive Jni where
  | idle
  | launchJoin (args : LaunchArgs) (id : Nat)
  | launchRelock (args : LaunchArgs)
  | launchLocked (args : LaunchArgs)
  | stopJoin (id : Nat)
  | stopRelock
  | stopLocked
  | stopWait
  | stopCleanupLocked (requested stopped : Bool)
  | stopLastJoin (requested stopped : Bool) (id : Nat)
  deriving DecidableEq

/-- `g_xemu_thread` is joinable when `thread` is `some`. `joined` counts the joins of a thread and
`overwritten` the assignments to a joinable `g_xemu_thread`. -/
structure Backend where
  running : Bool
  (thread lock : Option Nat)
  started : Nat
  core : Nat → Core
  jni : Nat → Jni
  joined : Nat → Nat
  overwritten : Nat
  replies : List Reply

variable (s : Backend)

def Backend.setJni (t : Nat) (j : Jni) : Backend := { s with jni := update s.jni t j }

def Backend.setCore (id : Nat) (c : Core) : Backend := { s with core := update s.core id c }

def Backend.leave (t : Nat) (reply : Reply) : Backend :=
  { s.setJni t .idle with lock := none, replies := s.replies ++ [reply] }

def uiThread : Nat := 0

/-- `join_finished_core_locked`, up to the join: a finished thread is moved out and the lock
released, otherwise the call goes on under the lock. -/
def joinFinishedCoreLocked (t : Nat) (joining : Nat → Jni) (locked : Jni) : Backend :=
  match s.running, s.thread with
  | false, some id => { s.setJni t (joining id) with thread := none }
  | _, _ => { s.setJni t locked with lock := some t }

def joinThread (t id : Nat) (next : Jni) : Option Backend :=
  if s.core id = .finished then
    some { s.setJni t next with joined := update s.joined id (s.joined id + 1) }
  else none

def startCore : Backend :=
  { s.setCore s.started .running with
    running := true
    thread := some s.started
    started := s.started + 1
    overwritten := s.overwritten + if s.thread.isSome then 1 else 0 }

inductive LaunchEvent where
  | enter (args : LaunchArgs)
  | join
  | relock
  | launch

def nativeLaunch : LaunchEvent → Option Backend
  | .enter args =>
    if s.jni uiThread = .idle ∧ s.lock = none then
      some (joinFinishedCoreLocked s uiThread (.launchJoin args) (.launchLocked args))
    else none
  | .join =>
    match s.jni uiThread with
    | .launchJoin args id => joinThread s uiThread id (.launchRelock args)
    | _ => none
  | .relock =>
    match s.jni uiThread with
    | .launchRelock args =>
      if s.lock = none then
        some { s.setJni uiThread (.launchLocked args) with lock := some uiThread }
      else none
    | _ => none
  | .launch =>
    match s.jni uiThread with
    | .launchLocked args =>
      if args.mcpxPath.isEmpty ∨ args.biosPath.isEmpty ∨ args.hddPath.isEmpty then
        some (s.leave uiThread .missingFile)
      else if s.running then some (s.leave uiThread .alreadyRunning)
      else if 0 ≤ args.discFd ∧ args.dupFd < 0 then some (s.leave uiThread .dupFailed)
      else some ((startCore s).leave uiThread .launched)
    | _ => none

inductive StopEvent where
  | enter
  | join
  | relock
  | check
  | wake (timedOut : Bool)
  | cleanup
  | lastJoin

def stopReply (requested stopped : Bool) : Reply :=
  if stopped then if requested then .stoppedCleanly else .notRunning else .pendingAfterTimeout

def nativeStop (t : Nat) : StopEvent → Option Backend
  | .enter =>
    if s.jni t = .idle ∧ s.lock = none then
      some (joinFinishedCoreLocked s t .stopJoin .stopLocked)
    else none
  | .join =>
    match s.jni t with
    | .stopJoin id => joinThread s t id .stopRelock
    | _ => none
  | .relock =>
    match s.jni t with
    | .stopRelock =>
      if s.lock = none then some { s.setJni t .stopLocked with lock := some t } else none
    | _ => none
  | .check =>
    match s.jni t with
    | .stopLocked =>
      -- a running core is asked to shut down, and the wait releases the lock
      if s.running then some { s.setJni t .stopWait with lock := none }
      else some (s.setJni t (.stopCleanupLocked false true))
    | _ => none
  | .wake timedOut =>
    match s.jni t with
    | .stopWait =>
      if s.lock = none then
        if !s.running then
          some { s.setJni t (.stopCleanupLocked true true) with lock := some t }
        else if timedOut then
          some { s.setJni t (.stopCleanupLocked true false) with lock := some t }
        else some s
      else none
    | _ => none
  | .cleanup =>
    match s.jni t with
    | .stopCleanupLocked requested stopped =>
      match s.running, s.thread with
      | false, some id =>
        some { s.setJni t (.stopLastJoin requested stopped id) with
          thread := none, lock := none }
      | _, _ => some (s.leave t (stopReply requested stopped))
    | _ => none
  | .lastJoin =>
    match s.jni t with
    | .stopLastJoin requested stopped id =>
      (joinThread s t id .idle).map fun s' =>
        { s' with replies := s'.replies ++ [stopReply requested stopped] }
    | _ => none

/-- `xemu_android_main` returns and `g_xemu_running` is cleared under the lock; then the thread
returns. -/
inductive CoreEvent where
  | exit
  | finish

def xemuThreadMain (id : Nat) : CoreEvent → Option Backend
  | .exit =>
    if s.core id = .running ∧ s.lock = none then
      some { s.setCore id .leaving with running := false }
    else none
  | .finish => if s.core id = .leaving then some (s.setCore id .finished) else none

inductive BackendEvent where
  | launch (e : LaunchEvent)
  | stop (t : Nat) (e : StopEvent)
  | core (id : Nat) (e : CoreEvent)

def backendStep : BackendEvent → Option Backend
  | .launch e => nativeLaunch s e
  | .stop t e => nativeStop s t e
  | .core id e => xemuThreadMain s id e

def backendBoot : Backend where
  running := false
  thread := none
  lock := none
  started := 0
  core := fun _ => .unstarted
  jni := fun _ => .idle
  joined := fun _ => 0
  overwritten := 0
  replies := []

def Jni.held : Jni → Option Nat
  | .launchJoin _ id => some id
  | .stopJoin id => some id
  | .stopLastJoin _ _ id => some id
  | _ => none

def handles : Handles Nat where
  slot := s.thread
  held := fun t => (s.jni t).held
  joined := s.joined
  started := s.started

def Jni.isLocked : Jni → Prop
  | .launchLocked _ => True
  | .stopLocked => True
  | .stopCleanupLocked _ _ => True
  | _ => False

/-- What a launch may rely on: once it has dealt with a finished thread, nobody else can start one,
and under the lock nobody else can finish. -/
def LaunchOk (running : Bool) (thread : Option Nat) : Jni → Prop
  | .launchJoin _ _ => running = false ∧ thread = none
  | .launchRelock _ => running = false ∧ thread = none
  | .launchLocked _ => running = true ∨ thread = none
  | _ => True

/-- A running core is the thread on record, and no handle is overwritten. -/
structure BackendInv (s : Backend) : Prop where
  handles : (handles s).Ok
  core_running : ∀ id, s.core id = .running → s.running = true ∧ s.thread = some id
  locked : ∀ t, (s.jni t).isLocked → s.lock = some t
  launch : LaunchOk s.running s.thread (s.jni uiThread)
  overwritten : s.overwritten = 0

section Steps

variable {s s' : Backend} {t id : Nat} {j : Jni}

theorem held_setJni (s : Backend) (t : Nat) (j : Jni) : (fun t' => ((s.setJni t j).jni t').held) =
      update (fun t' => (s.jni t').held) t j.held := by
  funext t'
  exact Function.apply_update (fun _ => Jni.held) s.jni t j t'

theorem handles_setJni_of_held_eq (hheld : j.held = (s.jni t).held) : handles (s.setJni t j) = handles s := by
  have hsame : (fun t' => ((s.setJni t j).jni t').held) = fun t' => (s.jni t').held := by
    rw [held_setJni, hheld]
    exact update_eq_self t _
  rw [handles, hsame]
  rfl

theorem handles_take (hheld : j.held = some id) :
    handles { s.setJni t j with thread := none } = (handles s).take t id := by
  rw [Handles.take, ← hheld]
  exact congrArg (fun held => Handles.mk none held s.joined s.started) (held_setJni s t j)

theorem handles_join {next : Jni} (hheld : next.held = none) :
    handles { s.setJni t next with joined := update s.joined id (s.joined id + 1) } = (handles s).join t id := by
  rw [Handles.join, ← hheld]
  exact congrArg (fun held => Handles.mk s.thread held _ s.started) (held_setJni s t next)

theorem jni_setJni_of_ne {t' : Nat} (hne : t' ≠ t) : (s.setJni t j).jni t' = s.jni t' := update_of_ne hne _ _

theorem jni_setJni_self : (s.setJni t j).jni t = j := update_self ..

variable {lock : Option Nat}

section

variable (h : BackendInv s)
include h

theorem BackendInv.locked_of_owner (hown : s.lock = none ∨ s.lock = some t)
    (hj : j.isLocked → lock = some t) (t' : Nat) (ht' : ((s.setJni t j).jni t').isLocked) :
    lock = some t' := by
  by_cases hne : t' = t
  · rw [hne, jni_setJni_self] at ht'
    rw [hne]
    exact hj ht'
  · rw [jni_setJni_of_ne hne] at ht'
    have hlock := h.locked t' ht'
    rcases hown with hfree | hmine
    · rw [hfree] at hlock
      cases hlock
    · rw [hmine] at hlock
      exact absurd (Option.some_inj.mp hlock).symm hne

theorem BackendInv.locked_of_not_locked (hj : ¬ j.isLocked) (t' : Nat)
    (ht' : ((s.setJni t j).jni t').isLocked) : s.lock = some t' := by
  by_cases hne : t' = t
  · rw [hne, jni_setJni_self] at ht'
    exact absurd ht' hj
  · rw [jni_setJni_of_ne hne] at ht'
    exact h.locked t' ht'

theorem BackendInv.not_running (hrunning : s.running = false) (id : Nat) : s.core id ≠ .running := by
  intro hcore
  rw [(h.core_running id hcore).1] at hrunning
  cases hrunning

theorem BackendInv.launch_setJni (hj : t = uiThread → LaunchOk s.running s.thread j) :
    LaunchOk s.running s.thread ((s.setJni t j).jni uiThread) := by
  by_cases ht : uiThread = t
  · rw [← ht]
    exact hj ht.symm
  · rw [jni_setJni_of_ne ht]
    exact h.launch

end

theorem launchOk_none (j : Jni) : LaunchOk false none j := by
  cases j <;> simp [LaunchOk]

section

variable (h : BackendInv s)
include h

theorem BackendInv.move (j : Jni) (hheld : j.held = (s.jni t).held)
    (hlocked : ∀ t', ((s.setJni t j).jni t').isLocked → lock = some t')
    (hj : t = uiThread → LaunchOk s.running s.thread j) (replies : List Reply) :
    BackendInv { s.setJni t j with lock := lock, replies := replies } :=
  { h with
    handles := (handles_setJni_of_held_eq hheld).symm ▸ h.handles
    locked := hlocked
    launch := h.launch_setJni hj }

theorem BackendInv.take (hrunning : s.running = false)
    (hthread : s.thread = some id) (hheld : (s.jni t).held = none) (hj : j.held = some id)
    (hlocked : ∀ t', ((s.setJni t j).jni t').isLocked → lock = some t') :
    BackendInv { s.setJni t j with thread := none, lock := lock } where
  handles := by
    have hok := h.handles.take (t := t) hthread hheld
    rw [← handles_take hj] at hok
    exact hok
  core_running := fun id hcore => absurd hcore (h.not_running hrunning id)
  locked := hlocked
  launch := by
    rw [show (s.setJni t j).running = false from hrunning]
    exact launchOk_none _
  overwritten := h.overwritten

theorem BackendInv.joinThread (next : Jni)
    (hheld : (s.jni t).held = some id) (hnext : next.held = none) (hlocked : ¬ next.isLocked)
    (hj : t = uiThread → LaunchOk s.running s.thread next)
    (hstep : joinThread s t id next = some s') : BackendInv s' := by
  simp only [Android.joinThread] at hstep
  split_ifs at hstep
  cases hstep
  have hok := h.handles.join hheld
  rw [← handles_join hnext] at hok
  exact { h with
    handles := hok
    locked := h.locked_of_not_locked hlocked
    launch := h.launch_setJni hj }

theorem BackendInv.joinFinishedCoreLocked (hidle : s.jni t = .idle)
    (hfree : s.lock = none) {joining : Nat → Jni} {locked : Jni}
    (hjoining : ∀ id, (joining id).held = some id ∧ ¬ (joining id).isLocked)
    (hlocked : locked.held = none)
    (hlaunch : s.running = true ∨ s.thread = none → LaunchOk s.running s.thread locked) :
    BackendInv (joinFinishedCoreLocked s t joining locked) := by
  have hheld : (s.jni t).held = none := by rw [hidle]; rfl
  rw [Android.joinFinishedCoreLocked]
  split
  next id hrunning hthread =>
    refine h.take hrunning hthread hheld (hjoining id).1 (h.locked_of_owner (.inl hfree) ?_)
    exact fun hl => absurd hl (hjoining id).2
  next hother =>
    refine h.move locked (hlocked.trans hheld.symm) (h.locked_of_owner (.inl hfree) fun _ => rfl) ?_ _
    intro _
    apply hlaunch
    cases hrunning : s.running with
    | true => exact .inl rfl
    | false =>
      refine .inr (Option.eq_none_iff_forall_ne_some.mpr fun id hthread => ?_)
      exact hother id hrunning hthread

theorem BackendInv.startCore {args : LaunchArgs} (hrunning : s.running = false)
    (hthread : s.thread = none) (hj : s.jni uiThread = .launchLocked args) :
    BackendInv (startCore s) where
  handles := h.handles.start hthread
  core_running := by
    intro id hcore
    by_cases hid : id = s.started
    · rw [hid]
      exact ⟨rfl, rfl⟩
    · rw [show (Android.startCore s).core id = s.core id from update_of_ne hid _ _] at hcore
      exact absurd hcore (h.not_running hrunning id)
  locked := h.locked
  launch := by
    rw [show (Android.startCore s).jni uiThread = .launchLocked args from hj]
    exact .inl rfl
  overwritten := by
    change s.overwritten + (if s.thread.isSome then 1 else 0) = 0
    rw [hthread, h.overwritten]
    rfl

theorem BackendInv.leave (hheld : (s.jni t).held = none)
    (hlock : (s.jni t).isLocked) (reply : Reply) : BackendInv (s.leave t reply) :=
  h.move .idle hheld.symm (h.locked_of_owner (.inr (h.locked t hlock)) fun hl => False.elim hl)
    (fun _ => trivial) _

theorem BackendInv.nativeLaunch {e : LaunchEvent} (hstep : nativeLaunch s e = some s') : BackendInv s' := by
  have hlaunch := h.launch
  cases e <;> simp only [Android.nativeLaunch] at hstep
  case enter args =>
    obtain ⟨hcond, ⟨⟩⟩ := Option.ite_none_right_eq_some.mp hstep
    exact h.joinFinishedCoreLocked hcond.1 hcond.2 (fun id => ⟨rfl, fun hl => hl⟩) rfl
      fun hrest => hrest
  case join =>
    split at hstep <;> try cases hstep
    next args id hj =>
      rw [hj] at hlaunch
      exact h.joinThread (.launchRelock args) (by rw [hj]; rfl) rfl (fun hl => hl)
        (fun _ => hlaunch) hstep
  case relock =>
    split at hstep <;> try cases hstep
    next args hj =>
      split_ifs at hstep with hfree
      cases hstep
      rw [hj] at hlaunch
      exact h.move (.launchLocked args) (by rw [hj]; rfl)
        (h.locked_of_owner (.inl hfree) fun _ => rfl) (fun _ => .inr hlaunch.2) s.replies
  case launch =>
    split at hstep <;> try cases hstep
    next args hj =>
      have hlock : (s.jni uiThread).isLocked := by rw [hj]; trivial
      have hheld : (s.jni uiThread).held = none := by rw [hj]; rfl
      rw [hj] at hlaunch
      split_ifs at hstep with hmissing hrunning hdup <;> cases hstep
      · exact h.leave hheld hlock .missingFile
      · exact h.leave hheld hlock .alreadyRunning
      · exact h.leave hheld hlock .dupFailed
      · -- the lock is held since the finished thread was dealt with, so the slot is empty
        have hthread : s.thread = none := hlaunch.resolve_left hrunning
        rw [Bool.not_eq_true] at hrunning
        exact (h.startCore hrunning hthread hj).leave hheld hlock .launched

theorem BackendInv.nativeStop {e : StopEvent} (hstep : nativeStop s t e = some s') : BackendInv s' := by
  cases e <;> simp only [Android.nativeStop] at hstep
  case enter =>
    obtain ⟨hcond, ⟨⟩⟩ := Option.ite_none_right_eq_some.mp hstep
    exact h.joinFinishedCoreLocked hcond.1 hcond.2 (fun id => ⟨rfl, fun hl => hl⟩) rfl
      fun _ => trivial
  case join =>
    split at hstep <;> try cases hstep
    next id hj => exact h.joinThread .stopRelock (by rw [hj]; rfl) rfl (fun hl => hl) (fun _ => trivial) hstep
  case relock =>
    split at hstep <;> try cases hstep
    next hj =>
      split_ifs at hstep with hfree
      cases hstep
      exact h.move .stopLocked (by rw [hj]; rfl) (h.locked_of_owner (.inl hfree) fun _ => rfl)
        (fun _ => trivial) s.replies
  case check =>
    split at hstep <;> try cases hstep
    next hj =>
      have hlock := h.locked t (by rw [hj]; trivial)
      split_ifs at hstep <;> cases hstep
      · exact h.move .stopWait (by rw [hj]; rfl)
          (h.locked_of_owner (.inr hlock) fun hl => False.elim hl) (fun _ => trivial) s.replies
      · exact h.move (.stopCleanupLocked false true) (by rw [hj]; rfl)
          (h.locked_of_owner (.inr hlock) fun _ => hlock) (fun _ => trivial) s.replies
  case wake timedOut =>
    split at hstep <;> try cases hstep
    next hj =>
      split_ifs at hstep with hfree <;> cases hstep
      · exact h.move (.stopCleanupLocked true true) (by rw [hj]; rfl)
          (h.locked_of_owner (.inl hfree) fun _ => rfl) (fun _ => trivial) s.replies
      · exact h.move (.stopCleanupLocked true false) (by rw [hj]; rfl)
          (h.locked_of_owner (.inl hfree) fun _ => rfl) (fun _ => trivial) s.replies
      · exact h
  case cleanup =>
    split at hstep <;> try cases hstep
    next requested stopped hj =>
      have hlocked : (s.jni t).isLocked := by rw [hj]; trivial
      have hheld : (s.jni t).held = none := by rw [hj]; rfl
      split at hstep <;> cases hstep
      next id hrunning hthread =>
        exact h.take hrunning hthread hheld rfl
          (h.locked_of_owner (.inr (h.locked t hlocked)) fun hl => False.elim hl)
      next => exact h.leave hheld hlocked _
  case lastJoin =>
    split at hstep <;> try cases hstep
    next requested stopped id hj =>
      obtain ⟨m, hm, rfl⟩ := Option.map_eq_some_iff.mp hstep
      have hjoined := h.joinThread .idle (by rw [hj]; rfl) rfl (fun hl => hl) (fun _ => trivial) hm
      exact { hjoined with }

end

theorem running_of_setCore {c : Core} {id' : Nat} (hc : c ≠ .running)
    (hcore : (s.setCore id c).core id' = .running) : id' ≠ id ∧ s.core id' = .running := by
  change update s.core id c id' = .running at hcore
  by_cases hid : id' = id
  · rw [hid, update_self] at hcore
    exact absurd hcore hc
  · rw [update_of_ne hid] at hcore
    exact ⟨hid, hcore⟩

theorem BackendInv.xemuThreadMain {e : CoreEvent} (h : BackendInv s)
    (hstep : xemuThreadMain s id e = some s') : BackendInv s' := by
  cases e with simp only [Android.xemuThreadMain] at hstep
  | exit =>
    split_ifs at hstep with hcond
    cases hstep
    obtain ⟨hrunning, hthread⟩ := h.core_running id hcond.1
    refine { h with core_running := fun id' hcore => ?_, launch := ?_ }
    · -- the thread that leaves is the only one that ran
      obtain ⟨hid, hcore'⟩ := running_of_setCore Core.noConfusion hcore
      have hthread' := (h.core_running id' hcore').2
      rw [hthread] at hthread'
      exact absurd (Option.some_inj.mp hthread').symm hid
    · -- a launch in progress would hold the lock or have found the slot empty
      have hlaunch := h.launch
      have hlocked := h.locked uiThread
      change LaunchOk false s.thread (s.jni uiThread)
      rw [hcond.2] at hlocked
      rw [hrunning] at hlaunch
      cases hj : s.jni uiThread <;> rw [hj] at hlaunch hlocked <;> simp_all [LaunchOk, Jni.isLocked]
  | finish =>
    split_ifs at hstep with hcond
    cases hstep
    refine { h with core_running := fun id' hcore => ?_ }
    exact h.core_running id' (running_of_setCore Core.noConfusion hcore).2

theorem BackendInv.step {e : BackendEvent} (h : BackendInv s) (hstep : backendStep s e = some s') : BackendInv s' := by
  cases e with
  | launch e => exact h.nativeLaunch hstep
  | stop t e => exact h.nativeStop hstep
  | core id e => exact h.xemuThreadMain hstep

end Steps

theorem backendBoot_inv : BackendInv backendBoot where
  handles := ⟨fun _ hlt => absurd hlt (Nat.not_lt_zero _), fun _ _ => ⟨(nomatch ·), fun _ => (nomatch ·), rfl⟩⟩
  core_running := nofun
  locked := fun _ hl => False.elim hl
  launch := trivial
  overwritten := rfl

/-- Over every run: at most one core thread runs, `g_xemu_thread` was never assigned while it was
joinable, and every thread ever started is held in `g_xemu_thread` and not yet joined, or held by
exactly one call that is about to join it and not yet joined, or has been joined once. -/
theorem coreThread_accounted {t : Backend} {events : List BackendEvent}
    (hrun : run backendStep backendBoot events = some t) :
    (∀ id id', t.core id = .running → t.core id' = .running → id = id') ∧
      t.overwritten = 0 ∧ ∀ id < t.started, (handles t).Accounted id := by
  have h := run_invariant BackendInv (fun _ _ _ h hstep => h.step hstep) backendBoot_inv hrun
  refine ⟨fun id id' hid hid' => ?_, h.overwritten, h.handles.accounted⟩
  have hthread := (h.core_running id hid).2
  rw [(h.core_running id' hid').2] at hthread
  exact (Option.some_inj.mp hthread).symm

def launchArgs : LaunchArgs where
  mcpxPath := "/mcpx.bin"
  biosPath := "/bios.bin"
  hddPath := "/hdd.img"
  discFd := -1
  dupFd := -1

def stopFinished : List BackendEvent :=
  [.launch (.enter launchArgs), .launch .launch, .core 0 .exit, .core 0 .finish, .stop 1 .enter]

theorem coreThread_accounted_stop :
    ∃ t, run backendStep backendBoot (stopFinished ++ [.stop 1 .join]) = some t ∧
      t.joined 0 = 1 ∧ (handles t).Accounted 0 := by
  refine ⟨_, rfl, rfl, ?_⟩
  have h := @coreThread_accounted _ (stopFinished ++ [.stop 1 .join]) rfl
  exact h.2.2 0 (by decide)

/-- Between the move and the join the thread is neither in `g_xemu_thread` nor joined. -/
theorem coreThread_neither_held_nor_joined :
    ∃ t, run backendStep backendBoot stopFinished = some t ∧ 0 < t.started ∧
      t.thread ≠ some 0 ∧ t.joined 0 = 0 :=
  ⟨_, rfl, by decide, by decide, rfl⟩

end XogMobile.Android
