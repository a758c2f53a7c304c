import XogMobile.Android.Watchdog

/-!
# Pause and resume

`MainActivity.emulationPaused` is the app's idea of whether the machine is paused. A pause is a
request that the main loop acts on later, a resume acts at once but only on a machine that is already
paused, and the flag is set without looking at either outcome. The handlers of the UI thread, the
native calls, the watchdog and the main loop are interleaved; `PauseOk` says which steps keep flag
and machine in agreement.
-/

namespace XogMobile.Android

open Lib Qemu

/-- The app and the core it has launched. `spawnedStops` and `waitingStops` are the threads of
`stopCoreAsync` before and after they have asked the core to shut down. -/
structure App where
  vm : Vm
  (coreRunning emulationPaused lifecyclePausedCore : Bool)
  (spawnedStops waitingStops : Nat)
  deriving DecidableEq

variable (s : App)

def nativePause : App := if s.coreRunning then { s with vm := xemuAndroidRequestPause s.vm } else s

def nativeResume : Option App :=
  if s.coreRunning then (xemuAndroidRequestResume s.vm).map fun vm => { s with vm := vm }
  else some s

/-- What `nativeStop` asks of a core that is running. -/
def xemuAndroidRequestShutdown : App :=
  if s.coreRunning then { s with vm := { s.vm with shutdownRequested := some .hostUi } } else s

def requestPause : App :=
  if s.coreRunning then
    { (if s.emulationPaused then s else nativePause s) with emulationPaused := true }
  else s

def requestResume : Option App :=
  if s.coreRunning then
    (if s.emulationPaused then nativeResume s else some s).map fun s =>
      { s with emulationPaused := false }
  else some { s with emulationPaused := false }

def handlePauseButton : App :=
  if s.coreRunning then if s.emulationPaused then s else requestPause s else s

/-- `idleAutoPauseRunnable`. -/
def idleAutoPause : App := if s.coreRunning && !s.emulationPaused then requestPause s else s

def onPause : App :=
  if s.coreRunning then requestPause { s with lifecyclePausedCore := true } else s

def onResume : App := { s with lifecyclePausedCore := false }

/-- `launchEmulator` while the core is running. It may be blocked before it reaches the core. -/
def launchEmulator (blocked : Bool) : Option App :=
  if s.coreRunning then some (if blocked then s else { s with emulationPaused := false }) else none

/-- The handler that `stopCoreAsync` posts once `nativeStop` has returned. -/
def stopReturned : App := { s with waitingStops := s.waitingStops - 1, emulationPaused := false }

inductive AppEvent where
  | pauseButton
  | resume
  | idleAutoPause
  | activityPause
  | activityResume
  | launch (blocked : Bool)
  | stop
  | stopRequest
  | stopReturned
  | destroy
  | nativePause
  | nativeResume
  | snapshot
  | mainLoop
  | cleanup
  | coreExit
  deriving DecidableEq

def appStep : AppEvent → Option App
  | .pauseButton => some (handlePauseButton s)
  | .resume => requestResume s
  | .idleAutoPause => some (idleAutoPause s)
  | .activityPause => some (onPause s)
  | .activityResume => some (onResume s)
  | .launch blocked => launchEmulator s blocked
  | .stop => some { s with spawnedStops := s.spawnedStops + 1 }
  | .stopRequest =>
    if 0 < s.spawnedStops then
      some { xemuAndroidRequestShutdown s with
        spawnedStops := s.spawnedStops - 1
        waitingStops := s.waitingStops + 1 }
    else none
  | .stopReturned => if 0 < s.waitingStops then some (stopReturned s) else none
  | .destroy => some (xemuAndroidRequestShutdown s)
  | .nativePause => some (nativePause s)
  | .nativeResume => nativeResume s
  | .snapshot => some { s with vm := (xemuAndroidLogWatchdogSnapshot s.vm).2 }
  | .mainLoop => (mainLoopShouldExit defaultConfig s.vm).map fun vm => { s with vm := vm }
  | .cleanup =>
    -- `qemu_cleanup` calls `vm_shutdown`
    if s.vm.phase = .exited then (vmStop s.vm .shutdown).map fun vm => { s with vm := vm }
    else none
  | .coreExit => if s.vm.phase = .exited then some { s with coreRunning := false } else none

/-- The machine is paused exactly when the flag says so, unless a request is pending. -/
def Agrees : Prop :=
  s.coreRunning = true → s.vm.vmstopRequested = none →
    (s.vm.runState = .paused ↔ s.emulationPaused = true)

/-- A resume finds the machine paused, a launch and the end of a stop find the flag clear (or no
core), a snapshot finds no request that is still to be acted on, and native calls on their own only
repeat what the flag says. -/
def PauseOk : AppEvent → Prop
  | .resume => s.coreRunning = true → s.emulationPaused = true → s.vm.runState = .paused
  | .launch blocked => blocked = false → s.emulationPaused = false
  | .stopReturned => s.coreRunning = true → s.emulationPaused = false
  | .nativePause => s.emulationPaused = true
  | .nativeResume => s.emulationPaused = false
  | .snapshot => s.vm.vmstopRequested = none ∨ s.vm.runState = .paused
  | _ => True

/-- The machine is paused or will be once the main loop gets to the request. -/
def PauseIntended (v : Vm) : Prop := v.runState = .paused ∨ v.vmstopRequested = some .paused

/-- Nothing but a pause, a resume or the exit is under way. -/
structure VmCalm (v : Vm) : Prop where
  wasSuspended : v.vmWasSuspended = false
  debug : v.debugRequested = false
  suspend : v.suspendRequested = false
  reset : v.resetRequested = none
  phase : v.phase ≠ .suspending ∧ v.phase ≠ .resetting
  request : v.vmstopRequested = none ∨ v.vmstopRequested = some .paused
  state : v.runState = .running ∨ v.runState = .paused ∨
    v.runState = .shutdown ∧ v.phase = .exited

variable {v v' : Vm}

theorem VmCalm.snapshot (h : VmCalm v) : VmCalm (xemuAndroidLogWatchdogSnapshot v).2 := { h with request := .inl rfl }

theorem VmCalm.requestPause (h : VmCalm v) : VmCalm (xemuAndroidRequestPause v) := { h with request := .inr rfl }

theorem pauseIntended_requestPause (v : Vm) : PauseIntended (xemuAndroidRequestPause v) := .inr rfl

theorem vmStart_of_paused (h : VmCalm v) (hpaused : v.runState = .paused) : vmStart v = some { v with
      runState := .running, vmstopRequested := none, vmWasSuspended := false
      history := v.history ++ [.running] } := by
  simp only [vmStart, qemuVmstopRequested, h.wasSuspended, hpaused]
  rfl

theorem VmCalm.requestResume (h : VmCalm v) (hstep : xemuAndroidRequestResume v = some v') :
    VmCalm v' ∧ (v.runState = .paused → ¬ PauseIntended v') ∧ (v.runState ≠ .paused → v' = v) := by
  rw [xemuAndroidRequestResume] at hstep
  split_ifs at hstep with hpaused
  · rw [vmStart_of_paused h hpaused] at hstep
    cases hstep
    refine ⟨{ h with wasSuspended := rfl, request := .inl rfl, state := .inl rfl }, fun _ => ?_,
      fun hne => absurd hpaused hne⟩
    rintro (hstate | hrequest)
    · cases hstate
    · cases hrequest
  · cases hstep
    exact ⟨h, fun hp => absurd hp hpaused, fun _ => rfl⟩

theorem VmCalm.mainLoop (h : VmCalm v) (hstep : mainLoopShouldExit defaultConfig v = some v') :
    VmCalm v' ∧ (PauseIntended v' ↔ PauseIntended v) := by
  rw [mainLoopShouldExit] at hstep
  have hne : v.phase ≠ .exited := by
    intro hexit
    simp only [hexit] at hstep
    cases hstep
  have hlive : v.runState = .running ∨ v.runState = .paused :=
    h.state.imp_right fun hstate => hstate.resolve_right fun hexit => hne hexit.2
  -- every phase but the last only moves on
  have hmove : ∀ phase, phase ≠ .suspending ∧ phase ≠ .resetting → VmCalm { v with phase := phase } :=
    fun phase hphase => { h with phase := hphase, state := hlive.imp_right .inl }
  cases hphase : v.phase with
  | debug =>
    simp only [hphase, h.debug] at hstep
    cases hstep
    exact ⟨hmove .suspend (by decide), Iff.rfl⟩
  | suspend =>
    simp only [hphase, h.suspend] at hstep
    cases hstep
    have hcalm := hmove .shutdown (by decide)
    exact ⟨{ hcalm with suspend := rfl, state := hcalm.state }, Iff.rfl⟩
  | suspending => exact absurd hphase h.phase.1
  | shutdown =>
    simp only [hphase] at hstep
    split at hstep
    next heq => cases heq
    next =>
      cases hstep
      have hcalm := hmove .exited (by decide)
      exact ⟨{ hcalm with state := hcalm.state }, Iff.rfl⟩
    next =>
      cases hstep
      exact ⟨hmove .reset (by decide), Iff.rfl⟩
  | reset =>
    simp only [hphase, h.reset] at hstep
    cases hstep
    have hcalm := hmove .wakeup (by decide)
    exact ⟨{ hcalm with reset := rfl, state := hcalm.state }, Iff.rfl⟩
  | resetting => exact absurd hphase h.phase.2
  | wakeup =>
    simp only [hphase] at hstep
    cases hstep
    have hcalm := hmove .powerdown (by decide)
    exact ⟨{ hcalm with state := hcalm.state }, Iff.rfl⟩
  | powerdown =>
    simp only [hphase] at hstep
    cases hstep
    have hcalm := hmove .vmstop (by decide)
    exact ⟨{ hcalm with state := hcalm.state }, Iff.rfl⟩
  | vmstop =>
    have hcalm := hmove .debug (by decide)
    rcases h.request with hnone | hsome
    · simp only [hphase, qemuVmstopRequested, hnone] at hstep
      cases hstep
      refine ⟨{ hcalm with request := .inl rfl }, ?_⟩
      simp only [PauseIntended, hnone]
    · simp only [hphase, qemuVmstopRequested, hsome] at hstep
      rcases hlive with hrun | hpaused
      · simp only [hrun] at hstep
        cases hstep
        refine ⟨{ hcalm with
          wasSuspended := rfl, request := .inl rfl, state := .inr (.inl rfl) }, ?_⟩
        simp only [PauseIntended, hsome, or_true, true_or]
      · simp only [hpaused] at hstep
        cases hstep
        refine ⟨{ hcalm with request := .inl rfl, state := .inr (.inl rfl) }, ?_⟩
        simp only [PauseIntended, hsome, or_true, true_or]
  | exited => exact absurd hphase hne

theorem VmCalm.cleanup (h : VmCalm v) (hexit : v.phase = .exited) (hstep : vmStop v .shutdown = some v') :
    VmCalm v' ∧ (PauseIntended v' ↔ PauseIntended v) := by
  rcases h.state with hrun | hpaused | ⟨hshutdown, -⟩
  · simp only [vmStop, hrun] at hstep
    cases hstep
    refine ⟨{ h with wasSuspended := rfl, state := .inr (.inr ⟨rfl, hexit⟩) }, ?_⟩
    simp [PauseIntended, hrun]
  · simp only [vmStop, hpaused] at hstep
    cases hstep
    exact ⟨h, Iff.rfl⟩
  · simp only [vmStop, hshutdown] at hstep
    cases hstep
    exact ⟨h, Iff.rfl⟩

/-- While a core runs, the activity shows what the VM is asked to do. -/
structure PauseInv (s : App) : Prop where
  calm : VmCalm s.vm
  flag : s.coreRunning = true → (s.emulationPaused = true ↔ PauseIntended s.vm)

variable {s s' : App}

section

variable (h : PauseInv s)
include h

theorem PauseInv.setVm {vm : Vm} (hcalm : VmCalm vm)
    (hintended : PauseIntended vm ↔ PauseIntended s.vm) : PauseInv { s with vm := vm } :=
  ⟨hcalm, fun hrun => (h.flag hrun).trans hintended.symm⟩

theorem PauseInv.requestPause : PauseInv (requestPause s) := by
  rw [Android.requestPause]
  split_ifs with hrun hpaused
  · exact ⟨h.calm, fun _ => iff_of_true rfl ((h.flag hrun).mp hpaused)⟩
  · rw [nativePause, if_pos hrun]
    exact ⟨h.calm.requestPause, fun _ => iff_of_true rfl (pauseIntended_requestPause s.vm)⟩
  · exact h

theorem PauseInv.requestResume (hok : s.coreRunning = true → s.emulationPaused = true → s.vm.runState = .paused)
    (hstep : requestResume s = some s') : PauseInv s' := by
  rw [Android.requestResume] at hstep
  split_ifs at hstep with hrun hpaused
  · rw [nativeResume, if_pos hrun] at hstep
    simp only [Option.map_map, Option.map_eq_some_iff] at hstep
    obtain ⟨vm, hvm, rfl⟩ := hstep
    obtain ⟨hcalm, hresumed, -⟩ := h.calm.requestResume hvm
    exact ⟨hcalm, fun _ => iff_of_false Bool.false_ne_true (hresumed (hok hrun hpaused))⟩
  · cases hstep
    refine ⟨h.calm, fun _ => iff_of_false Bool.false_ne_true ?_⟩
    exact fun hintended => hpaused ((h.flag hrun).mpr hintended)
  · cases hstep
    exact ⟨h.calm, fun hrun' => absurd hrun' hrun⟩

theorem PauseInv.clearFlag (hok : s.coreRunning = true → s.emulationPaused = false) (spawned waiting : Nat) :
    PauseInv { s with
      emulationPaused := false, spawnedStops := spawned, waitingStops := waiting } := by
  refine ⟨h.calm, fun hrun => ?_⟩
  rw [← hok hrun]
  exact h.flag hrun

theorem PauseInv.requestShutdown : PauseInv (xemuAndroidRequestShutdown s) := by
  rw [xemuAndroidRequestShutdown]
  split_ifs
  · exact h.setVm { h.calm with state := h.calm.state } Iff.rfl
  · exact h

theorem PauseInv.step {e : AppEvent} (hok : PauseOk s e) (hstep : appStep s e = some s') : PauseInv s' := by
  cases e with
  | pauseButton =>
    cases hstep
    rw [handlePauseButton]
    split_ifs
    · exact h
    · exact h.requestPause
    · exact h
  | resume => exact h.requestResume hok hstep
  | idleAutoPause =>
    cases hstep
    rw [idleAutoPause]
    split_ifs
    · exact h.requestPause
    · exact h
  | activityPause =>
    cases hstep
    rw [onPause]
    split_ifs
    · exact PauseInv.requestPause ⟨h.calm, h.flag⟩
    · exact h
  | activityResume | stop =>
    cases hstep
    exact ⟨h.calm, h.flag⟩
  | launch blocked =>
    simp only [appStep, launchEmulator] at hstep
    split_ifs at hstep with hrun hblocked <;> cases hstep
    · exact h
    · exact h.clearFlag (fun _ => hok (Bool.not_eq_true _ ▸ hblocked)) _ _
  | stopRequest =>
    simp only [appStep] at hstep
    split_ifs at hstep
    cases hstep
    exact ⟨h.requestShutdown.calm, h.requestShutdown.flag⟩
  | stopReturned =>
    simp only [appStep] at hstep
    split_ifs at hstep
    cases hstep
    exact h.clearFlag hok _ _
  | destroy =>
    cases hstep
    exact h.requestShutdown
  | nativePause =>
    cases hstep
    rw [nativePause]
    split_ifs
    · exact ⟨h.calm.requestPause, fun _ => iff_of_true hok (pauseIntended_requestPause s.vm)⟩
    · exact h
  | nativeResume =>
    simp only [appStep, nativeResume] at hstep
    split_ifs at hstep with hrun
    · obtain ⟨vm, hvm, rfl⟩ := Option.map_eq_some_iff.mp hstep
      -- the flag is clear, so the machine is not paused and the call does nothing
      have hnot : ¬ PauseIntended s.vm := by
        intro hintended
        rw [PauseOk, (h.flag hrun).mpr hintended] at hok
        cases hok
      obtain ⟨-, -, hsame⟩ := h.calm.requestResume hvm
      rw [hsame fun hp => hnot (.inl hp)]
      exact h
    · cases hstep
      exact h
  | snapshot =>
    cases hstep
    refine h.setVm h.calm.snapshot ?_
    rcases hok with hnone | hpaused
    · rw [snapshot_eq_self hnone]
    · exact iff_of_true (.inl hpaused) (.inl hpaused)
  | mainLoop =>
    obtain ⟨vm, hvm, rfl⟩ := Option.map_eq_some_iff.mp hstep
    obtain ⟨hcalm, hintended⟩ := h.calm.mainLoop hvm
    exact h.setVm hcalm hintended
  | cleanup =>
    simp only [appStep] at hstep
    split_ifs at hstep with hexit
    obtain ⟨vm, hvm, rfl⟩ := Option.map_eq_some_iff.mp hstep
    obtain ⟨hcalm, hintended⟩ := h.calm.cleanup hexit hvm
    exact h.setVm hcalm hintended
  | coreExit =>
    simp only [appStep] at hstep
    split_ifs at hstep
    cases hstep
    exact ⟨h.calm, fun hrun => absurd hrun Bool.false_ne_true⟩

theorem PauseInv.agrees : Agrees s := by
  intro hrun hnone
  rw [h.flag hrun, PauseIntended, hnone]
  simp

end

def appStart : App where
  vm := vmRunning
  coreRunning := true
  emulationPaused := false
  lifecyclePausedCore := false
  spawnedStops := 0
  waitingStops := 0

theorem appStart_inv : PauseInv appStart where
  calm := ⟨rfl, rfl, rfl, rfl, by decide, .inl rfl, .inl rfl⟩
  flag := fun _ => iff_of_false Bool.false_ne_true (by simp [PauseIntended, appStart, vmRunning])

/-- In every run whose steps meet `PauseOk`, the flag and the machine agree. -/
theorem pause_flag_agrees {t : App} {events : List AppEvent}
    (hmeets : Meets appStep PauseOk appStart events) (hrun : run appStep appStart events = some t) :
    Agrees t :=
  (run_invariant_of_meets PauseInv (fun _ _ _ h hok hstep => h.step hok hstep) appStart_inv hmeets
    hrun).agrees

def pauseTaken : List AppEvent :=
  [.pauseButton, .mainLoop, .mainLoop, .mainLoop, .mainLoop, .mainLoop, .mainLoop, .mainLoop]

theorem pause_flag_agrees_resumed :
    ∃ t, run appStep appStart (pauseTaken ++ [.resume]) = some t ∧ t.vm.runState = .running ∧
      Agrees t := by
  refine ⟨_, rfl, rfl, ?_⟩
  refine @pause_flag_agrees _ (pauseTaken ++ [.resume]) ?_ rfl
  refine meets_cons trivial rfl <| meets_cons trivial rfl <| meets_cons trivial rfl ?_
  refine meets_cons trivial rfl <| meets_cons trivial rfl <| meets_cons trivial rfl ?_
  refine meets_cons trivial rfl <| meets_cons trivial rfl ?_
  exact meets_cons (fun _ _ => rfl) rfl trivial

/-- A resume before the main loop got to the pause is ignored, and the machine is paused after it. -/
theorem pause_flag_disagrees :
    ∃ t, run appStep appStart ([.pauseButton, .resume] ++ pauseTaken.tail) = some t ∧
      ¬ Agrees t := by
  refine ⟨_, rfl, fun hagrees => ?_⟩
  exact absurd ((hagrees rfl rfl).mp rfl) (by decide)

end XogMobile.Android
