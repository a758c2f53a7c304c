import XogMobile.Lib.Run

/-!
# The run state of the virtual machine

`system/runstate.c` and the parts of `system/cpus.c` that change the run state: the table of
transitions, the pending requests, `main_loop_should_exit` with one step for each request it polls,
and starting and stopping the machine. A `vmstop` request is a single cell that the main loop and
everybody who starts the machine test and clear.

`acted` and `history` record the requests the main loop acted on and the run states entered.
-/

namespace XogMobile.Qemu

open Lib

inductive RunState where
  | debug
  | inmigrate
  | internalError
  | ioError
  | paused
  | postmigrate
  | prelaunch
  | finishMigrate
  | restoreVm
  | running
  | saveVm
  | shutdown
  | suspended
  | watchdog
  | guestPanicked
  | colo
  deriving DecidableEq

/-- `runstate_transitions_def`, by source state. -/
def RunState.targets : RunState → List RunState
  | .debug => [.running, .finishMigrate, .prelaunch, .suspended]
  | .inmigrate =>
    [.internalError, .ioError, .paused, .running, .shutdown, .suspended, .watchdog,
      .guestPanicked, .finishMigrate, .prelaunch, .postmigrate, .colo]
  | .internalError => [.paused, .finishMigrate, .prelaunch]
  | .ioError => [.running, .finishMigrate, .prelaunch]
  | .paused => [.running, .finishMigrate, .postmigrate, .prelaunch, .colo, .suspended]
  | .postmigrate => [.running, .finishMigrate, .prelaunch]
  | .prelaunch => [.running, .finishMigrate, .inmigrate, .suspended]
  | .finishMigrate =>
    [.running, .paused, .postmigrate, .prelaunch, .colo, .internalError, .ioError, .shutdown,
      .suspended, .watchdog, .guestPanicked]
  | .restoreVm => [.running, .prelaunch, .suspended]
  | .colo => [.running, .prelaunch, .shutdown]
  | .running =>
    [.debug, .internalError, .ioError, .paused, .finishMigrate, .restoreVm, .saveVm, .shutdown,
      .watchdog, .guestPanicked, .colo, .suspended]
  | .saveVm => [.running, .suspended]
  | .shutdown => [.paused, .finishMigrate, .prelaunch, .colo]
  | .suspended =>
    [.running, .finishMigrate, .prelaunch, .colo, .paused, .saveVm, .restoreVm, .shutdown]
  | .watchdog => [.running, .finishMigrate, .prelaunch, .colo]
  | .guestPanicked => [.running, .finishMigrate, .prelaunch]

def RunState.isLive (r : RunState) : Bool := r = .running || r = .suspended

/-- `ShutdownCause`, without `none`. -/
inductive ShutdownCause where
  | hostError
  | hostQmpQuit
  | hostQmpSystemReset
  | hostSignal
  | hostUi
  | guestShutdown
  | guestReset
  | guestPanic
  | subsystemReset
  | snapshotLoad
  deriving DecidableEq

/-- `WakeupReason`, without `none`. -/
inductive WakeupReason where
  | rtc
  | pmtimer
  | other
  deriving DecidableEq

inductive ShutdownAction where
  | poweroff
  | pause
  deriving DecidableEq

inductive RebootAction where
  | reset
  | shutdown
  deriving DecidableEq

structure VmConfig where
  shutdownAction : ShutdownAction
  rebootAction : RebootAction
  cpusAreResettable : Bool
  wakeupReasonMask : WakeupReason → Bool

/-- Where the main loop is in `main_loop_should_exit`. In `suspending` and `resetting` it has taken
the request and waits for the vCPUs to stop, which drops the big lock. -/
inductive LoopPhase where
  | debug
  | suspend
  | suspending
  | shutdown
  | reset
  | resetting
  | wakeup
  | powerdown
  | vmstop
  | exited
  deriving DecidableEq

structure Vm where
  runState : RunState
  vmstopRequested : Option RunState
  (vmWasSuspended debugRequested suspendRequested : Bool)
  (shutdownRequested resetRequested : Option ShutdownCause)
  wakeupReason : Option WakeupReason
  powerdownRequested : Bool
  phase : LoopPhase
  (acted history : List RunState)
  deriving DecidableEq

/-- `runstate_set` aborts on a transition that is not in the table. -/
def runstateSet (s : Vm) (new : RunState) : Option Vm :=
  if s.runState = new then some s
  else if new ∈ s.runState.targets then
    some { s with runState := new, history := s.history ++ [new] }
  else none

/-- `qemu_vmstop_requested`: the request, which is cleared. -/
def qemuVmstopRequested (s : Vm) : Option RunState × Vm :=
  (s.vmstopRequested, { s with vmstopRequested := none })

/-- `qemu_system_vmstop_request_prepare` and `qemu_system_vmstop_request`. -/
def qemuSystemVmstopRequest (s : Vm) (state : RunState) : Vm :=
  { s with vmstopRequested := some state }

/-- `vm_stop` outside a vCPU thread; inside one it is `qemu_system_vmstop_request`. -/
def vmStop (s : Vm) (state : RunState) : Option Vm :=
  if s.runState.isLive then
    runstateSet { s with vmWasSuspended := s.runState = .suspended } state
  else some s

/-- `vm_start`: a pending request is dropped, and a machine that runs is left alone. -/
def vmStart (s : Vm) : Option Vm :=
  let state := if s.vmWasSuspended then .suspended else .running
  let s := (qemuVmstopRequested s).2
  if s.runState = .running then some s
  else (runstateSet s state).map fun s => { s with vmWasSuspended := false }

/-- One request polled by `main_loop_should_exit`. -/
def mainLoopShouldExit (cfg : VmConfig) (s : Vm) : Option Vm :=
  match s.phase with
  | .debug =>
    (if s.debugRequested then vmStop { s with debugRequested := false } .debug else some s).map
      fun s => { s with phase := .suspend }
  | .suspend =>
    if s.suspendRequested then some { s with suspendRequested := false, phase := .suspending }
    else some { s with phase := .shutdown }
  | .suspending => (runstateSet s .suspended).map fun s => { s with phase := .shutdown }
  | .shutdown =>
    match s.shutdownRequested, cfg.shutdownAction with
    | some _, .pause =>
      (vmStop { s with shutdownRequested := none } .shutdown).map fun s =>
        { s with phase := .reset }
    | some _, .poweroff => some { s with shutdownRequested := none, phase := .exited }
    | none, _ => some { s with phase := .reset }
  | .reset =>
    match s.resetRequested with
    | some _ => some { s with resetRequested := none, phase := .resetting }
    | none => some { s with phase := .wakeup }
  | .resetting =>
    let s := { s with vmWasSuspended := false }
    (if s.runState = .running ∨ s.runState = .inmigrate ∨ s.runState = .finishMigrate then some s
      else runstateSet s .prelaunch).map fun s => { s with phase := .wakeup }
  | .wakeup => some { s with wakeupReason := none, phase := .powerdown }
  | .powerdown => some { s with powerdownRequested := false, phase := .vmstop }
  | .vmstop =>
    match qemuVmstopRequested s with
    | (some r, s) =>
      (vmStop { s with acted := s.acted ++ [r] } r).map fun s => { s with phase := .debug }
    | (none, s) => some { s with phase := .debug }
  | .exited => none

def qemuSystemSuspendRequest (s : Vm) : Vm :=
  if s.runState = .suspended then s else { s with suspendRequested := true }

def qemuSystemResetRequest (cfg : VmConfig) (s : Vm) (reason : ShutdownCause) : Vm :=
  if cfg.rebootAction = .shutdown ∧ reason ≠ .subsystemReset then
    { s with shutdownRequested := some reason }
  else if !cfg.cpusAreResettable then { s with shutdownRequested := some reason }
  else { s with resetRequested := some reason }

def qemuSystemWakeupRequest (cfg : VmConfig) (s : Vm) (reason : WakeupReason) : Option Vm :=
  if s.runState = .suspended ∧ cfg.wakeupReasonMask reason then
    (runstateSet s .running).map fun s => { s with wakeupReason := some reason }
  else some s

end XogMobile.Qemu
