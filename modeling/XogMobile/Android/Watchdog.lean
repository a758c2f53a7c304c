import XogMobile.Qemu.RunState

/-!
# The watchdog snapshot

`xemu_android_log_watchdog_snapshot` is meant to read state only, but it asks for the pending
request with `qemu_vmstop_requested`, which clears it. A run of the machine with snapshots anywhere
is compared with the same run without them.
-/

namespace XogMobile.Android

open Lib Qemu

structure WatchdogLog where
  runState : RunState
  (running vmstopPending : Bool)
  vmstopTarget : Option RunState

def xemuAndroidLogWatchdogSnapshot (s : Vm) : WatchdogLog × Vm :=
  let (target, s) := qemuVmstopRequested s
  (⟨s.runState, s.runState = .running, target.isSome, target⟩, s)

def xemuAndroidRequestPause (s : Vm) : Vm :=
  qemuSystemVmstopRequest (xemuAndroidLogWatchdogSnapshot s).2 .paused

/-- `xemu_android_request_resume`, without the snapshot that ends it. -/
def xemuAndroidResume (s : Vm) : Option Vm := if s.runState = .paused then vmStart s else some s

def xemuAndroidRequestResume (s : Vm) : Option Vm :=
  if s.runState = .paused then
    (vmStart s).map fun s => (xemuAndroidLogWatchdogSnapshot s).2
  else some s

/-- Steps of the machine. A pause is `snapshot` and `vmstopRequest paused`, a resume is `resume` and
`snapshot`, with anything in between; `vm_stop` in a vCPU thread is a `vmstopRequest`. -/
inductive VmEvent where
  | snapshot
  | vmstopRequest (state : RunState)
  | debugRequest
  | suspendRequest
  | shutdownRequest (cause : ShutdownCause)
  | resetRequest (cause : ShutdownCause)
  | wakeupRequest (reason : WakeupReason)
  | powerdownRequest
  | resume
  | start
  | stop (state : RunState)
  | mainLoop
  deriving DecidableEq

def vmStep (cfg : VmConfig) (s : Vm) : VmEvent → Option Vm
  | .snapshot => some (xemuAndroidLogWatchdogSnapshot s).2
  | .vmstopRequest state => some (qemuSystemVmstopRequest s state)
  | .debugRequest => some { s with debugRequested := true }
  | .suspendRequest => some (qemuSystemSuspendRequest s)
  | .shutdownRequest cause => some { s with shutdownRequested := some cause }
  | .resetRequest cause => some (qemuSystemResetRequest cfg s cause)
  | .wakeupRequest reason => qemuSystemWakeupRequest cfg s reason
  | .powerdownRequest => some { s with powerdownRequested := true }
  | .resume => xemuAndroidResume s
  | .start => vmStart s
  | .stop state => vmStop s state
  | .mainLoop => mainLoopShouldExit cfg s

/-- No snapshot is taken while a stop is requested. -/
def SnapshotOk (s : Vm) (e : VmEvent) : Prop := e = .snapshot → s.vmstopRequested = none

def eraseSnapshots (events : List VmEvent) : List VmEvent := events.filter (· ≠ .snapshot)

theorem snapshot_eq_self {s : Vm} (h : s.vmstopRequested = none) : (xemuAndroidLogWatchdogSnapshot s).2 = s := by
  change { s with vmstopRequested := none } = s
  rw [← h]

/-- Without its snapshots, a run in which none of them met a pending request goes the same way: the
main loop acts on the same requests and the machine goes through the same run states. -/
theorem run_eraseSnapshots {cfg : VmConfig} {s : Vm} {events : List VmEvent}
    (hmeets : Meets (vmStep cfg) SnapshotOk s events) :
    run (vmStep cfg) s (eraseSnapshots events) = run (vmStep cfg) s events := by
  refine run_filter _ (fun s e hok hdrop => ?_) hmeets
  have hsnapshot : e = .snapshot := by simpa using hdrop
  subst hsnapshot
  exact congrArg some (snapshot_eq_self (hok rfl))

def vmRunning : Vm where
  runState := .running
  vmstopRequested := none
  vmWasSuspended := false
  debugRequested := false
  suspendRequested := false
  shutdownRequested := none
  resetRequested := none
  wakeupReason := none
  powerdownRequested := false
  phase := .debug
  acted := []
  history := []

def defaultConfig : VmConfig where
  shutdownAction := .poweroff
  rebootAction := .reset
  cpusAreResettable := true
  wakeupReasonMask := fun _ => true

def mainLoopPass : List VmEvent :=
  [.mainLoop, .mainLoop, .mainLoop, .mainLoop, .mainLoop, .mainLoop, .mainLoop]

theorem run_eraseSnapshots_paused :
    run (vmStep defaultConfig) vmRunning
        (eraseSnapshots ([.snapshot, .vmstopRequest .paused] ++ mainLoopPass ++ [.snapshot])) =
      run (vmStep defaultConfig) vmRunning
        ([.snapshot, .vmstopRequest .paused] ++ mainLoopPass ++ [.snapshot]) := by
  refine run_eraseSnapshots ?_
  have hskip : ∀ {s : Vm} {e : VmEvent}, e ≠ .snapshot → SnapshotOk s e :=
    fun hne heq => absurd heq hne
  refine meets_cons (fun _ => rfl) rfl <| meets_cons (hskip (by decide)) rfl ?_
  refine meets_cons (hskip (by decide)) rfl <| meets_cons (hskip (by decide)) rfl ?_
  refine meets_cons (hskip (by decide)) rfl <| meets_cons (hskip (by decide)) rfl ?_
  refine meets_cons (hskip (by decide)) rfl <| meets_cons (hskip (by decide)) rfl ?_
  exact meets_cons (hskip (by decide)) rfl <| meets_cons (fun _ => rfl) rfl trivial

/-- A pause is requested and a snapshot taken before the main loop gets to it: the machine goes on
running, and without the snapshot it is paused. -/
theorem run_eraseSnapshots_ne :
    (run (vmStep defaultConfig) vmRunning
        ([.snapshot, .vmstopRequest .paused, .snapshot] ++ mainLoopPass)).map
          (fun s => (s.acted, s.history)) = some ([], []) ∧
      (run (vmStep defaultConfig) vmRunning
        (eraseSnapshots ([.snapshot, .vmstopRequest .paused, .snapshot] ++ mainLoopPass))).map
          (fun s => (s.acted, s.history)) = some ([.paused], [.paused]) := by
  decide

end XogMobile.Android
