import XogMobile.Lib.Threads

/-!
# The frame thread of the APU and those who pause it

`mcpx_apu_frame_thread` makes frames while it holds the lock of the APU. A stop of the machine and a
reset of the device ask it to pause and wait until it is idle, with the big lock given back; a start
lets it go on. A snapshot load writes the registers. Any number of threads make these calls, each with
the big lock, and a vCPU writes registers and locks voices.

A wait for `cond` or `idle_cond` ends only with a signal, and a wait with a time limit ends at any time.
What the vCPU writes, what the frames queue and when the throttle lets them go are choices of the
schedule. `stopped`, `busy` and `frames` are for the proofs alone: the time from a stop's return to the
next start, the thread whose call is under way, and how many frames were begun.
-/

namespace XogMobile.Apu

open Lib

/-- `MCPXAPUState::lock` and the big lock. -/
inductive ApuLock where
  | apu
  | bql
  deriving DecidableEq

structure ApuState where
  (pauseRequested isIdle asleep : Bool)
  sleepers : List Nat
  setIrq : Bool
  (sectl fectl : BitVec 32)
  (voiceLocked queue : List Nat)
  stopped : Bool
  busy : Option Nat
  frames : Nat

namespace ApuState

variable (x : ApuState)

/-- `NV_PAPU_SECTL_XCNTMODE` is off, or the front end is trapped or halted. -/
def Off : Prop := x.sectl &&& 0x18 = 0 ∨ x.fectl &&& 0xe0 ≠ 0 ∨ x.fectl &&& 0x80 ≠ 0

instance : Decidable x.Off := inferInstanceAs (Decidable (_ ∨ _ ∨ _))

def anyQueuedVoiceLocked : Bool := x.queue.any fun v => decide (v ∈ x.voiceLocked)

def signal : ApuState := { x with asleep := false }

/-- `qemu_cond_signal(&d->idle_cond)` wakes one of the threads. -/
def signalIdle (c : Nat) : ApuState :=
  { x with sleepers := x.sleepers.eraseIdx (c % x.sleepers.length) }

def resetLocked : ApuState := { x with setIrq := false, sectl := 0, fectl := 0, voiceLocked := [] }

def resume : ApuState := { x with pauseRequested := false }.signal

end ApuState

inductive Rest where
  | poll
  | throttle
  | voices
  deriving DecidableEq

/-- Places in `mcpx_apu_frame_thread`. -/
inductive FramePoint where
  | start
  | head
  | irqUnlock
  | irqBql
  | irqUpdate
  | irqBqlUnlock
  | irqRelock
  | irqClear
  | recheck
  | throttle
  | frame
  | voices
  | process
  | dsp
  | restRelease (r : Rest)
  | restBlocked (r : Rest)
  | restReacquire (r : Rest)
  | idleEnter
  | idleRelease
  | idleBlocked
  | idleReacquire
  | idleLeave
  deriving DecidableEq

/-- Who calls `mcpx_apu_wait_for_idle`, `mcpx_apu_realize` apart. -/
inductive Quiesce where
  | stop
  | reset
  deriving DecidableEq

/-- Places of a thread that calls. A wait without a `Quiesce` is that of `mcpx_apu_realize`. -/
inductive CallerPoint where
  | out
  | ready
  | bqlRelease
  | bqlDrop (c : Quiesce)
  | lock (c : Quiesce)
  | request (c : Option Quiesce)
  | test (c : Option Quiesce) (again : Bool)
  | waitRelease (c : Option Quiesce)
  | waitBlocked (c : Option Quiesce)
  | waitReacquire (c : Option Quiesce)
  | quiet (c : Option Quiesce)
  | resume
  | unlock (c : Option Quiesce)
  | bql (c : Quiesce)
  | returned (c : Option Quiesce)
  | startLock
  | startResume
  | startUnlock
  | loadLock
  | loadReset
  | loadUnlock
  | loadRegs
  deriving DecidableEq

inductive GuestPoint where
  | out
  | ready
  | write
  | lock
  | voice
  | release
  | bqlRelease
  deriving DecidableEq

inductive ApuPoint where
  | frame (p : FramePoint)
  | caller (k : Nat) (p : CallerPoint)
  | guest (p : GuestPoint)
  deriving DecidableEq

structure ApuChoices where
  regs : Nat → BitVec 32 × BitVec 32
  queues : Nat → List Nat
  /-- Whether a frame raises an interrupt or traps the front end. -/
  irqs : Nat → Bool
  traps : Nat → Bool
  voiceLocks : Nat → List Nat

abbrev ApuInstr := Instr ApuState ApuPoint ApuLock

def Rest.next : Rest → FramePoint
  | .poll => .head
  | .throttle => .throttle
  | .voices => .voices

/-- `mcpx_apu_frame_thread`. -/
def frameCode (C : ApuChoices) : FramePoint → ApuInstr
  | .start => .lock .apu (.frame .head)
  | .head => .act fun _ x =>
    if x.pauseRequested then some (x, .frame .idleEnter)
    else
      let x := if x.Off then { x with setIrq := true } else x
      some (x, .frame (if x.setIrq then .irqUnlock else .recheck))
  | .irqUnlock => .unlock .apu (.frame .irqBql)
  | .irqBql => .lock .bql (.frame .irqUpdate)
  | .irqUpdate => .act fun _ x => some (x, .frame .irqBqlUnlock)
  | .irqBqlUnlock => .unlock .bql (.frame .irqRelock)
  | .irqRelock => .lock .apu (.frame .irqClear)
  | .irqClear => .act fun _ x => some ({ x with setIrq := false }, .frame .recheck)
  | .recheck => .act fun _ x => some (x, .frame (if x.Off then .restRelease .poll else .throttle))
  -- the loops of `throttle` end where a pause is requested, or with the clock and the audio queue
  | .throttle => .act fun c x =>
    some (x, .frame (if x.pauseRequested || c == 0 then .frame else .restRelease .throttle))
  -- `se_frame`, up to `voice_work_dispatch`
  | .frame => .act fun c x =>
    let x := { x with frames := x.frames + 1, queue := C.queues c, setIrq := x.setIrq || C.irqs c }
    some (if C.traps c then { x with fectl := (x.fectl &&& ~~~0xfe0) ||| 0xfe0 } else x,
      .frame .voices)
  | .voices => .act fun _ x =>
    if x.pauseRequested then some ({ x with queue := [] }, .frame .dsp)
    else some (x, .frame (if x.anyQueuedVoiceLocked then .restRelease .voices else .process))
  | .process => .act fun _ x => some ({ x with queue := [] }, .frame .dsp)
  | .dsp => .act fun c x => some ({ x with setIrq := x.setIrq || C.irqs c }, .frame .head)
  | .restRelease r => .unlock .apu (.frame (.restBlocked r))
  | .restBlocked r => .act fun _ x => some (x, .frame (.restReacquire r))
  | .restReacquire r => .lock .apu (.frame r.next)
  -- `is_idle` is set, `idle_cond` is signalled, and the thread waits for `cond`
  | .idleEnter => .act fun c x =>
    some ({ x.signalIdle c with isIdle := true, asleep := true }, .frame .idleRelease)
  | .idleRelease => .unlock .apu (.frame .idleBlocked)
  | .idleBlocked => .act fun _ x => if x.asleep then none else some (x, .frame .idleReacquire)
  | .idleReacquire => .lock .apu (.frame .idleLeave)
  | .idleLeave => .act fun _ x => some ({ x with isIdle := false }, .frame .head)

/-- `mcpx_apu_realize`, `mcpx_apu_vm_state_change`, `mcpx_apu_reset_hold`, `mcpx_apu_pre_load` and the
loading of the registers. -/
def callerCode (C : ApuChoices) (k : Nat) : CallerPoint → ApuInstr
  | .out => .lock .bql (.caller k .ready)
  | .ready => .act fun c x =>
    let x' := { x with busy := some k }
    match c with
    | 0 => some (x, .caller k .bqlRelease)
    | 1 => some (x', .caller k (.bqlDrop .stop))
    | 2 => some ({ x' with stopped := false }, .caller k .startLock)
    | 3 => some (x', .caller k (.bqlDrop .reset))
    | _ => some (x', .caller k .loadLock)
  | .bqlRelease => .unlock .bql (.caller k .out)
  | .bqlDrop c => .unlock .bql (.caller k (.lock c))
  | .lock c => .lock .apu (.caller k (.request c))
  -- `mcpx_apu_wait_for_idle`
  | .request c => .act fun _ x =>
    some ({ x with pauseRequested := true }.signal, .caller k (.test c false))
  | .test c _ => .act fun _ x =>
    if x.isIdle then some (x, .caller k (.quiet c))
    else some ({ x with sleepers := x.sleepers ++ [k] }, .caller k (.waitRelease c))
  | .waitRelease c => .unlock .apu (.caller k (.waitBlocked c))
  | .waitBlocked c => .act fun _ x =>
    if k ∈ x.sleepers then none else some (x, .caller k (.waitReacquire c))
  | .waitReacquire c => .lock .apu (.caller k (.test c true))
  | .quiet c => .act fun _ x =>
    match c with
    | some .reset => some (x.resetLocked, .caller k .resume)
    | c => some (x, .caller k (.unlock c))
  | .resume => .act fun _ x => some (x.resume, .caller k (.unlock (some .reset)))
  | .unlock c => .unlock .apu (.caller k (match c with
      | some c => .bql c
      | none => .returned none))
  | .bql c => .lock .bql (.caller k (.returned (some c)))
  | .returned c => .act fun _ x =>
    some ({ x with stopped := x.stopped || c == some .stop, busy := none }, .caller k .ready)
  | .startLock => .lock .apu (.caller k .startResume)
  | .startResume => .act fun _ x => some (x.resume, .caller k .startUnlock)
  | .startUnlock => .unlock .apu (.caller k (.returned none))
  | .loadLock => .lock .apu (.caller k .loadReset)
  | .loadReset => .act fun _ x => some (x.resetLocked, .caller k .loadUnlock)
  | .loadUnlock => .unlock .apu (.caller k .loadRegs)
  | .loadRegs => .act fun c x =>
    some ({ x with sectl := (C.regs c).1, fectl := (C.regs c).2 }, .caller k (.returned none))

def guestCode (C : ApuChoices) : GuestPoint → ApuInstr
  | .out => .lock .bql (.guest .ready)
  | .ready => .act fun c x => some (x, .guest (if c = 0 then .write else .lock))
  | .write => .act fun c x =>
    some ({ x with sectl := (C.regs c).1, fectl := (C.regs c).2 }.signal, .guest .bqlRelease)
  | .lock => .lock .apu (.guest .voice)
  | .voice => .act fun c x => some ({ x with voiceLocked := C.voiceLocks c }.signal, .guest .release)
  | .release => .unlock .apu (.guest .bqlRelease)
  | .bqlRelease => .unlock .bql (.guest .out)

def apuCode (C : ApuChoices) : ApuPoint → ApuInstr
  | .frame p => frameCode C p
  | .caller k p => callerCode C k p
  | .guest p => guestCode C p

def FramePoint.held : FramePoint → ApuLock → Bool
  | .head, .apu | .irqUnlock, .apu | .irqClear, .apu | .recheck, .apu | .throttle, .apu | .frame, .apu
  | .voices, .apu | .process, .apu | .dsp, .apu | .restRelease _, .apu | .idleEnter, .apu
  | .idleRelease, .apu | .idleLeave, .apu | .irqUpdate, .bql | .irqBqlUnlock, .bql => true
  | _, _ => false

def CallerPoint.held : CallerPoint → ApuLock → Bool
  | .ready, .bql | .bqlRelease, .bql | .bqlDrop _, .bql | .returned _, .bql | .startLock, .bql
  | .startResume, _ | .startUnlock, _ | .loadLock, .bql | .loadReset, _ | .loadUnlock, _
  | .loadRegs, .bql | .resume, .apu => true
  | .request _, .apu | .test _ _, .apu | .waitRelease _, .apu | .quiet _, .apu | .unlock _, .apu => true
  -- the device is realized with the big lock held throughout
  | .request none, .bql | .test none _, .bql | .waitRelease none, .bql | .waitBlocked none, .bql
  | .waitReacquire none, .bql | .quiet none, .bql | .unlock none, .bql => true
  | _, _ => false

def GuestPoint.held : GuestPoint → ApuLock → Bool
  | .ready, .bql | .write, .bql | .lock, .bql | .voice, _ | .release, _ | .bqlRelease, .bql => true
  | _, _ => false

def ApuPoint.held : ApuPoint → ApuLock → Bool
  | .frame p => p.held
  | .caller _ p => p.held
  | .guest p => p.held

inductive ApuThread where
  | frame
  | caller (k : Nat)
  | guest
  deriving DecidableEq

abbrev ApuThreads := Threads ApuState ApuPoint ApuLock ApuThread

/-- `mcpx_apu_realize` has created the frame thread, and waits for it with both locks held. -/
def apuStart : ApuThreads where
  shared := {
    pauseRequested := true
    isIdle := false
    asleep := false
    sleepers := []
    setIrq := false
    sectl := 0
    fectl := 0
    voiceLocked := []
    queue := []
    stopped := false
    busy := some 0
    frames := 0 }
  owner := fun _ => some (.caller 0)
  pc
    | .frame => .frame .start
    | .caller 0 => .caller 0 (.request none)
    | .caller k => .caller k .out
    | .guest => .guest .out

end XogMobile.Apu
