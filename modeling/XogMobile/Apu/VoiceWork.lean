import XogMobile.Lib.Threads
import Mathlib.Algebra.BigOperators.Group.Finset.Basic

/-!
# The voice workers of the APU

`voice_work_dispatch` hands the voices of a frame to workers and waits until all have added what they
mixed. One lock guards everything but the processing itself. A thread that waits for a condition is
`asleep` until it is signalled, and then takes the lock again; there is no loop around any of the waits.
A worker's place in the program names its id, which it takes when it starts.

Which voices a frame queues, what the voices' bins are and what the loop before the dispatch sees are
choices of the schedule. `assigned`, `calls`, and the list of frames are for the proofs alone.
-/

namespace XogMobile.Apu

open Lib

variable {α : Type}

structure Bins where
  (src dst clr : BitVec 32)

def multipassBinMask : BitVec 32 := 0x80000000

/-- `VoiceWorker`, with its bit of `workers_pending`. Mix bins are given by the voices mixed in. -/
structure Worker (α : Type) where
  pending : Bool
  (queue mixbins : List α)
  asleep : Bool
  /-- What the last schedule gave it, and which voices it has processed since. -/
  assigned : List α
  calls : List α

/-- A frame that is over. `dropped` says that a pause was requested before the dispatch; what is recorded
as processed is then what the workers hold when the queue is emptied. -/
structure Frame (α : Type) where
  queue : List α
  dropped : Bool
  processed : Multiset α
  mixbins : List α

/-- `VoiceWorkDispatch`. `asleep` is the thread that waits for `work_finished`. -/
structure Dispatch (α : Type) where
  workers : Nat → Worker α
  (queue mixbins : List α)
  asleep : Bool
  frames : List (Frame α)

namespace Dispatch

def setWorker (x : Dispatch α) (i : Nat) (w : Worker α) : Dispatch α :=
  { x with workers := Function.update x.workers i w }

/-- `!workers_pending`. -/
def NonePending (n : Nat) (x : Dispatch α) : Prop := ∀ i < n, (x.workers i).pending = false

instance (n : Nat) (x : Dispatch α) : Decidable (NonePending n x) :=
  inferInstanceAs (Decidable (∀ i < n, _))

/-- `ctz64(workers_pending)`. -/
def lowestPending (n : Nat) (x : Dispatch α) : Option Nat :=
  (List.range n).find? fun i => (x.workers i).pending

end Dispatch

/-- The assertions of `voice_work_schedule` on one voice. -/
def BinsOk (b : Bins) (dirty : BitVec 32) : Prop :=
  (b.src = 0 ∨ b.src = multipassBinMask) ∧ (b.src = 0 ∨ b.clr = multipassBinMask) ∧
    (b.src ≠ 0 ∨ b.dst &&& multipassBinMask ≠ 0 ∨ dirty &&& multipassBinMask = 0)

instance (b : Bins) (dirty : BitVec 32) : Decidable (BinsOk b dirty) :=
  inferInstanceAs (Decidable (_ ∧ _ ∧ _))

def Worker.give (w : Worker α) (v : α) : Worker α :=
  { w with pending := true, queue := w.queue ++ [v], assigned := w.assigned ++ [v] }

/-- The loop of `voice_work_schedule`: voices of a group stay with one worker. -/
def scheduleFrom (n : Nat) (bins : α → Bins) :
    List α → Nat → Bool → BitVec 32 → (Nat → Worker α) → Option (Nat → Worker α)
  | [], _, _, _, workers => some workers
  | v :: queue, next, group, dirty, workers =>
    let b := bins v
    if BinsOk b dirty then
      let group := group || b.dst &&& multipassBinMask &&& ~~~dirty != 0
      let workers := Function.update workers next ((workers next).give v)
      let group := group && b.clr &&& multipassBinMask == 0
      scheduleFrom n bins queue (if group then next else (next + 1) % n) group
        ((dirty &&& ~~~b.clr) ||| b.dst) workers
    else none

def Worker.forget (w : Worker α) : Worker α := { w with assigned := [], calls := [] }

/-- `voice_work_schedule`, after the mix bins have been cleared. -/
def schedule (n : Nat) (bins : α → Bins) (x : Dispatch α) : Option (Dispatch α) :=
  (scheduleFrom n bins x.queue 0 false 0 fun i => (x.workers i).forget).map fun workers =>
    { x with workers := workers, mixbins := [] }

/-- Places in `voice_work_init` (`first`) and `voice_work_dispatch`, and in `voice_worker_thread`. -/
inductive Point where
  | enqueueFinished (first : Bool)
  | releaseFinished (first : Bool)
  | blockedFinished (first : Bool)
  | reacquireFinished (first : Bool)
  | check (first : Bool)
  | failed
  | unlock
  | idle
  | loop
  | lock
  | schedule
  | broadcast
  | workerStart
  | workerFirst
  | workerTop (i : Nat)
  | workerUnlock (i : Nat)
  | workerClearBins (i : Nat)
  | workerProcess (i k : Nat)
  | workerRelock (i : Nat)
  | workerAdd (i : Nat)
  | workerClear (i : Nat)
  | workerSignal (i : Nat)
  | workerEnqueue (i : Nat)
  | workerRelease (i : Nat)
  | workerBlocked (i : Nat)
  | workerReacquire (i : Nat)
  deriving DecidableEq

structure Choices (α : Type) where
  queues : Nat → List α
  bins : Nat → α → Bins

def Dispatch.finish (n : Nat) (x : Dispatch α) : Dispatch α :=
  { x with
    queue := []
    frames := x.frames ++ [{
      queue := x.queue
      dropped := false
      processed := ∑ i ∈ Finset.range n, ((x.workers i).calls : Multiset α)
      mixbins := x.mixbins }] }

def Dispatch.drop (n : Nat) (x : Dispatch α) : Dispatch α :=
  let held := ∑ i ∈ Finset.range n, ((x.workers i).queue : Multiset α)
  { x with queue := [], frames := x.frames ++ [⟨x.queue, true, held, []⟩] }

def voiceCode (n : Nat) (C : Choices α) : Point → Instr (Dispatch α) Point Unit
  -- `qemu_cond_wait(&vwd->work_finished, &vwd->lock)`
  | .enqueueFinished first => .act fun _ x => some ({ x with asleep := true }, .releaseFinished first)
  | .releaseFinished first => .unlock () (.blockedFinished first)
  | .blockedFinished first => .act fun _ x =>
    if x.asleep then none else some (x, .reacquireFinished first)
  | .reacquireFinished first => .lock () (.check first)
  | .check first => .act fun _ x =>
    if x.NonePending n then some (if first then x else x.finish n, .unlock) else some (x, .failed)
  | .failed => .act fun _ _ => none
  | .unlock => .unlock () .idle
  -- `mcpx_apu_vp_frame` queues the voices of a frame
  | .idle => .act fun c x => some ({ x with queue := C.queues c }, .loop)
  -- a pause is requested, no queued voice is locked, or the loop waits
  | .loop => .act fun c x =>
    some (if c = 0 then (x.drop n, .idle) else if c = 1 then (x, .lock) else (x, .loop))
  | .lock => .lock () .schedule
  | .schedule => .act fun c x =>
    if x.queue = [] then some (x, .unlock)
    else (Apu.schedule n (C.bins c) x).map (·, .broadcast)
  | .broadcast => .act fun _ x =>
    some ({ x with workers := fun i => { x.workers i with asleep := false } }, .enqueueFinished false)
  | .workerStart => .lock () .workerFirst
  | .workerFirst => .act fun _ x =>
    (x.lowestPending n).map fun i => (x.setWorker i { x.workers i with queue := [] }, .workerTop i)
  | .workerTop i => .act fun _ x =>
    some (x, if (x.workers i).queue = [] then .workerClear i else .workerUnlock i)
  | .workerUnlock i => .unlock () (.workerClearBins i)
  | .workerClearBins i => .act fun _ x =>
    some (x.setWorker i { x.workers i with mixbins := [] }, .workerProcess i 0)
  | .workerProcess i k => .act fun _ x =>
    match (x.workers i).queue[k]? with
    | none => some (x, .workerRelock i)
    | some v => some (x.setWorker i { x.workers i with
        mixbins := (x.workers i).mixbins ++ [v]
        calls := (x.workers i).calls ++ [v] }, .workerProcess i (k + 1))
  | .workerRelock i => .lock () (.workerAdd i)
  | .workerAdd i => .act fun _ x =>
    some ({ x.setWorker i { x.workers i with queue := [] } with
      mixbins := x.mixbins ++ (x.workers i).mixbins }, .workerClear i)
  | .workerClear i => .act fun _ x =>
    some (x.setWorker i { x.workers i with pending := false }, .workerSignal i)
  | .workerSignal i => .act fun _ x =>
    some (if x.NonePending n then { x with asleep := false } else x, .workerEnqueue i)
  -- `qemu_cond_wait(&vwd->work_pending, &vwd->lock)`
  | .workerEnqueue i => .act fun _ x =>
    some (x.setWorker i { x.workers i with asleep := true }, .workerRelease i)
  | .workerRelease i => .unlock () (.workerBlocked i)
  | .workerBlocked i => .act fun _ x =>
    if (x.workers i).asleep then none else some (x, .workerReacquire i)
  | .workerReacquire i => .lock () (.workerTop i)

def voiceHeld : Point → Unit → Bool
  | .enqueueFinished _, _ | .releaseFinished _, _ | .check _, _ | .failed, _ | .unlock, _
  | .schedule, _ | .broadcast, _ | .workerFirst, _ | .workerTop _, _ | .workerUnlock _, _
  | .workerAdd _, _ | .workerClear _, _ | .workerSignal _, _ | .workerEnqueue _, _
  | .workerRelease _, _ => true
  | _, _ => false

def Point.id : Point → Option Nat
  | .workerTop i | .workerUnlock i | .workerClearBins i | .workerProcess i _ | .workerRelock i
  | .workerAdd i | .workerClear i | .workerSignal i | .workerEnqueue i | .workerRelease i
  | .workerBlocked i | .workerReacquire i => some i
  | _ => none

abbrev VoiceThreads (α : Type) (n : Nat) := Threads (Dispatch α) Point Unit (Option (Fin n))

/-- `voice_work_init` has created the workers and holds the lock. -/
def voiceStart (n : Nat) : VoiceThreads α n where
  shared := {
    workers := fun i => ⟨decide (i < n), [], [], false, [], []⟩
    queue := []
    mixbins := []
    asleep := false
    frames := [] }
  owner := fun _ => some none
  pc := fun t => t.elim (.enqueueFinished true) fun _ => .workerStart

end XogMobile.Apu
