import XogMobile.Lib.Run
import XogMobile.Lib.Cursor

/-!
# The Android audio output

The lock-free ring of `ui/xemu-android-native.c` between the APU thread, which queues frames, and
the AAudio callback, which plays them, with the routines that open and close the stream. Every
access to shared memory is a step of its own, down to the two `int16_t` of a frame, so a run may
interleave the routines anywhere: between the activity check and the cursor loads, between two
stores of a frame, between the two stores that reset the cursors.

`accepted`, `played`, `calls` and `reported` are not variables of the program. They record what was
queued and played, for the statements.
-/

namespace XogMobile.Android

open Lib Function

abbrev U32 := BitVec 32

abbrev Frame := Int16 × Int16

/-- `ANDROID_AUDIO_RING_FRAMES` is `2 ^ 13`. -/
def ringBits : Nat := 13

def ringFrames : Nat := 8192

/-- `ANDROID_AUDIO_CHANNELS * sizeof(audio_ring[0][0])`. -/
def frameBytes : Nat := 4

/-- The APU thread, which calls `xemu_android_audio_queue` and `xemu_android_audio_queued_bytes`. -/
inductive Producer where
  | idle
  | checked (samples : List Frame)
  | loaded (samples : List Frame) (wpos : U32)
  | filling (batch : List Frame) (i : Nat) (half : Bool) (wpos : U32)
  | counting
  | counted (wpos : U32)
  deriving DecidableEq

/-- A call of `xemu_android_audio_data_callback`: `half` is the first sample of the frame that is
being read. -/
inductive Callback where
  | idle
  | loaded (left : Nat) (rpos : U32)
  | draining (left : Nat) (rpos available : U32) (half : Option Int16)
  deriving DecidableEq

inductive Stream where
  | unopened
  | opened
  | started
  | closed
  deriving DecidableEq

/-- A thread in `xemu_android_audio_init` or `xemu_android_audio_shutdown`. -/
inductive Caller where
  | idle
  | initResetRead
  | initResetWrite
  | initOpen
  | initAssign (stream : Nat)
  | initStart (stream : Nat)
  | stop
  | stopResetRead (stream : Option Nat)
  | stopResetWrite (stream : Option Nat)
  | stopClose (stream : Nat)
  deriving DecidableEq

structure QueueCall where
  samples : List Frame
  (wpos rpos : U32)
  batch : List Frame

structure Audio where
  ring : Nat → Frame
  (readPos writePos : U32)
  (audioStream audioLock : Option Nat)
  device : Nat → Stream
  producer : Producer
  callback : Nat → Callback
  caller : Nat → Caller
  (accepted played : List Frame)
  calls : List QueueCall
  reported : List Int

variable (s : Audio)

def Audio.setCallback (id : Nat) (c : Callback) : Audio :=
  { s with callback := update s.callback id c }

def Audio.setCaller (t : Nat) (c : Caller) : Audio := { s with caller := update s.caller t c }

inductive QueueEvent where
  | enter (samples : List Frame)
  | loadWrite
  | loadRead
  | store
  | publish

/-- `free_frames`, in `uint32_t` arithmetic. -/
def freeFrames (wpos rpos : U32) : U32 := BitVec.ofNat 32 ringFrames - (wpos - rpos)

/-- Store one sample: the first of the frame at `i`, or its second one, after which the loop moves
to the next frame. -/
def storeSample (batch : List Frame) (i : Nat) (half : Bool) (wpos : U32) (frame : Frame) : Audio :=
  let idx := slotOf ringBits wpos
  if half then
    { s with
      ring := update s.ring idx ((s.ring idx).1, frame.2)
      producer := .filling batch (i + 1) false (wpos + 1) }
  else
    { s with
      ring := update s.ring idx (frame.1, (s.ring idx).2)
      producer := .filling batch i true wpos }

/-- `xemu_android_audio_queue`. The frames that do not fit are dropped from the end. -/
def xemuAndroidAudioQueue : QueueEvent → Option Audio
  | .enter samples =>
    match s.producer with
    | .idle =>
      -- an empty request returns before it takes the lock
      if samples.isEmpty then some s
      else if s.audioLock.isSome then none
      else if s.audioStream.isSome then some { s with producer := .checked samples }
      else some s
    | _ => none
  | .loadWrite =>
    match s.producer with
    | .checked samples => some { s with producer := .loaded samples s.writePos }
    | _ => none
  | .loadRead =>
    match s.producer with
    | .loaded samples wpos =>
      let batch := samples.take (freeFrames wpos s.readPos).toNat
      some { s with
        producer := .filling batch 0 false wpos
        calls := s.calls ++ [⟨samples, wpos, s.readPos, batch⟩] }
    | _ => none
  | .store =>
    match s.producer with
    | .filling batch i half wpos => batch[i]?.map (storeSample s batch i half wpos)
    | _ => none
  | .publish =>
    match s.producer with
    | .filling batch i false wpos =>
      if i = batch.length then
        some { s with writePos := wpos, producer := .idle, accepted := s.accepted ++ batch }
      else none
    | _ => none

inductive BytesEvent where
  | enter
  | loadWrite
  | loadRead

/-- `xemu_android_audio_queued_bytes`; the result is converted to `int`. -/
def xemuAndroidAudioQueuedBytes : BytesEvent → Option Audio
  | .enter =>
    match s.producer with
    | .idle =>
      if s.audioLock.isSome then none
      else if s.audioStream.isSome then some { s with producer := .counting }
      else some { s with reported := s.reported ++ [-1] }
    | _ => none
  | .loadWrite =>
    match s.producer with
    | .counting => some { s with producer := .counted s.writePos }
    | _ => none
  | .loadRead =>
    match s.producer with
    | .counted wpos =>
      let bytes := (wpos - s.readPos) * BitVec.ofNat 32 frameBytes
      some { s with producer := .idle, reported := s.reported ++ [bytes.toInt] }
    | _ => none

inductive CallbackEvent where
  | enter (numFrames : Nat)
  | loadWrite
  | load
  | publish

/-- One iteration of the output loop when no frame is being read: an empty ring gives a silent
frame, otherwise the first sample is read. -/
def loadFirst (id left : Nat) (rpos available : U32) : Audio :=
  if 0 < available.toNat then
    s.setCallback id
      (.draining (left + 1) rpos available (some (s.ring (slotOf ringBits rpos)).1))
  else
    s.setCallback id (.draining left rpos available none)

def loadSecond (id left : Nat) (rpos available : U32) (first : Int16) : Audio :=
  { s.setCallback id (.draining left (rpos + 1) (available - 1) none) with
    played := s.played ++ [(first, (s.ring (slotOf ringBits rpos)).2)] }

/-- `xemu_android_audio_data_callback` for the stream `id`. -/
def xemuAndroidAudioDataCallback (id : Nat) : CallbackEvent → Option Audio
  | .enter numFrames =>
    if s.device id = .started ∧ s.callback id = .idle then
      some (s.setCallback id (.loaded numFrames s.readPos))
    else none
  | .loadWrite =>
    match s.callback id with
    | .loaded left rpos =>
      some (s.setCallback id (.draining left rpos (s.writePos - rpos) none))
    | _ => none
  | .load =>
    match s.callback id with
    | .draining (left + 1) rpos available none => some (loadFirst s id left rpos available)
    | .draining (left + 1) rpos available (some first) =>
      some (loadSecond s id left rpos available first)
    | _ => none
  | .publish =>
    match s.callback id with
    | .draining 0 rpos _ none =>
      some { s.setCallback id .idle with readPos := rpos }
    | _ => none

/-- The steps of a thread in `init` or `shutdown`; the outcomes of the AAudio calls are part of the
event. -/
inductive CallerEvent where
  | init
  | initResetRead
  | initResetWrite
  | initOpen (result : Option Nat)
  | initAssign
  | initStart (ok : Bool)
  | shutdown
  | stop
  | stopResetRead
  | stopResetWrite
  | stopClose

def afterStop : Option Nat → Caller
  | some stream => .stopClose stream
  | none => .idle

/-- `xemu_android_audio_init` and `xemu_android_audio_shutdown`, run by the thread `t`.
`reset_audio_ring_locked` is the two steps `ResetRead` and `ResetWrite` under `audio_lock`. -/
def xemuAndroidAudioLifecycle (t : Nat) : CallerEvent → Option Audio
  | .init =>
    if s.caller t = .idle ∧ s.audioLock = none then
      if s.audioStream.isSome then some s
      else some { s.setCaller t .initResetRead with audioLock := some t }
    else none
  | .initResetRead =>
    if s.caller t = .initResetRead then
      some { s.setCaller t .initResetWrite with readPos := 0 }
    else none
  | .initResetWrite =>
    if s.caller t = .initResetWrite then
      some { s.setCaller t .initOpen with writePos := 0, audioLock := none }
    else none
  | .initOpen result =>
    if s.caller t = .initOpen then
      match result with
      | none => some (s.setCaller t .idle)
      | some stream =>
        if s.device stream = .unopened then
          some { s.setCaller t (.initAssign stream) with
            device := update s.device stream .opened }
        else none
    else none
  | .initAssign =>
    match s.caller t with
    | .initAssign stream =>
      if s.audioLock = none then
        some { s.setCaller t (.initStart stream) with audioStream := some stream }
      else none
    | _ => none
  | .initStart ok =>
    match s.caller t with
    | .initStart stream =>
      if ok then
        if s.device stream = .opened then
          some { s.setCaller t .idle with
            device := update s.device stream .started }
        else none
      else some (s.setCaller t .stop)
    | _ => none
  | .shutdown =>
    if s.caller t = .idle then some (s.setCaller t .stop) else none
  | .stop =>
    if s.caller t = .stop ∧ s.audioLock = none then
      some { s.setCaller t (.stopResetRead s.audioStream) with
        audioLock := some t
        audioStream := none }
    else none
  | .stopResetRead =>
    match s.caller t with
    | .stopResetRead stream =>
      some { s.setCaller t (.stopResetWrite stream) with readPos := 0 }
    | _ => none
  | .stopResetWrite =>
    match s.caller t with
    | .stopResetWrite stream =>
      some { s.setCaller t (afterStop stream) with writePos := 0, audioLock := none }
    | _ => none
  | .stopClose =>
    match s.caller t with
    | .stopClose stream =>
      -- `AAudioStream_close` returns only once the callback has
      if s.callback stream = .idle then
        some { s.setCaller t .idle with
          device := update s.device stream .closed }
      else none
    | _ => none

inductive AudioEvent where
  | queue (e : QueueEvent)
  | bytes (e : BytesEvent)
  | callback (id : Nat) (e : CallbackEvent)
  | caller (t : Nat) (e : CallerEvent)

def audioStep : AudioEvent → Option Audio
  | .queue e => xemuAndroidAudioQueue s e
  | .bytes e => xemuAndroidAudioQueuedBytes s e
  | .callback id e => xemuAndroidAudioDataCallback s id e
  | .caller t e => xemuAndroidAudioLifecycle s t e

def fill : Nat := (s.writePos - s.readPos).toNat

end XogMobile.Android
