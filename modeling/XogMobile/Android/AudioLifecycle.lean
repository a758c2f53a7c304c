import XogMobile.Android.AudioRing

/-!
# The cursors while the stream is opened and closed

`init` and `shutdown` store zero into both cursors, which elsewhere only their owners write. A
callback or a queue call that is under way then publishes a position counted from the old cursors.
`ResetOk` says which resets are harmless: those that find the cursor at zero already, and those no
party is in the middle of. Under it the fill level stays within the ring over every run.

Everything is measured from the read cursor, so that the invariant does not mention positions.
-/

namespace XogMobile.Android

open Lib Function

variable (s : Audio)

def ahead (cursor : U32) : Nat := (cursor - s.readPos).toNat

def holdsCursor : Producer → Prop
  | .loaded _ _ => True
  | .filling _ _ _ _ => True
  | .counted _ => True
  | _ => False

def NoCallback : Prop := ∀ id, s.callback id = .idle

/-- The store of zero to the read cursor changes nothing, or meets nobody half way and leaves no
more than a ring behind the write cursor. -/
def ReadResetOk : Prop :=
  s.readPos = 0 ∨ NoCallback s ∧ ¬ holdsCursor s.producer ∧ s.writePos.toNat ≤ ringFrames

/-- The store of zero to the write cursor changes nothing, or finds the read cursor at zero and no
callback in flight. -/
def WriteResetOk : Prop := s.writePos = 0 ∨ s.readPos = 0 ∧ NoCallback s

/-- Resets are harmless and a callback starts only after the last one has returned. -/
def ResetOk : AudioEvent → Prop
  | .callback _ (.enter _) => NoCallback s
  | .caller _ .initResetRead => ReadResetOk s
  | .caller _ .initResetWrite => WriteResetOk s
  | .caller _ .stopResetRead => ReadResetOk s
  | .caller _ .stopResetWrite => WriteResetOk s
  | _ => True

/-- The cursors the producer works with are at least as far as the published one, and what it is
about to publish fits. -/
def ProducerFits (filled : Nat) (dist : U32 → Nat) : Producer → Prop
  | .loaded _ wpos => filled ≤ dist wpos ∧ dist wpos ≤ ringFrames
  | .counted wpos => filled ≤ dist wpos ∧ dist wpos ≤ ringFrames
  | .filling batch i _ wpos =>
    ∃ d, filled ≤ d ∧ d + batch.length ≤ ringFrames ∧ i ≤ batch.length ∧ dist wpos = d + i
  | _ => True

def CallbackFits : Callback → Prop
  | .idle => True
  | .loaded _ rpos => rpos = s.readPos
  | .draining _ rpos available half =>
    ahead s rpos + available.toNat ≤ fill s ∧ (half.isSome → 0 < available.toNat)

/-- The two cursors are at most a ring apart, also where a call holds an old value of one. -/
structure CursorInv (s : Audio) : Prop where
  fill_le : fill s ≤ ringFrames
  producer : ProducerFits (fill s) (ahead s) s.producer
  callback : ∀ id, CallbackFits s (s.callback id)
  single : ∀ id id', s.callback id ≠ .idle → s.callback id' ≠ .idle → id = id'
  calls : ∀ call ∈ s.calls, (call.wpos - call.rpos).toNat ≤ ringFrames
  reported : ∀ bytes ∈ s.reported, bytes ≤ (ringFrames * frameBytes : Nat)

variable {s s' : Audio}

theorem ahead_readPos (s : Audio) : ahead s s.readPos = 0 := by
  rw [ahead, BitVec.sub_self]
  rfl

theorem ahead_succ {cursor : U32} {d : Nat} (h : ahead s cursor = d) (hlt : d < ringFrames) :
    ahead s (cursor + 1) = d + 1 := by
  rw [ringFrames] at hlt
  rw [ahead] at h ⊢
  rw [add_sub_right_comm, BitVec.toNat_add, h]
  exact Nat.mod_eq_of_lt (by change d + 1 < 2 ^ 32; omega)

theorem CursorInv.moveProducer (h : CursorInv s) (p : Producer)
    (hp : ProducerFits (fill s) (ahead s) p) : CursorInv { s with producer := p } :=
  { h with producer := hp, callback := h.callback }

variable {wpos : U32} {batch : List Frame}

theorem CursorInv.queueLoadRead {samples : List Frame} (h : CursorInv s) (hp : s.producer = .loaded samples wpos) :
    CursorInv { s with
      producer := .filling (samples.take (freeFrames wpos s.readPos).toNat) 0 false wpos
      calls := s.calls ++ [⟨samples, wpos, s.readPos, samples.take (freeFrames wpos s.readPos).toNat⟩] } := by
  have hfits := h.producer
  rw [hp] at hfits
  obtain ⟨hfill, hle⟩ := hfits
  have hfree : (freeFrames wpos s.readPos).toNat = ringFrames - ahead s wpos := freeFrames_toNat hle
  refine { h with producer := ?_, callback := h.callback, calls := ?_ }
  · refine ⟨ahead s wpos, hfill, ?_, Nat.zero_le _, rfl⟩
    have htake := List.length_take_le (freeFrames wpos s.readPos).toNat samples
    omega
  · intro call hcall
    rcases List.mem_append.mp hcall with hold | hnew
    · exact h.calls call hold
    · rw [List.mem_singleton] at hnew
      rw [hnew]
      exact hle

theorem CursorInv.queueStore {i : Nat} {half : Bool} {frame : Frame} (h : CursorInv s)
    (hp : s.producer = .filling batch i half wpos) (hframe : batch[i]? = some frame) :
    CursorInv (storeSample s batch i half wpos frame) := by
  have hfits := h.producer
  rw [hp] at hfits
  obtain ⟨d, hfill, hfit, hi, hahead⟩ := hfits
  have hlt : i < batch.length := (List.getElem?_eq_some_iff.mp hframe).1
  rw [storeSample]
  split
  next =>
    have hnext := ahead_succ hahead (by omega)
    refine { h with producer := ?_, callback := h.callback }
    exact ⟨d, hfill, hfit, hlt, hnext⟩
  next =>
    refine { h with producer := ?_, callback := h.callback }
    exact ⟨d, hfill, hfit, hi, hahead⟩

theorem CallbackFits.of_fill_le {c : Callback} (h : CallbackFits s c)
    (hread : s'.readPos = s.readPos) (hfill : fill s ≤ fill s') : CallbackFits s' c := by
  cases c with
  | idle => trivial
  | loaded left rpos => exact (show rpos = s.readPos from h).trans hread.symm
  | draining left rpos available half =>
    obtain ⟨hle, hhalf⟩ := h
    refine ⟨?_, hhalf⟩
    rw [ahead] at hle ⊢
    rw [hread]
    omega

theorem CursorInv.queuePublish (h : CursorInv s) (hp : s.producer = .filling batch batch.length false wpos) :
    CursorInv { s with writePos := wpos, producer := .idle, accepted := s.accepted ++ batch } := by
  have hfits := h.producer
  rw [hp] at hfits
  obtain ⟨d, hfill, hfit, -, hahead⟩ := hfits
  have hnew : (wpos - s.readPos).toNat = d + batch.length := hahead
  refine { h with fill_le := ?_, producer := trivial, callback := fun id => ?_ }
  · change (wpos - s.readPos).toNat ≤ ringFrames
    omega
  · refine (h.callback id).of_fill_le rfl ?_
    change fill s ≤ (wpos - s.readPos).toNat
    omega

theorem CursorInv.queueStep {e : QueueEvent} (h : CursorInv s)
    (hstep : xemuAndroidAudioQueue s e = some s') : CursorInv s' := by
  cases e with simp only [xemuAndroidAudioQueue] at hstep
  | enter samples =>
    split at hstep
    next =>
      split_ifs at hstep <;> cases hstep
      · exact h
      · exact h.moveProducer (.checked samples) trivial
      · exact h
    next => cases hstep
  | loadWrite =>
    split at hstep <;> cases hstep
    next samples hp => exact h.moveProducer (.loaded samples s.writePos) ⟨le_rfl, h.fill_le⟩
  | loadRead =>
    split at hstep <;> cases hstep
    next samples wpos hp => exact h.queueLoadRead hp
  | store =>
    split at hstep
    next batch i half wpos hp =>
      obtain ⟨frame, hframe, rfl⟩ := Option.map_eq_some_iff.mp hstep
      exact h.queueStore hp hframe
    next => cases hstep
  | publish =>
    split at hstep
    next batch i wpos hp =>
      split_ifs at hstep with hi
      subst hi
      cases hstep
      exact h.queuePublish hp
    next => cases hstep

/-- The number of bytes that `queued_bytes` returns does not overflow. -/
theorem queuedBytes_le {fillLevel : U32} (h : fillLevel.toNat ≤ ringFrames) :
    (fillLevel * BitVec.ofNat 32 frameBytes).toInt ≤ (ringFrames * frameBytes : Nat) := by
  have hbytes : (fillLevel * BitVec.ofNat 32 frameBytes).toNat = fillLevel.toNat * 4 := by
    exact Nat.mod_eq_of_lt (by change fillLevel.toNat * 4 < 2 ^ 32; rw [ringFrames] at h; omega)
  rw [ringFrames] at h ⊢
  rw [BitVec.toInt_eq_toNat_of_lt (by omega), hbytes, frameBytes]
  omega

theorem CursorInv.bytesStep {e : BytesEvent} (h : CursorInv s)
    (hstep : xemuAndroidAudioQueuedBytes s e = some s') : CursorInv s' := by
  have hreport : ∀ bytes : Int, bytes ≤ (ringFrames * frameBytes : Nat) →
      ∀ b ∈ s.reported ++ [bytes], b ≤ (ringFrames * frameBytes : Nat) := by
    intro bytes hle b hb
    rcases List.mem_append.mp hb with hold | hnew
    · exact h.reported b hold
    · rwa [List.mem_singleton.mp hnew]
  cases e with simp only [xemuAndroidAudioQueuedBytes] at hstep
  | enter =>
    split at hstep
    next hp =>
      split_ifs at hstep <;> cases hstep
      · exact h.moveProducer .counting trivial
      · exact { h with
          producer := h.producer, callback := h.callback, reported := hreport (-1) (by decide) }
    next => cases hstep
  | loadWrite =>
    split at hstep <;> cases hstep
    next => exact h.moveProducer (.counted s.writePos) ⟨le_rfl, h.fill_le⟩
  | loadRead =>
    split at hstep <;> cases hstep
    next wpos hp =>
      have hfits := h.producer
      rw [hp] at hfits
      exact { h with
        producer := trivial, callback := h.callback
        reported := hreport _ (queuedBytes_le hfits.2) }

theorem ProducerFits.of_le {filled filled' : Nat} {dist : U32 → Nat} {p : Producer}
    (h : ProducerFits filled dist p) (hle : filled' ≤ filled) : ProducerFits filled' dist p := by
  cases p with
  | loaded samples wpos => exact ⟨hle.trans h.1, h.2⟩
  | counted wpos => exact ⟨hle.trans h.1, h.2⟩
  | filling batch i half wpos =>
    obtain ⟨d, hd, hrest⟩ := h
    exact ⟨d, hle.trans hd, hrest⟩
  | idle => trivial
  | checked samples => trivial
  | counting => trivial

section Callback

variable {id left : Nat} {rpos available : U32}

section

variable (h : CursorInv s)
include h

theorem CursorInv.moveCallback (c : Callback) (hc : CallbackFits s c)
    (hothers : ∀ id', id' ≠ id → s.callback id' = .idle) : CursorInv (s.setCallback id c) := by
  have hget : ∀ id', id' ≠ id → (s.setCallback id c).callback id' = .idle := by
    intro id' hne
    rw [← hothers id' hne]
    exact update_of_ne hne _ _
  have hself : (s.setCallback id c).callback id = c := update_self ..
  refine { h with callback := fun id' => ?_, single := fun id' id'' hbusy hbusy' => ?_ }
  · by_cases heq : id' = id
    · rw [heq, hself]
      exact hc
    · rw [hget id' heq]
      trivial
  · rw [not_imp_comm.mp (hget id') hbusy, not_imp_comm.mp (hget id'') hbusy']

theorem CursorInv.others_idle (hbusy : s.callback id ≠ .idle) : ∀ id', id' ≠ id → s.callback id' = .idle :=
  fun id' hne => not_imp_comm.mp (fun hbusy' => h.single id' id hbusy' hbusy) hne

theorem CursorInv.callbackFits {c : Callback} (hc : s.callback id = c) : CallbackFits s c := hc ▸ h.callback id

theorem CursorInv.loadFirst (hc : s.callback id = .draining (left + 1) rpos available none) :
    CursorInv (loadFirst s id left rpos available) := by
  obtain ⟨hle, -⟩ := h.callbackFits hc
  have hothers := h.others_idle (by rw [hc]; exact Callback.noConfusion)
  rw [Android.loadFirst]
  split
  next hpos => exact h.moveCallback _ ⟨hle, fun _ => hpos⟩ hothers
  next => exact h.moveCallback _ ⟨hle, fun hsome => absurd hsome Bool.false_ne_true⟩ hothers

theorem CursorInv.loadSecond {first : Int16} (hc : s.callback id = .draining (left + 1) rpos available (some first)) :
    CursorInv (loadSecond s id left rpos available first) := by
  obtain ⟨hle, hhalf⟩ := h.callbackFits hc
  have hpos : 0 < available.toNat := hhalf rfl
  have hfill := h.fill_le
  have hsub : (available - 1).toNat = available.toNat - 1 := BitVec.toNat_sub_of_le (BitVec.le_def.mpr hpos)
  have hread : ahead s (rpos + 1) + (available - 1).toNat ≤ fill s := by
    rw [ahead_succ rfl (by omega), hsub]
    omega
  have hmoved := h.moveCallback (.draining left (rpos + 1) (available - 1) none)
    ⟨hread, fun hsome => absurd hsome Bool.false_ne_true⟩
    (h.others_idle (by rw [hc]; exact Callback.noConfusion))
  exact { hmoved with producer := hmoved.producer, callback := hmoved.callback }

end

theorem ProducerFits.rebase {filled k : Nat} {dist dist' : U32 → Nat} {p : Producer}
    (h : ProducerFits filled dist p) (hk : k ≤ filled)
    (hdist : ∀ cursor, filled ≤ dist cursor → dist' cursor = dist cursor - k) :
    ProducerFits (filled - k) dist' p := by
  cases p with
  | loaded samples wpos | counted wpos =>
    obtain ⟨hfill, hle⟩ := h
    rw [ProducerFits, hdist wpos hfill]
    omega
  | filling batch i half wpos =>
    obtain ⟨d, hd, hfit, hi, hahead⟩ := h
    refine ⟨d - k, by omega, by omega, hi, ?_⟩
    rw [hdist wpos (by omega)]
    omega
  | idle => trivial
  | checked samples => trivial
  | counting => trivial

theorem CursorInv.callbackPublish (h : CursorInv s) (hc : s.callback id = .draining 0 rpos available none) :
    CursorInv { s.setCallback id .idle with readPos := rpos } := by
  obtain ⟨hle, -⟩ := h.callbackFits hc
  have hothers := h.others_idle (by rw [hc]; exact Callback.noConfusion)
  have hquiet : ∀ id', (s.setCallback id .idle).callback id' = .idle := by
    intro id'
    by_cases heq : id' = id
    · rw [heq]
      exact update_self ..
    · rw [← hothers id' heq]
      exact update_of_ne heq _ _
  -- every distance of at least the fill level shrinks by what the callback read
  have hrebase : ∀ cursor, fill s ≤ ahead s cursor → (cursor - rpos).toNat = ahead s cursor - ahead s rpos :=
    fun cursor hcursor => cursor_rebase (by change ahead s rpos ≤ ahead s cursor; omega)
  have hfill : (s.writePos - rpos).toNat = fill s - ahead s rpos := hrebase s.writePos le_rfl
  have hbound := h.fill_le
  refine { h with fill_le := ?_, producer := ?_, callback := ?_, single := ?_ }
  · change (s.writePos - rpos).toNat ≤ ringFrames
    omega
  · change ProducerFits (s.writePos - rpos).toNat (fun cursor => (cursor - rpos).toNat) s.producer
    rw [hfill]
    exact h.producer.rebase (by omega) hrebase
  · intro id'
    rw [show _ = _ from hquiet id']
    trivial
  · intro id' id'' hbusy
    exact absurd (hquiet id') hbusy

end Callback

section

variable (h : CursorInv s)
include h

theorem CursorInv.callbackStep {id : Nat} {e : CallbackEvent}
    (hok : ResetOk s (.callback id e)) (hstep : xemuAndroidAudioDataCallback s id e = some s') :
    CursorInv s' := by
  cases e with simp only [xemuAndroidAudioDataCallback] at hstep
  | enter numFrames =>
    split_ifs at hstep
    cases hstep
    exact h.moveCallback (.loaded numFrames s.readPos) rfl fun id' _ => hok id'
  | loadWrite =>
    split at hstep <;> cases hstep
    next left rpos hc =>
      have hrpos : rpos = s.readPos := h.callbackFits hc
      have hothers := h.others_idle (by rw [hc]; exact Callback.noConfusion)
      refine h.moveCallback _ ⟨?_, fun hsome => absurd hsome Bool.false_ne_true⟩ hothers
      rw [hrpos, ahead_readPos, Nat.zero_add, fill]
  | load =>
    split at hstep <;> cases hstep
    next left rpos available hc => exact h.loadFirst hc
    next left rpos available first hc => exact h.loadSecond hc
  | publish =>
    split at hstep <;> cases hstep
    next rpos available hc => exact h.callbackPublish hc

theorem CursorInv.moveCaller (audioLock audioStream : Option Nat) (device : Nat → Stream) (caller : Nat → Caller) :
    CursorInv { s with
      audioLock := audioLock, audioStream := audioStream, device := device, caller := caller } :=
  { h with producer := h.producer, callback := h.callback }

theorem CursorInv.resetRead (hok : ReadResetOk s) : CursorInv { s with readPos := 0 } := by
  rcases hok with hzero | ⟨hquiet, hproducer, hle⟩
  · rw [← hzero]
    exact h
  · have hfill : (s.writePos - 0).toNat = s.writePos.toNat := by rw [sub_zero]
    refine { h with fill_le := ?_, producer := ?_, callback := fun id => ?_ }
    · change (s.writePos - 0).toNat ≤ ringFrames
      rwa [hfill]
    · revert hproducer
      cases s.producer <;> simp [holdsCursor, ProducerFits]
    · rw [show _ = _ from hquiet id]
      trivial

theorem CursorInv.resetWrite (hok : WriteResetOk s) : CursorInv { s with writePos := 0 } := by
  rcases hok with hzero | ⟨hread, hquiet⟩
  · rw [← hzero]
    exact h
  · have hfill : fill { s with writePos := 0 } = 0 := by
      change ((0 : U32) - s.readPos).toNat = 0
      rw [hread]
      rfl
    refine { h with fill_le := ?_, producer := ?_, callback := fun id => ?_ }
    · rw [hfill]
      exact Nat.zero_le _
    · -- the producer may be anywhere: it publishes from cursors it loaded before the reset
      rw [hfill]
      exact h.producer.of_le (Nat.zero_le _)
    · rw [show _ = _ from hquiet id]
      trivial

theorem CursorInv.callerStep {t : Nat} {e : CallerEvent}
    (hok : ResetOk s (.caller t e)) (hstep : xemuAndroidAudioLifecycle s t e = some s') :
    CursorInv s' := by
  cases e <;> simp only [xemuAndroidAudioLifecycle] at hstep
  case init =>
    split_ifs at hstep <;> cases hstep
    · exact h
    · exact h.moveCaller ..
  case initResetRead | stopResetRead =>
    split at hstep <;> cases hstep
    exact (h.resetRead hok).moveCaller ..
  case initResetWrite | stopResetWrite =>
    split at hstep <;> cases hstep
    exact (h.resetWrite hok).moveCaller ..
  -- the other steps change nothing the invariant speaks of
  all_goals
    repeat' split at hstep
    all_goals cases hstep
    all_goals exact h.moveCaller ..

theorem CursorInv.step {e : AudioEvent} (hok : ResetOk s e) (hstep : audioStep s e = some s') : CursorInv s' := by
  cases e with
  | queue e => exact h.queueStep hstep
  | bytes e => exact h.bytesStep hstep
  | callback id e => exact h.callbackStep hok hstep
  | caller t e => exact h.callerStep hok hstep

end

def audioBoot : Audio where
  ring := fun _ => (0, 0)
  readPos := 0
  writePos := 0
  audioStream := none
  audioLock := none
  device := fun _ => .unopened
  producer := .idle
  callback := fun _ => .idle
  caller := fun _ => .idle
  accepted := []
  played := []
  calls := []
  reported := []

theorem audioBoot_cursorInv : CursorInv audioBoot where
  fill_le := Nat.zero_le _
  producer := trivial
  callback := fun _ => trivial
  single := fun _ _ hbusy => absurd rfl hbusy
  calls := fun _ hcall => absurd hcall List.not_mem_nil
  reported := fun _ hbytes => absurd hbytes List.not_mem_nil

/-- The cursors show at most a full ring, no queue call computed its free space from more, and no
answer of `queued_bytes` exceeded the ring. -/
def CursorsInRange (s : Audio) : Prop :=
  fill s ≤ ringFrames ∧ (∀ call ∈ s.calls, (call.wpos - call.rpos).toNat ≤ ringFrames) ∧
    ∀ bytes ∈ s.reported, bytes ≤ (ringFrames * frameBytes : Nat)

instance (s : Audio) : Decidable (CursorsInRange s) := by
  unfold CursorsInRange
  infer_instance

/-- In every run whose resets are harmless the cursors stay in range. -/
theorem audio_cursors_in_range {t : Audio} {events : List AudioEvent}
    (hmeets : Meets audioStep ResetOk audioBoot events)
    (hrun : run audioStep audioBoot events = some t) : CursorsInRange t := by
  have h := run_invariant_of_meets CursorInv (fun _ _ _ h hok hstep => h.step hok hstep)
    audioBoot_cursorInv hmeets hrun
  exact ⟨h.fill_le, h.calls, h.reported⟩

def openStream : List AudioEvent :=
  [.caller 0 .init, .caller 0 .initResetRead, .caller 0 .initResetWrite,
    .caller 0 (.initOpen (some 0)), .caller 0 .initAssign, .caller 0 (.initStart true)]

def queueFrame : List AudioEvent :=
  [.queue (.enter [(1, 2)]), .queue .loadWrite, .queue .loadRead, .queue .store, .queue .store,
    .queue .publish]

def drainFrame : List AudioEvent :=
  [.callback 0 (.enter 1), .callback 0 .loadWrite, .callback 0 .load, .callback 0 .load, .callback 0 .publish]

def shutdownStream : List AudioEvent :=
  [.caller 1 .shutdown, .caller 1 .stop, .caller 1 .stopResetRead, .caller 1 .stopResetWrite]

theorem audio_cursors_in_range_open :
    ∃ t, run audioStep audioBoot (openStream ++ queueFrame ++ drainFrame ++ shutdownStream) = some t ∧
      t.played.length = 1 ∧ CursorsInRange t := by
  refine ⟨_, rfl, rfl, ?_⟩
  refine @audio_cursors_in_range _ (openStream ++ queueFrame ++ drainFrame ++ shutdownStream) ?_ rfl
  -- init finds both cursors at zero
  refine meets_cons trivial rfl <| meets_cons (.inl rfl) rfl <| meets_cons (.inl rfl) rfl ?_
  refine meets_cons trivial rfl <| meets_cons trivial rfl <| meets_cons trivial rfl ?_
  refine meets_cons trivial rfl <| meets_cons trivial rfl <| meets_cons trivial rfl ?_
  refine meets_cons trivial rfl <| meets_cons trivial rfl <| meets_cons trivial rfl ?_
  refine meets_cons (fun _ => rfl) rfl <| meets_cons trivial rfl <| meets_cons trivial rfl ?_
  refine meets_cons trivial rfl <| meets_cons trivial rfl <| meets_cons trivial rfl <| meets_cons trivial rfl ?_
  -- the callback has returned when the cursors are reset
  refine meets_cons (.inr ⟨fun id => ?_, id, by decide⟩) rfl <| meets_cons (.inr ⟨rfl, fun id => ?_⟩) rfl trivial <;>
    cases id <;> rfl

/-- A shutdown while a callback is in flight: it publishes a read cursor of 1 behind the reset. -/
theorem audio_cursors_out_of_range :
    ∃ t, run audioStep audioBoot (openStream ++ queueFrame ++
      [.callback 0 (.enter 1), .callback 0 .loadWrite, .callback 0 .load, .callback 0 .load,
        .caller 1 .shutdown, .caller 1 .stop, .caller 1 .stopResetRead, .caller 1 .stopResetWrite,
        .callback 0 .publish]) = some t ∧ ¬ CursorsInRange t := by
  refine ⟨_, rfl, ?_⟩
  decide

end XogMobile.Android
