import XogMobile.Android.Audio

/-!
# The ring carries every accepted frame once and in order

One producer and one callback, any interleaving of their steps, any number of wraps. The invariant
speaks of unbounded positions: `base` is the position both cursors started at, the producer has
published everything below `base + accepted.length`, the callback has read everything below
`base + played.length`, and `published` is the position of the read cursor that the producer can
see, which lags behind while a callback runs.
-/

namespace XogMobile.Android

open Lib Function List BitVec Nat

def writeEnd (base : Nat) (s : Audio) : Nat := base + s.accepted.length

def readEnd (base : Nat) (s : Audio) : Nat := base + s.played.length

/-- What the producer's local variables mean: the slots it has filled but not published hold the
beginning of its batch, and the whole batch fits. -/
def ProducerOk (ring : Nat → Frame) (wend published : Nat) : Producer → Prop
  | .loaded _ wpos => wpos = BitVec.ofNat 32 wend
  | .counted wpos => wpos = BitVec.ofNat 32 wend
  | .filling batch i half wpos =>
    wpos = BitVec.ofNat 32 (wend + i) ∧ i ≤ batch.length ∧
      wend + batch.length ≤ published + ringFrames ∧
      Holds ringFrames ring batch wend wend (wend + i) ∧
      (half = true → batch[i]?.map Prod.fst = some (ring ((wend + i) % ringFrames)).1)
  | _ => True

/-- What the callback's local variables mean: it saw a write position `seen`, and the half frame it
holds is the first sample of the next frame. -/
def CallbackOk (ring : Nat → Frame) (rend wend published : Nat) : Callback → Prop
  | .idle => rend = published
  | .loaded _ rpos => rend = published ∧ rpos = BitVec.ofNat 32 rend
  | .draining _ rpos available half =>
    rpos = BitVec.ofNat 32 rend ∧
      ∃ seen, rend ≤ seen ∧ seen ≤ wend ∧ available = BitVec.ofNat 32 (seen - rend) ∧
        ∀ first, half = some first → rend < seen ∧ (ring (rend % ringFrames)).1 = first

def inFlight : Producer → List Frame
  | .filling batch _ _ _ => batch
  | _ => []

/-- A queue call saw no more than the ring holds and took the longest prefix that fits. -/
def TookWhatFits (call : QueueCall) : Prop :=
  (call.wpos - call.rpos).toNat ≤ ringFrames ∧
    call.batch = call.samples.take (ringFrames - (call.wpos - call.rpos).toNat)

/-- Cursors, slots and calls against the frames accepted and played since both were at `base`. -/
structure TransferInv (base published id : Nat) (s : Audio) : Prop where
  writePos_eq : s.writePos = BitVec.ofNat 32 (writeEnd base s)
  readPos_eq : s.readPos = BitVec.ofNat 32 published
  published_le : published ≤ readEnd base s
  read_le : readEnd base s ≤ writeEnd base s
  write_le : writeEnd base s ≤ published + ringFrames
  played_eq : s.played = s.accepted.take s.played.length
  slots : Holds ringFrames s.ring s.accepted base (readEnd base s) (writeEnd base s)
  producer : ProducerOk s.ring (writeEnd base s) published s.producer
  callback : CallbackOk s.ring (readEnd base s) (writeEnd base s) published (s.callback id)
  calls : ∀ call ∈ s.calls, TookWhatFits call
  calls_eq : s.calls.flatMap QueueCall.batch = s.accepted ++ inFlight s.producer

def IsTransfer (id : Nat) : AudioEvent → Prop
  | .queue _ => True
  | .bytes _ => True
  | .callback id' _ => id' = id
  | .caller _ _ => False

theorem slotOf_position (p : Nat) : slotOf ringBits (BitVec.ofNat 32 p) = p % ringFrames := slotOf_ofNat (by decide) p

theorem position_distance {r p : Nat} (hle : r ≤ p) (hlap : p ≤ r + ringFrames) :
    (BitVec.ofNat 32 p - BitVec.ofNat 32 r).toNat = p - r :=
  cursor_distance hle (by rw [ringFrames] at hlap; omega)

theorem freeFrames_toNat {wpos rpos : U32} (h : (wpos - rpos).toNat ≤ ringFrames) :
    (freeFrames wpos rpos).toNat = ringFrames - (wpos - rpos).toNat := by
  have hle : wpos - rpos ≤ BitVec.ofNat 32 ringFrames := by
    exact h
  rw [freeFrames, toNat_sub_of_le hle]
  rfl

variable {base published id : Nat} {s s' : Audio}

theorem TransferInv.fill_eq (h : TransferInv base published id s) : fill s = writeEnd base s - published := by
  rw [fill, h.writePos_eq, h.readPos_eq]
  exact position_distance (h.published_le.trans h.read_le) h.write_le

theorem TransferInv.fill_le (h : TransferInv base published id s) : fill s ≤ ringFrames := by
  have hwrite := h.write_le
  rw [h.fill_eq]
  omega

section Producer

variable {ring : Nat → Frame} {rend wend q : Nat} {frame : Frame} {c : Callback}

theorem CallbackOk.update (h : CallbackOk ring rend wend published c) (hq : wend ≤ q) (hlap : q < rend + ringFrames) :
    CallbackOk (update ring (q % ringFrames) frame) rend wend published c := by
  cases c with
  | idle => exact h
  | loaded left rpos => exact h
  | draining left rpos available half =>
    obtain ⟨hrpos, seen, hle, hseen, havail, hhalf⟩ := h
    refine ⟨hrpos, seen, hle, hseen, havail, fun first hfirst => ?_⟩
    obtain ⟨hlt, hval⟩ := hhalf first hfirst
    rw [update_slot_of_lt (by omega) hlap]
    exact ⟨hlt, hval⟩

theorem CallbackOk.of_le (h : CallbackOk ring rend wend published c) {wend' : Nat}
    (hle : wend ≤ wend') : CallbackOk ring rend wend' published c := by
  cases c with
  | idle => exact h
  | loaded left rpos => exact h
  | draining left rpos available half =>
    obtain ⟨hrpos, seen, hrend, hseen, hrest⟩ := h
    exact ⟨hrpos, seen, hrend, hseen.trans hle, hrest⟩

theorem ProducerOk.of_le {p : Producer} (h : ProducerOk ring wend published p) {published' : Nat}
    (hle : published ≤ published') : ProducerOk ring wend published' p := by
  cases p with
  | filling batch i half wpos =>
    obtain ⟨hwpos, hi, hfit, hrest⟩ := h
    exact ⟨hwpos, hi, by omega, hrest⟩
  | idle => trivial
  | checked samples => trivial
  | loaded samples wpos => exact h
  | counting => trivial
  | counted wpos => exact h

theorem TransferInv.moveProducer (h : TransferInv base published id s) (p : Producer)
    (hp : ProducerOk s.ring (writeEnd base s) published p)
    (hflight : inFlight p = inFlight s.producer) (reported : List Int) :
    TransferInv base published id { s with producer := p, reported := reported } :=
  { h with producer := hp, calls_eq := h.calls_eq.trans (by rw [hflight]) }

variable {wpos : U32} {batch : List Frame}

section

variable (h : TransferInv base published id s)
include h

theorem TransferInv.loadRead {samples : List Frame} (hp : s.producer = .loaded samples wpos) :
    TransferInv base published id { s with
      producer := .filling (samples.take (freeFrames wpos s.readPos).toNat) 0 false wpos
      calls := s.calls ++ [⟨samples, wpos, s.readPos, samples.take (freeFrames wpos s.readPos).toNat⟩] } := by
  have hwpos : wpos = BitVec.ofNat 32 (writeEnd base s) := by
    have hok := h.producer
    rwa [hp] at hok
  have hdist : (wpos - s.readPos).toNat = writeEnd base s - published := by
    rw [hwpos, ← h.writePos_eq]
    exact h.fill_eq
  have hwrite := h.write_le
  have hle : (wpos - s.readPos).toNat ≤ ringFrames := by omega
  have hfree := freeFrames_toNat hle
  refine { h with producer := ?_, callback := h.callback, calls := ?_, calls_eq := ?_ }
  · refine ⟨hwpos, zero_le _, ?_, Holds.empty, fun hhalf => absurd hhalf Bool.false_ne_true⟩
    have htake := length_take_le (freeFrames wpos s.readPos).toNat samples
    change writeEnd base s + _ ≤ _
    omega
  · intro call hcall
    rcases mem_append.mp hcall with hold | hnew
    · exact h.calls call hold
    · rw [mem_singleton] at hnew
      rw [hnew, hfree]
      exact ⟨hle, rfl⟩
  · have hcalls := h.calls_eq
    rw [hp] at hcalls
    simp only [inFlight, append_nil] at hcalls
    simp only [flatMap_append, hcalls, flatMap_singleton, inFlight]

theorem TransferInv.store {i : Nat} {half : Bool}
    (hp : s.producer = .filling batch i half wpos) (hframe : batch[i]? = some frame) :
    TransferInv base published id (storeSample s batch i half wpos frame) := by
  have hok := h.producer
  rw [hp] at hok
  obtain ⟨hwpos, hi, hfit, hfilled, hhalf⟩ := hok
  have hlt : i < batch.length := (List.getElem?_eq_some_iff.mp hframe).1
  have hidx : slotOf ringBits wpos = (writeEnd base s + i) % ringFrames := by
    rw [hwpos, slotOf_position]
  have hpub := h.published_le
  have hrw := h.read_le
  -- the sample lands behind everything that is still to be read or published
  have hslots : ∀ v, Holds ringFrames
      (update s.ring ((writeEnd base s + i) % ringFrames) v) s.accepted base
      (readEnd base s) (writeEnd base s) :=
    fun v => h.slots.update (by omega) (by omega)
  have hbatch : ∀ v, Holds ringFrames
      (update s.ring ((writeEnd base s + i) % ringFrames) v) batch (writeEnd base s)
      (writeEnd base s) (writeEnd base s + i) :=
    fun v => hfilled.update le_rfl (by omega)
  have hcallback : ∀ v, CallbackOk
      (update s.ring ((writeEnd base s + i) % ringFrames) v) (readEnd base s)
      (writeEnd base s) published (s.callback id) :=
    fun v => h.callback.update (by omega) (by omega)
  have hcalls : s.calls.flatMap QueueCall.batch = s.accepted ++ batch := by
    rw [h.calls_eq, hp]
    rfl
  cases half with simp only [storeSample, hidx]
  | false =>
    refine { h with
      slots := hslots _, producer := ?_, callback := hcallback _, calls_eq := hcalls }
    refine ⟨hwpos, hi, hfit, hbatch _, fun _ => ?_⟩
    change _ = some (update s.ring ((writeEnd base s + i) % ringFrames) _
      ((writeEnd base s + i) % ringFrames)).1
    rw [update_self, hframe]
    rfl
  | true =>
    refine { h with
      slots := hslots _, producer := ?_, callback := hcallback _, calls_eq := hcalls }
    refine ⟨?_, hlt, hfit, (hbatch _).extend ?_, fun hfalse => absurd hfalse Bool.false_ne_true⟩
    · rw [hwpos, cursor_succ]
      rfl
    · have hfirst := hhalf rfl
      rw [hframe, Option.map_some, Option.some_inj] at hfirst
      rw [update_self, Nat.add_sub_cancel_left, hframe, ← hfirst]

theorem TransferInv.publish (hp : s.producer = .filling batch batch.length false wpos) : TransferInv base published id
      { s with writePos := wpos, producer := .idle, accepted := s.accepted ++ batch } := by
  have hok := h.producer
  rw [hp] at hok
  obtain ⟨hwpos, -, hfit, hfilled, -⟩ := hok
  have hread := h.read_le
  have hlen : s.played.length ≤ s.accepted.length := by
    rw [readEnd, writeEnd] at hread
    omega
  have hend : base + (s.accepted ++ batch).length = writeEnd base s + batch.length := by
    rw [length_append, writeEnd, add_assoc]
  refine { h with
    writePos_eq := ?_, read_le := ?_, write_le := ?_, played_eq := ?_, slots := ?_,
    producer := trivial, callback := ?_, calls_eq := ?_ }
  · rw [writeEnd, hend]
    exact hwpos
  · rw [writeEnd, hend]
    change readEnd base s ≤ _
    omega
  · rw [writeEnd, hend]
    exact hfit
  · rw [take_append_of_le_length hlen]
    exact h.played_eq
  · rw [writeEnd, hend]
    exact h.slots.append (le_add_right _ _) hfilled
  · rw [writeEnd, hend]
    exact h.callback.of_le (le_add_right _ _)
  · simp only [inFlight, append_nil]
    rw [h.calls_eq, hp]
    rfl

end

end Producer

section Callback

variable {left : Nat} {rpos available : U32}

section

variable (h : TransferInv base published id s)
include h

theorem TransferInv.moveCallback (c : Callback)
    (hc : CallbackOk s.ring (readEnd base s) (writeEnd base s) published c) :
    TransferInv base published id (s.setCallback id c) := by
  refine { h with callback := ?_ }
  change CallbackOk s.ring (readEnd base s) (writeEnd base s) published
    (update s.callback id c id)
  rwa [update_self]

theorem TransferInv.callbackEnter (hidle : s.callback id = .idle) (numFrames : Nat) :
    TransferInv base published id (s.setCallback id (.loaded numFrames s.readPos)) := by
  have hok := h.callback
  rw [hidle] at hok
  exact h.moveCallback _ ⟨hok, by rw [h.readPos_eq, ← hok]⟩

theorem TransferInv.callbackLoadWrite (hc : s.callback id = .loaded left rpos) : TransferInv base published id
      (s.setCallback id (.draining left rpos (s.writePos - rpos) none)) := by
  have hok := h.callback
  rw [hc] at hok
  obtain ⟨hrend, hrpos⟩ := hok
  have hwrite := h.write_le
  have hdist := position_distance h.read_le (by omega)
  refine h.moveCallback _ ⟨hrpos, writeEnd base s, h.read_le, le_rfl, ?_, fun first hf => nomatch hf⟩
  rw [h.writePos_eq, hrpos, ← hdist, ofNat_toNat, setWidth_eq]

theorem TransferInv.loadFirst (hc : s.callback id = .draining (left + 1) rpos available none) :
    TransferInv base published id (loadFirst s id left rpos available) := by
  have hok := h.callback
  rw [hc] at hok
  obtain ⟨hrpos, seen, hle, hseen, havail, -⟩ := hok
  rw [Android.loadFirst]
  split
  next hpos =>
    refine h.moveCallback _ ⟨hrpos, seen, hle, hseen, havail, fun first hfirst => ⟨?_, ?_⟩⟩
    · rw [havail, toNat_ofNat] at hpos
      have := mod_le (seen - readEnd base s) (2 ^ 32)
      omega
    · rw [hrpos, slotOf_position] at hfirst
      exact Option.some_inj.mp hfirst
  next => exact h.moveCallback _ ⟨hrpos, seen, hle, hseen, havail, fun first hf => nomatch hf⟩

theorem TransferInv.loadSecond {first : Int16} (hc : s.callback id = .draining (left + 1) rpos available (some first)) :
    TransferInv base published id (loadSecond s id left rpos available first) := by
  have hok := h.callback
  rw [hc] at hok
  obtain ⟨hrpos, seen, hle, hseen, havail, hhalf⟩ := hok
  obtain ⟨hlt, hval⟩ := hhalf first rfl
  -- the two halves are the two samples of the oldest frame that was not played
  have hslot := h.slots _ le_rfl (hlt.trans_le hseen)
  have hframe : (first, (s.ring (slotOf ringBits rpos)).2) = s.ring (readEnd base s % ringFrames) := by
    rw [hrpos, slotOf_position, ← hval]
  rw [readEnd, Nat.add_sub_cancel_left, ← readEnd] at hslot
  have hend : readEnd base (Android.loadSecond s id left rpos available first) = readEnd base s + 1 := by
    simp only [readEnd, Android.loadSecond, length_append, length_singleton, add_assoc]
  have hpub := h.published_le
  refine { h with
    published_le := ?_, read_le := ?_, played_eq := ?_, slots := ?_, callback := ?_ }
  · rw [hend]
    omega
  · rw [hend]
    exact hlt.trans_le hseen
  · simp only [Android.loadSecond, hframe]
    change s.played ++ _ = s.accepted.take (s.played ++ [_]).length
    rw [length_append, length_singleton, take_add_one, hslot, ← h.played_eq]
    rfl
  · rw [hend]
    exact h.slots.of_le (le_succ _)
  · rw [hend]
    change CallbackOk s.ring _ (writeEnd base s) published (update s.callback id _ id)
    rw [update_self]
    refine ⟨by rw [hrpos, cursor_succ], seen, hlt, hseen, ?_, fun first hf => nomatch hf⟩
    have hsplit : seen - readEnd base s = seen - (readEnd base s + 1) + 1 := by omega
    rw [havail, hsplit, ← cursor_succ, add_sub_cancel_right]

theorem TransferInv.callbackPublish (hc : s.callback id = .draining 0 rpos available none) :
    TransferInv base (readEnd base s) id { s.setCallback id .idle with readPos := rpos } := by
  have hok := h.callback
  rw [hc] at hok
  have hpub := h.published_le
  have hwrite := h.write_le
  have hp := h.producer
  refine { h with
    readPos_eq := hok.1, published_le := le_rfl, write_le := ?_, producer := ?_, callback := ?_ }
  · change writeEnd base s ≤ readEnd base s + ringFrames
    omega
  · exact hp.of_le hpub
  · change CallbackOk s.ring (readEnd base s) _ _ (update s.callback id .idle id)
    rw [update_self]
    exact rfl

end

end Callback

section

variable (h : TransferInv base published id s)
include h

theorem TransferInv.queueStep {e : QueueEvent}
    (hstep : xemuAndroidAudioQueue s e = some s') : TransferInv base published id s' := by
  cases e with simp only [xemuAndroidAudioQueue] at hstep
  | enter samples =>
    split at hstep
    next hp =>
      split_ifs at hstep <;> cases hstep
      · exact h
      · exact h.moveProducer (.checked samples) trivial (by rw [hp]; rfl) s.reported
      · exact h
    next => cases hstep
  | loadWrite =>
    split at hstep <;> cases hstep
    next samples hp => exact h.moveProducer (.loaded samples s.writePos) h.writePos_eq (by rw [hp]; rfl) s.reported
  | loadRead =>
    split at hstep <;> cases hstep
    next samples wpos hp => exact h.loadRead hp
  | store =>
    split at hstep
    next batch i half wpos hp =>
      obtain ⟨frame, hframe, rfl⟩ := Option.map_eq_some_iff.mp hstep
      exact h.store hp hframe
    next => cases hstep
  | publish =>
    split at hstep
    next batch i wpos hp =>
      split_ifs at hstep with hi
      subst hi
      cases hstep
      exact h.publish hp
    next => cases hstep

theorem TransferInv.bytesStep {e : BytesEvent}
    (hstep : xemuAndroidAudioQueuedBytes s e = some s') : TransferInv base published id s' := by
  cases e with simp only [xemuAndroidAudioQueuedBytes] at hstep
  | enter =>
    split at hstep
    next hp =>
      split_ifs at hstep <;> cases hstep
      · exact h.moveProducer .counting trivial (by rw [hp]; rfl) s.reported
      · exact h.moveProducer s.producer h.producer rfl (s.reported ++ [-1])
    next => cases hstep
  | loadWrite =>
    split at hstep <;> cases hstep
    next hp => exact h.moveProducer (.counted s.writePos) h.writePos_eq (by rw [hp]; rfl) s.reported
  | loadRead =>
    split at hstep <;> cases hstep
    next wpos hp => exact h.moveProducer .idle trivial (by rw [hp]; rfl) _

theorem TransferInv.callbackStep {e : CallbackEvent} (hstep : xemuAndroidAudioDataCallback s id e = some s') :
    ∃ published', TransferInv base published' id s' := by
  cases e with simp only [xemuAndroidAudioDataCallback] at hstep
  | enter numFrames =>
    split_ifs at hstep with hidle
    cases hstep
    exact ⟨published, h.callbackEnter hidle.2 numFrames⟩
  | loadWrite =>
    split at hstep <;> cases hstep
    next left rpos hc => exact ⟨published, h.callbackLoadWrite hc⟩
  | load =>
    split at hstep <;> cases hstep
    next left rpos available hc => exact ⟨published, h.loadFirst hc⟩
    next left rpos available first hc => exact ⟨published, h.loadSecond hc⟩
  | publish =>
    split at hstep <;> cases hstep
    next rpos available hc => exact ⟨_, h.callbackPublish hc⟩

theorem TransferInv.step {e : AudioEvent} (he : IsTransfer id e) (hstep : audioStep s e = some s') :
    ∃ published', TransferInv base published' id s' := by
  cases e with
  | queue e => exact ⟨published, h.queueStep hstep⟩
  | bytes e => exact ⟨published, h.bytesStep hstep⟩
  | callback id' e =>
    obtain rfl : id' = id := he
    exact h.callbackStep hstep
  | caller t e => exact False.elim he

end

/-- Nothing is queued, played or under way. -/
structure AtRest (id : Nat) (s : Audio) : Prop where
  cursors : s.readPos = s.writePos
  producer : s.producer = .idle
  callback : s.callback id = .idle
  accepted : s.accepted = []
  played : s.played = []
  calls : s.calls = []

theorem AtRest.transferInv (h : AtRest id s) : TransferInv s.readPos.toNat s.readPos.toNat id s := by
  have hw : writeEnd s.readPos.toNat s = s.readPos.toNat := by
    rw [writeEnd, h.accepted]
    rfl
  have hr : readEnd s.readPos.toNat s = s.readPos.toNat := by
    rw [readEnd, h.played]
    rfl
  have hcursor : s.readPos = BitVec.ofNat 32 s.readPos.toNat := by
    rw [ofNat_toNat, setWidth_eq]
  constructor
  · rw [hw, ← h.cursors]
    exact hcursor
  · exact hcursor
  · exact hr.ge
  · rw [hr, hw]
  · rw [hw]
    exact le_add_right _ _
  · rw [h.played]
    rfl
  · rw [hr, hw]
    exact Holds.empty
  · rw [h.producer]
    trivial
  · rw [h.callback]
    exact hr
  · rw [h.calls]
    exact fun call hcall => absurd hcall not_mem_nil
  · rw [h.calls, h.accepted, h.producer]
    rfl

theorem TransferInv.run {events : List AudioEvent} (h : TransferInv base published id s)
    (hevents : ∀ e ∈ events, IsTransfer id e) (hrun : run audioStep s events = some s') :
    ∃ published', TransferInv base published' id s' := by
  refine run_invariant_of_meets (fun m => ∃ published', TransferInv base published' id m) ?_
    ⟨published, h⟩ (meets_of_forall s hevents) hrun
  rintro m e m' ⟨published, hm⟩ he hstep
  exact hm.step he hstep

/-- While only the producer and one callback run, from equal cursors: the cursors never show more
than a full ring, the frames played are the accepted ones in their order, those not yet played wait
in their slots, and every queue call accepts the longest prefix that fits the free space it saw. -/
theorem audioRing_transfers_accepted {t : Audio} {events : List AudioEvent} (hstart : AtRest id s)
    (hevents : ∀ e ∈ events, IsTransfer id e) (hrun : run audioStep s events = some t) :
    fill t ≤ ringFrames ∧
      (∃ waiting, t.accepted = t.played ++ waiting ∧
        (∀ k < waiting.length, waiting[k]? = some (t.ring (slotOf ringBits
          (s.readPos + BitVec.ofNat 32 (t.played.length + k))))) ∧
        (t.callback id = .idle → waiting.length = fill t)) ∧
      (∀ call ∈ t.calls, TookWhatFits call) ∧
      t.calls.flatMap QueueCall.batch = t.accepted ++ inFlight t.producer := by
  obtain ⟨published, h⟩ := hstart.transferInv.run hevents hrun
  refine ⟨h.fill_le, ⟨t.accepted.drop t.played.length, ?_, ?_, ?_⟩, h.calls, h.calls_eq⟩
  · have hsplit := (take_append_drop t.played.length t.accepted).symm
    rwa [← h.played_eq] at hsplit
  · intro k hk
    rw [length_drop] at hk
    have hslot := h.slots (readEnd s.readPos.toNat t + k) (le_add_right _ _)
      (by rw [writeEnd, readEnd]; omega)
    have hcursor : s.readPos + BitVec.ofNat 32 (t.played.length + k) =
        BitVec.ofNat 32 (readEnd s.readPos.toNat t + k) := by
      rw [readEnd, add_assoc, ofNat_add _ (_ + _), ofNat_toNat,
        setWidth_eq]
    rw [hcursor, slotOf_position, ← hslot, getElem?_drop, readEnd, add_assoc,
      Nat.add_sub_cancel_left]
  · intro hidle
    have hrend := h.callback
    rw [hidle] at hrend
    rw [h.fill_eq, ← show _ = published from hrend, length_drop, writeEnd, readEnd]
    omega

def wrapStart : Audio where
  ring := fun _ => (0, 0)
  readPos := 0xFFFFFFFF
  writePos := 0xFFFFFFFF
  audioStream := some 0
  audioLock := none
  device := fun _ => .started
  producer := .idle
  callback := fun _ => .idle
  caller := fun _ => .idle
  accepted := []
  played := []
  calls := []
  reported := []

def wrapEvents : List AudioEvent :=
  [.queue (.enter [(1, 2), (3, 4)]), .queue .loadWrite, .queue .loadRead, .queue .store,
    .queue .store, .queue .store, .queue .store, .queue .publish, .callback 0 (.enter 1),
    .callback 0 .loadWrite, .callback 0 .load, .callback 0 .load, .callback 0 .publish]

theorem audioRing_transfers_across_wrap :
    ∃ t, run audioStep wrapStart wrapEvents = some t ∧ t.played = [(1, 2)] ∧ t.writePos = 1 ∧
      fill t ≤ ringFrames ∧ ∃ waiting, t.accepted = t.played ++ waiting := by
  refine ⟨_, rfl, rfl, rfl, ?_⟩
  have h := @audioRing_transfers_accepted 0 wrapStart _ wrapEvents
    ⟨rfl, rfl, rfl, rfl, rfl, rfl⟩ (by simp [wrapEvents, IsTransfer]) rfl
  exact ⟨h.1, h.2.1.imp fun _ hw => hw.1⟩

end XogMobile.Android
