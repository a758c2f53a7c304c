import XogMobile.Lib.Bytes
import XogMobile.Lib.Run

/-!
# The emulated gamepad's report structures

The reports of the gamepad lie one behind the other in its state: the input report, its capabilities,
the output report, its capabilities. They are kept here as one piece of memory, so that a copy that is
too long is seen in what lies behind. The input and output reports hold their own length in their
second byte, which the handlers use as the length of copies. An interrupt OUT packet overwrites the
output report with what the guest sent, the length included.
-/

namespace XogMobile.Xid

open Lib List Option

structure Region where
  (start size : Nat)
  deriving DecidableEq

def inState : Region := { start := 0, size := 20 }
def inStateCapabilities : Region := { start := 20, size := 20 }
def outState : Region := { start := 40, size := 6 }
def outStateCapabilities : Region := { start := 46, size := 6 }

structure Copy where
  region : Region
  size : Nat
  deriving DecidableEq

structure ControllerState where
  buttons : BitVec 16
  axis : Fin 6 → BitVec 16

structure Host where
  testMode : Bool
  bound : Option ControllerState

structure State where
  memory : Nat → Byte
  /-- `bSubType` of the XID descriptor. -/
  subType : Byte
  rumble : BitVec 16 × BitVec 16
  copies : List Copy

structure Reply where
  stall : Bool
  actualLength : Nat
  data : List Byte

def stalled : Reply := { stall := true, actualLength := 0, data := [] }

namespace State

variable (s : State)

def lengthOf (r : Region) : Nat := (s.memory (r.start + 1)).toNat

def logged (r : Region) (size : Nat) : State :=
  { s with copies := s.copies ++ [{ region := r, size }] }

def copyOut (r : Region) (size : Nat) : List Byte × State :=
  (readBytes s.memory r.start size, s.logged r size)

def copyIn (r : Region) (bytes : List Byte) : State :=
  { s.logged r bytes.length with memory := writeBytes s.memory r.start bytes }

def word16 (addr : Nat) : BitVec 16 := BitVec.ofNat 16 (leNat (readBytes s.memory addr 2))

/-- Bits of the host's buttons, in the order of `GAMEPAD_A` to `GAMEPAD_WHITE`. -/
def buttonMapAnalog : List Nat := [0, 1, 2, 3, 11, 10]

/-- Pairs of the bit in `wButtons` and the bit of the host's button. -/
def buttonMapBinary : List (Nat × Nat) :=
  [(5, 8), (4, 9), (6, 12), (7, 13), (0, 5), (1, 7), (2, 4), (3, 6)]

def inputBytes (c : ControllerState) : List Byte :=
  let analog := buttonMapAnalog.map fun bit => if c.buttons.getLsbD bit then 0xFF else 0
  let wButtons := buttonMapBinary.foldl
    (fun w (bit, host) => if c.buttons.getLsbD host then w ||| (1 <<< bit) else w) 0
  let trigger (i : Fin 6) : Byte := ((c.axis i).sshiftRight 7).setWidth 8
  leBytes 2 wButtons ++ analog ++ [trigger 0, trigger 1] ++
    [2, 3, 4, 5].flatMap fun i : Fin 6 => leBytes 2 (c.axis i).toNat

def updateInput (host : Host) : Option State :=
  if host.testMode then some s
  else host.bound.map fun c =>
    { s with memory := writeBytes s.memory (inState.start + 2) (inputBytes c) }

def updateOutput (host : Host) : Option State :=
  if host.testMode then some s
  else host.bound.map fun _ =>
    { s with rumble := (s.word16 (outState.start + 2), s.word16 (outState.start + 4)) }

/-- `desc_xid_xbox_gamepad` and `desc_xid_xbox_gamepad_s`. -/
def xidDesc : List Byte := [0x10, 0x42, 0x00, 0x01, 0x01, s.subType, 20, 6] ++ List.replicate 8 0xFF

end State

inductive Pid
  | tokenSetup
  | tokenIn
  | tokenOut

namespace State

/-- `usb_xid_gamepad_handle_data` for a packet with room for the bytes, or with the bytes. -/
def handleData (s : State) (host : Host) (pid : Pid) (ep : Nat) (packet : List Byte) :
    Option (Reply × State) :=
  match pid with
  | .tokenIn =>
    if ep = 2 then
      (s.updateInput host).bind fun s =>
        let length := s.lengthOf inState
        if length ≤ packet.length then
          let (data, s) := s.copyOut inState length
          some ({ stall := false, actualLength := length, data }, s)
        else none
    else none
  | .tokenOut =>
    if ep = 2 then
      let length := s.lengthOf outState
      if length ≤ packet.length then
        ((s.copyIn outState (packet.take length)).updateOutput host).map fun s =>
          ({ stall := false, actualLength := length, data := [] }, s)
      else none
    else none
  | .tokenSetup => none

def getReport (s : State) (host : Host) (value length : Nat) : Option (Reply × State) :=
  (s.updateInput host).bind fun s =>
    if value = 0x0100 then
      if length ≤ s.lengthOf inState then
        let (data, s) := s.copyOut inState (s.lengthOf inState)
        some ({ stall := false, actualLength := length, data }, s)
      else some (stalled, s)
    else none

/-- `HID_SET_REPORT`; the data buffer holds what the guest sent. -/
def setReport (s : State) (host : Host) (value length : Nat) (data : Nat → Byte) :
    Option (Reply × State) :=
  if value = 0x0200 then
    if length = s.lengthOf outState then
      let s := s.copyIn outState (readBytes data 0 outState.size)
      if s.lengthOf outState = outState.size then
        (s.updateOutput host).map fun s => ({ stall := false, actualLength := length, data := [] }, s)
      else none
    else (s.updateOutput host).map fun s => (stalled, s)
  else none

def getCapabilities (s : State) (value length : Nat) : Option (Reply × State) :=
  if value = 0x0100 then
    let length := min length (s.lengthOf inStateCapabilities)
    let (data, s) := s.copyOut inStateCapabilities length
    some ({ stall := false, actualLength := length, data }, s)
  else if value = 0x0200 then
    let length := min length (s.lengthOf outStateCapabilities)
    let (data, s) := s.copyOut outStateCapabilities length
    some ({ stall := false, actualLength := length, data }, s)
  else none

/-- `usb_xid_handle_control` for a request that `usb_desc_handle_control` does not handle. -/
def handleControl (s : State) (host : Host) (request value length : Nat) (data : Nat → Byte) :
    Option (Reply × State) :=
  if request = 0xA101 then s.getReport host value length
  else if request = 0x2109 then s.setReport host value length data
  else if request = 0xC106 then
    if value = 0x4200 ∧ s.xidDesc.length ≤ length then
      some ({ stall := false, actualLength := s.xidDesc.length, data := s.xidDesc }, s)
    else none
  else if request = 0xC101 then s.getCapabilities value length
  else if request = 0xA006 ∨ request = 0x0201 then some (stalled, s)
  else none

end State

inductive Event
  | standard
  | control (host : Host) (request value length : Nat) (data : Nat → Byte)
  | data (host : Host) (pid : Pid) (ep : Nat) (packet : List Byte)

def step (s : State) : Event → Option State
  | .standard => some s
  | .control host request value length data =>
    (s.handleControl host request value length data).map Prod.snd
  | .data host pid ep packet => (s.handleData host pid ep packet).map Prod.snd

/-- The memory of the reports after `usb_xbox_gamepad_realize`. -/
def realized (a : Nat) : Byte :=
  if a = inState.start + 1 then 20
  else if a = outState.start + 1 then 6
  else if a = inStateCapabilities.start ∨ a = outStateCapabilities.start then 0
  else if a = inStateCapabilities.start + 1 then 20
  else if a = outStateCapabilities.start + 1 then 6
  else if inStateCapabilities.start ≤ a ∧ a < outState.start then 0xFF
  else if outStateCapabilities.start ≤ a ∧ a < outStateCapabilities.start + 6 then 0xFF
  else 0

def init (subType : Byte) : State where
  memory := realized
  subType := subType
  rumble := (0, 0)
  copies := []

/-! ## Copies stay inside -/

/-- A copy that stays inside its structure; one of a report itself copies all of it. -/
def Copy.Inside (c : Copy) : Prop :=
  c.size ≤ c.region.size ∧ (c.region = inState ∨ c.region = outState → c.size = c.region.size)

/-- Lengths are those of the reports, and copies are inside them. -/
structure Inv (s : State) : Prop where
  lengthIn : s.lengthOf inState = inState.size
  lengthInCapabilities : s.lengthOf inStateCapabilities = inStateCapabilities.size
  lengthOut : s.lengthOf outState = outState.size
  lengthOutCapabilities : s.lengthOf outStateCapabilities = outStateCapabilities.size
  copies : ∀ c ∈ s.copies, c.Inside

section

variable {s s' : State} {host : Host} {reply : Reply}

theorem Inv.logged (hinv : Inv s) {r : Region} {size : Nat}
    (hinside : Copy.Inside { region := r, size }) : Inv (s.logged r size) := by
  refine { hinv with copies := fun c hc => ?_ }
  rcases mem_append.mp hc with hc | hc
  · exact hinv.copies c hc
  · rw [mem_singleton.mp hc]
    exact hinside

theorem Inv.copyIn (hinv : Inv s) {bytes : List Byte} (hsize : bytes.length = outState.size)
    (hlength : bytes[1]? = some 6) : Inv (s.copyIn outState bytes) := by
  have hsize' : bytes.length = 6 := hsize
  have hlog : Inv (s.logged outState bytes.length) := hinv.logged ⟨Nat.le_of_eq hsize, fun _ => hsize⟩
  have hbelow : ∀ x, x < 40 → writeBytes s.memory outState.start bytes x = s.memory x := by
    intro x hx
    exact writeBytes_of_lt hx
  have habove : ∀ x, 46 ≤ x → writeBytes s.memory outState.start bytes x = s.memory x := by
    intro x hx
    apply writeBytes_of_ge
    show 40 + bytes.length ≤ x
    omega
  refine ⟨?_, ?_, ?_, ?_, hlog.copies⟩
  · exact (congrArg BitVec.toNat (hbelow 1 (by decide))).trans hinv.lengthIn
  · exact (congrArg BitVec.toNat (hbelow 21 (by decide))).trans hinv.lengthInCapabilities
  · show (writeBytes s.memory 40 bytes 41).toNat = 6
    rw [writeBytes, hlength]
    rfl
  · exact (congrArg BitVec.toNat (habove 47 (by decide))).trans hinv.lengthOutCapabilities

theorem Inv.updateInput (hinv : Inv s) (h : s.updateInput host = some s') : Inv s' := by
  unfold State.updateInput at h
  split at h
  · cases h
    exact hinv
  · obtain ⟨c, _, rfl⟩ := map_eq_some_iff.mp h
    have hbelow : ∀ x, x < 2 → writeBytes s.memory 2 (State.inputBytes c) x = s.memory x :=
      fun x hx => writeBytes_of_lt hx
    have habove : ∀ x, 20 ≤ x → writeBytes s.memory 2 (State.inputBytes c) x = s.memory x := by
      intro x hx
      apply writeBytes_of_ge
      exact hx
    refine ⟨?_, ?_, ?_, ?_, hinv.copies⟩
    · exact (congrArg BitVec.toNat (hbelow 1 (by decide))).trans hinv.lengthIn
    · exact (congrArg BitVec.toNat (habove 21 (by decide))).trans hinv.lengthInCapabilities
    · exact (congrArg BitVec.toNat (habove 41 (by decide))).trans hinv.lengthOut
    · exact (congrArg BitVec.toNat (habove 47 (by decide))).trans hinv.lengthOutCapabilities

theorem Inv.updateOutput (hinv : Inv s) (h : s.updateOutput host = some s') : Inv s' := by
  unfold State.updateOutput at h
  split at h
  · cases h
    exact hinv
  · obtain ⟨c, _, rfl⟩ := map_eq_some_iff.mp h
    exact { hinv with }

/-- An OUT packet to the gamepad keeps the length that the output report has. -/
def KeepsLength : Event → Prop
  | .data _ .tokenOut _ packet => packet[1]? = some 6
  | _ => True

instance : (e : Event) → Decidable (KeepsLength e)
  | .data _ .tokenOut _ packet => inferInstanceAs (Decidable (packet[1]? = some 6))
  | .data _ .tokenIn _ _ | .data _ .tokenSetup _ _ | .standard | .control .. => isTrue trivial

theorem Inv.handleData (hinv : Inv s) {pid : Pid} {ep : Nat} {packet : List Byte}
    (hkeeps : KeepsLength (.data host pid ep packet))
    (h : s.handleData host pid ep packet = some (reply, s')) : Inv s' := by
  cases pid with simp only [State.handleData] at h
  | tokenSetup => cases h
  | tokenIn =>
    split at h
    · obtain ⟨m, hm, hcopy⟩ := bind_eq_some_iff.mp h
      have hminv := hinv.updateInput hm
      split at hcopy
      · cases hcopy
        exact hminv.logged ⟨Nat.le_of_eq hminv.lengthIn, fun _ => hminv.lengthIn⟩
      · cases hcopy
    · cases h
  | tokenOut =>
    split at h
    · split at h
      · next hroom =>
        obtain ⟨m, hupdate, heq⟩ := map_eq_some_iff.mp h
        cases heq
        have hroom' : outState.size ≤ packet.length := by
          rw [← hinv.lengthOut]
          exact hroom
        have hsix : 6 ≤ packet.length := hroom'
        apply Inv.updateOutput _ hupdate
        rw [hinv.lengthOut]
        apply hinv.copyIn
        · rw [length_take]
          omega
        · rw [getElem?_take_of_lt (by decide)]
          exact hkeeps
      · cases h
    · cases h

variable {value length : Nat} {data : Nat → Byte}

theorem Inv.getReport (hinv : Inv s) (h : s.getReport host value length = some (reply, s')) : Inv s' := by
  obtain ⟨m, hm, hcopy⟩ := bind_eq_some_iff.mp h
  have hminv := hinv.updateInput hm
  split at hcopy
  · split at hcopy
    · cases hcopy
      exact hminv.logged ⟨Nat.le_of_eq hminv.lengthIn, fun _ => hminv.lengthIn⟩
    · cases hcopy
      exact hminv
  · cases hcopy

theorem Inv.setReport (hinv : Inv s) (h : s.setReport host value length data = some (reply, s')) : Inv s' := by
  unfold State.setReport at h
  split at h
  · split at h
    · dsimp only at h
      split at h
      · next hlength =>
        obtain ⟨m, hupdate, heq⟩ := map_eq_some_iff.mp h
        cases heq
        apply Inv.updateOutput _ hupdate
        have hbyte : (writeBytes s.memory 40 (readBytes data 0 6) 41).toNat = 6 := hlength
        apply hinv.copyIn length_readBytes
        show (readBytes data 0 6)[1]? = some 6
        have hget : (readBytes data 0 6)[1]? = some (data 1) := rfl
        exact congrArg some (BitVec.eq_of_toNat_eq hbyte)
      · cases h
    · obtain ⟨m, hupdate, heq⟩ := map_eq_some_iff.mp h
      cases heq
      exact hinv.updateOutput hupdate
  · cases h

theorem Inv.getCapabilities (hinv : Inv s) (h : s.getCapabilities value length = some (reply, s')) : Inv s' := by
  unfold State.getCapabilities at h
  split at h
  · cases h
    apply hinv.logged
    refine ⟨?_, fun h => absurd h (show ¬(inStateCapabilities = inState ∨ inStateCapabilities = outState) by
      decide)⟩
    rw [hinv.lengthInCapabilities]
    exact Nat.min_le_right ..
  · split at h
    · cases h
      apply hinv.logged
      refine ⟨?_, fun h => absurd h
        (show ¬(outStateCapabilities = inState ∨ outStateCapabilities = outState) by decide)⟩
      rw [hinv.lengthOutCapabilities]
      exact Nat.min_le_right ..
    · cases h

theorem Inv.handleControl (hinv : Inv s) {request : Nat}
    (h : s.handleControl host request value length data = some (reply, s')) : Inv s' := by
  unfold State.handleControl at h
  split at h
  · exact hinv.getReport h
  split at h
  · exact hinv.setReport h
  split at h
  · split at h
    · cases h
      exact hinv
    · cases h
  split at h
  · exact hinv.getCapabilities h
  split at h
  · cases h
    exact hinv
  · cases h

end

theorem step_inv (s : State) (e : Event) (s' : State) (hinv : Inv s) (hkeeps : KeepsLength e)
    (h : step s e = some s') : Inv s' := by
  cases e with
  | standard =>
    cases h
    exact hinv
  | control host request value length data =>
    obtain ⟨⟨reply, m⟩, hcontrol, rfl⟩ := map_eq_some_iff.mp h
    exact hinv.handleControl hcontrol
  | data host pid ep packet =>
    obtain ⟨⟨reply, m⟩, hdata, rfl⟩ := map_eq_some_iff.mp h
    exact hinv.handleData hkeeps hdata

theorem inv_init (subType : Byte) : Inv (init subType) := ⟨rfl, rfl, rfl, rfl, nofun⟩

/-- In every sequence of requests in which the OUT packets keep the length of the output report, the
reports hold their own sizes and every copy stays inside its structure. -/
theorem copies_stay_inside (subType : Byte) {es : List Event} {s : State}
    (hkeeps : Meets step (fun _ e => KeepsLength e) (init subType) es)
    (hrun : run step (init subType) es = some s) :
    s.lengthOf inState = inState.size ∧ s.lengthOf outState = outState.size ∧
      ∀ c ∈ s.copies, c.Inside := by
  have hinv := run_invariant_of_meets Inv step_inv (inv_init subType) hkeeps hrun
  exact ⟨hinv.lengthIn, hinv.lengthOut, hinv.copies⟩

def atRest : Host where
  testMode := false
  bound := some { buttons := 0, axis := fun _ => 0 }

theorem copies_stay_inside_reports :
    ∃ s, run step (init 0x01)
        [.data atRest .tokenIn 2 (List.replicate 32 0), .data atRest .tokenOut 2 [0, 6, 0, 0, 0, 0],
         .control atRest 0xA101 0x0100 20 (fun _ => 0), .control atRest 0x2109 0x0200 6 (fun _ => 6),
         .control atRest 0xC101 0x0200 4 (fun _ => 0)] = some s ∧
      s.copies.map Copy.size = [20, 6, 20, 6, 4] ∧ ∀ c ∈ s.copies, c.Inside := by
  refine exists_some_and (by decide +kernel) fun s hrun _ => ?_
  exact (copies_stay_inside _ (by decide +kernel) hrun).2.2

/-- An OUT packet that announces a length of 32 makes the next one write 32 bytes from the start of
the output report on, past its six bytes. -/
theorem copy_past_report :
    ∃ s, run step (init 0x01)
        [.data atRest .tokenOut 2 [0, 32, 0, 0, 0, 0], .data atRest .tokenOut 2 (List.replicate 32 0xAA)] =
          some s ∧
      s.copies = [{ region := outState, size := 6 }, { region := outState, size := 32 }] ∧
      s.memory (outState.start + 31) = 0xAA := by
  decide +kernel

end XogMobile.Xid
