import XogMobile.Nvnet.Machine
import XogMobile.Lib.View

/-!
# Snapshots of the network device

`vmstate_nvnet` holds the registers, the PHY's registers and the state of the PCI device. The frame
under assembly, the armed timer and the frames parked in front of the device are not stored, and the
state of the host link is taken from the PHY. A device in which nothing of this is pending, and whose PHY
tells the state of the link, is the same after a snapshot.
-/

namespace XogMobile.Nvnet

open Lib

/-- What can be seen of a step: the value read, the frames handed to the network and guest memory. -/
structure Seen where
  read : Option Word
  sent : List (List Byte)
  memory : Nat → Byte

def readValue (s : State) : Event → Option Word
  | .mmioRead addr size => if allowed addr size then some (s.getRegExt addr size) else none
  | _ => none

def seenStep (e : Event) (s : State) : Option (Seen × State) :=
  (step s e).map fun s' => ({ read := readValue s e, sent := s'.sent, memory := s'.memory }, s')

namespace State

/-- No frame is under assembly or parked. While the PHY negotiates the link is up and the timer has just
been started; otherwise no timer is armed, and the PHY tells whether the link is down. -/
@[mk_iff] structure Settled (s : State) : Prop where
  assembled : s.txDmaBuf = []
  queue : s.queue = []
  enabled : s.receiveDisabled = false
  started : s.negotiating = true → s.linkDown = false ∧ s.autonegTimer = some (s.clock + autonegDurationMs)
  idle : s.negotiating = false →
    s.linkDown = (s.phyRegs miiBmsr &&& miiBmsrLinkSt == 0) ∧ s.autonegTimer = none

theorem Settled.load_save {s : State} (h : s.Settled) : s.load s.save = s := by
  have hsame {linkDown : Bool} {autonegTimer : Option Nat} (hlink : s.linkDown = linkDown)
      (htimer : s.autonegTimer = autonegTimer) :
      { s with txDmaBuf := [], queue := [], receiveDisabled := false, linkDown, autonegTimer } = s := by
    subst hlink htimer
    rw [← h.assembled, ← h.queue, ← h.enabled]
  unfold load nvnetPostLoad
  cases hneg : s.negotiating with
  | true => exact (if_pos hneg).trans (hsame (h.started hneg).1 (h.started hneg).2)
  | false => exact (if_neg (Bool.eq_false_iff.mp hneg)).trans (hsame (h.idle hneg).1 (h.idle hneg).2)

end State

/-- From every settled state of the device, the device goes on after a snapshot as it would have
without it, whatever follows. -/
theorem snapshot_unseen {s : State} (hsettled : s.Settled) (later : List Event) :
    observe seenStep later (s.load s.save) = observe seenStep later s := by
  rw [hsettled.load_save]

def transmitterOn : List Event :=
  [.mmioWrite Reg.txRingPhysAddr 0x1000 4, .mmioWrite Reg.ringSize 1 4,
   .mmioWrite Reg.transmitterControl transmitterControlStart 4,
   .mmioWrite Reg.txRxControl txRxControlReset 4]

def kickOne (addr : Nat) (flags : BitVec 16) : List Event :=
  [.store addr (RingDesc.bytes { bufferAddr := 0x2000, length := 0, flags := flags }),
   .mmioWrite Reg.txRxControl txRxControlKick 4]

instance (s : State) : Decidable s.Settled := decidable_of_iff _ (State.settled_iff s).symm

theorem snapshot_unseen_between_frames :
    ∃ s, run step (init fun _ => 0) (transmitterOn ++ kickOne 0x1000 (txValid ||| txLastpacket)) = some s ∧
      s.sent.length = 1 ∧ ∀ later, observe seenStep later (s.load s.save) = observe seenStep later s := by
  obtain ⟨s, hrun, hsent, hsettled⟩ : ∃ s, run step (init fun _ => 0)
      (transmitterOn ++ kickOne 0x1000 (txValid ||| txLastpacket)) = some s ∧
      s.sent.length = 1 ∧ s.Settled := by decide +kernel
  exact ⟨s, hrun, hsent, snapshot_unseen hsettled⟩

/-- A snapshot in the middle of a frame loses its beginning, and one with the host link down brings the
link up again. -/
theorem snapshot_seen :
    (∃ s, run step (init fun _ => 0) (transmitterOn ++ kickOne 0x1000 txValid) = some s ∧
      (run step s (kickOne 0x1008 (txValid ||| txLastpacket))).map (fun s' => s'.sent.map List.length) =
        some [2] ∧
      (run step (s.load s.save) (kickOne 0x1008 (txValid ||| txLastpacket))).map
        (fun s' => s'.sent.map List.length) = some [1]) ∧
    ∃ s, run step (init fun _ => 0) [.setLink false] = some s ∧
      (run step s [.elapse 250]).map State.linkUp = some false ∧
      (run step (s.load s.save) [.elapse 250]).map State.linkUp = some true := by
  decide +kernel

end XogMobile.Nvnet
