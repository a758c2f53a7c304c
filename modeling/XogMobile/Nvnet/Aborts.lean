import XogMobile.Nvnet.Receive
import Mathlib.Algebra.BigOperators.Group.Finset.Basic

/-!
# Descriptors too small for a frame, and frames too large for the transmit buffer

Neither is refused: an `assert` compares the lengths, and a guest that offers a short buffer or a long
chain of descriptors ends the emulator. The lengths are compared before a byte is copied.
-/

namespace XogMobile.Nvnet

open Lib List Nat

namespace State

/-- The next transmit descriptor handed back and passed; what its buffer holds is left alone. -/
def passTx (s : State) : State :=
  let cur := s.curDescAddr txRing
  (s.updateCurrentTxRingDescAddr.storeRingDesc cur
    (s.loadRingDesc cur).handback).advanceNextTxRingDescAddr

/-- The transmit descriptor behind the next `k` ones. -/
def txDesc (s : State) (k : Nat) : RingDesc :=
  (passTx^[k] s).loadRingDesc ((passTx^[k] s).curDescAddr txRing)

/-- Wherever the next descriptors up to one are valid and those before it are not the last of a frame,
their buffers fit behind the bytes that are already in `tx_dma_buf`. -/
def ChainFits (s : State) (used n : Nat) : Prop :=
  ∀ k < n, (∀ j ≤ k, (s.txDesc j).valid = true) → (∀ j < k, (s.txDesc j).last = false) →
    used + ∑ j ∈ Finset.range (k + 1), ((s.txDesc j).length + 1).toNat ≤ txAllocBufsize

/-- The frame is no longer than the buffer of the next receive descriptor. -/
def FrameFits (s : State) (p : Packet) : Prop :=
  p.data.length ≤ (s.loadRingDesc (s.curDescAddr rxRing)).length.toNat + 1

instance (s : State) (p : Packet) : Decidable (s.FrameFits p) := inferInstanceAs (Decidable (_ ≤ _))

theorem txDesc_of_semiconj {f : State → State} (hf : Function.Semiconj f passTx passTx)
    (hdesc : ∀ s, (f s).txDesc 0 = s.txDesc 0) (s : State) (k : Nat) : (f s).txDesc k = s.txDesc k := by
  unfold txDesc
  rw [← hf.iterate_right k s]
  exact hdesc _

theorem passTx_setDmaIdle (s : State) : s.passTx.setDmaIdle false = (s.setDmaIdle false).passTx := by
  have hregs : (s.passTx.setDmaIdle false).regs = (s.setDmaIdle false).passTx.regs := by
    funext a
    by_cases ha : a = Reg.txRxControl
    · subst ha
      rfl
    · refine (if_neg ha).trans (Eq.symm ?_)
      show ite _ _ (ite _ _ (ite _ _ _)) = _
      rw [if_neg ha]
      rfl
  exact congrArg (fun regs => { s.passTx with regs }) hregs

theorem chainFits_succ (s : State) (used n : Nat) : s.ChainFits used (n + 1) ↔ ((s.txDesc 0).valid = true →
      used + ((s.txDesc 0).length + 1).toNat ≤ txAllocBufsize ∧
      ((s.txDesc 0).last = false → s.passTx.ChainFits (used + ((s.txDesc 0).length + 1).toNat) n)) := by
  constructor
  · intro h hvalid
    refine ⟨?_, fun hlast k hk hvalids hlasts => ?_⟩
    · simpa using h 0 (succ_pos n) (fun j hj => le_zero.mp hj ▸ hvalid) nofun
    · have hsum := h (k + 1) (succ_lt_succ hk)
        (fun | 0, _ => hvalid | j + 1, hj => hvalids j (le_of_succ_le_succ hj))
        (fun | 0, _ => hlast | j + 1, hj => hlasts j (lt_of_succ_lt_succ hj))
      rw [Finset.sum_range_succ', add_comm _ (BitVec.toNat _), ← add_assoc] at hsum
      exact hsum
  · intro h k hk hvalids hlasts
    obtain ⟨hfirst, hrest⟩ := h (hvalids 0 (zero_le k))
    cases k with
    | zero => simpa using hfirst
    | succ k =>
      rw [Finset.sum_range_succ', add_comm _ (BitVec.toNat _), ← add_assoc]
      exact hrest (hlasts 0 (succ_pos k)) k (lt_of_succ_lt_succ hk)
        (fun j hj => hvalids (j + 1) (succ_le_succ hj))
        (fun j hj => hlasts (j + 1) (succ_lt_succ hj))

theorem length_fetch (s : State) (addr : Word) (length : BitVec 16) :
    (s.fetch addr length).txDmaBuf.length = s.txDmaBuf.length + length.toNat := by
  simp [fetch]

theorem isSome_dmaLoop (n : Nat) (s : State) : (dmaLoop n s).isSome ↔ s.ChainFits s.txDmaBuf.length n := by
  induction n generalizing s with
  | zero => exact ⟨fun _ _ hk => absurd hk (not_lt_zero _), fun _ => rfl⟩
  | succ n ih =>
    have hcur : s.updateCurrentTxRingDescAddr.getReg Reg.txRingCurrentDescPhysAddr = s.curDescAddr txRing := rfl
    have hdesc : s.updateCurrentTxRingDescAddr.loadRingDesc (s.curDescAddr txRing) = s.txDesc 0 := rfl
    rw [chainFits_succ, dmaLoop, hcur, hdesc]
    by_cases hvalid : (s.txDesc 0).valid
    · rw [if_pos hvalid]
      split
      · next hfits =>
        cases hlast : (s.txDesc 0).last with
        | true => exact ⟨fun _ _ => ⟨hfits, Bool.noConfusion⟩, fun _ => rfl⟩
        | false =>
          have hbuf : ∀ b k, txDesc { s.passTx with txDmaBuf := b } k = s.passTx.txDesc k := fun b k =>
            txDesc_of_semiconj (f := fun s => { s with txDmaBuf := b }) (fun _ => rfl) (fun _ => rfl) _ k
          rw [if_neg Bool.false_ne_true, ih]
          refine .trans ?_ ⟨fun h _ => ⟨hfits, fun _ => h⟩, fun h => (h hvalid).2 rfl⟩
          show ChainFits { s.passTx with txDmaBuf := _ } (length (fetch ..).txDmaBuf) n ↔ _
          rw [length_fetch]
          simp only [ChainFits, hbuf]
          rfl
      · next hfits => exact ⟨Bool.noConfusion, fun h => absurd (h hvalid).1 hfits⟩
    · rw [if_neg hvalid]
      exact ⟨fun _ h => absurd h hvalid, fun _ => rfl⟩

theorem isSome_dmaPacketFromGuest (s : State) : s.dmaPacketFromGuest.isSome ↔
      s.canTransmit = false ∨ s.ChainFits s.txDmaBuf.length s.getTxRingSize := by
  have hidle : ∀ k, (s.setDmaIdle false).txDesc k = s.txDesc k :=
    txDesc_of_semiconj (f := fun s => s.setDmaIdle false) passTx_setDmaIdle (fun _ => rfl) s
  unfold dmaPacketFromGuest
  cases s.canTransmit with
  | true =>
    rw [if_pos rfl, Option.isSome_map, isSome_dmaLoop]
    simp only [ChainFits, hidle, Bool.true_eq_false, false_or]
    rfl
  | false => simp

variable {s s' : State} {p : Packet}

theorem dmaLoop_le {n : Nat} {sent : Bool} (h : dmaLoop n s = some (sent, s'))
    (hbuf : s.txDmaBuf.length ≤ txAllocBufsize) : s'.txDmaBuf.length ≤ txAllocBufsize ∧
      ∀ frame ∈ s'.sent, frame ∈ s.sent ∨ frame.length ≤ txAllocBufsize := by
  induction n generalizing s with
  | zero =>
    cases h
    exact ⟨hbuf, fun _ => .inl⟩
  | succ n ih =>
    rw [dmaLoop] at h
    split at h
    · split at h
      · next hfits =>
        rw [← length_fetch] at hfits
        split at h
        · cases h
          refine ⟨zero_le _, fun frame hframe => ?_⟩
          rcases mem_append.mp hframe with hframe | hframe
          · exact .inl hframe
          · cases mem_singleton.mp hframe
            exact .inr hfits
        · have hrest := ih h hfits
          exact hrest
      · cases h
    · cases h
      exact ⟨hbuf, fun _ => .inl⟩

theorem dmaPacketFromGuest_le (h : s.dmaPacketFromGuest = some s')
    (hbuf : s.txDmaBuf.length ≤ txAllocBufsize) : s'.txDmaBuf.length ≤ txAllocBufsize ∧
      ∀ frame ∈ s'.sent, frame ∈ s.sent ∨ frame.length ≤ txAllocBufsize := by
  unfold dmaPacketFromGuest at h
  split at h
  · obtain ⟨⟨sent, m⟩, hloop, rfl⟩ := Option.map_eq_some_iff.mp h
    have hm := dmaLoop_le hloop hbuf
    dsimp only
    split
    · exact hm
    · exact hm
  · cases h
    exact ⟨hbuf, fun _ => .inl⟩

theorem exists_nvnetReceive (s : State) (p : Packet) :
    ∃ r r' : Int × State, r.2.written = s.written ∧ s.nvnetReceive p =
      if (rxAllocBufsize < p.data.length ∨ s.receiveFilter p.data = false) ∨ s.canRx = false then some r
      else if s.FrameFits p then some r' else none := by
  rw [nvnetReceive]
  by_cases hdrop : rxAllocBufsize < p.data.length ∨ s.receiveFilter p.data = false
  · rw [if_pos hdrop]
    refine ⟨_, (0, s), ?_, (if_pos (.inl hdrop)).symm⟩
    rfl
  · rw [if_neg hdrop]
    cases hcan : s.canRx with
    | false =>
      rw [dmaPacketToGuest_of_not_canRx hcan]
      refine ⟨_, (0, s), ?_, (if_pos (.inr rfl)).symm⟩
      rfl
    | true =>
      obtain ⟨m, -, -, heq⟩ := dmaPacketToGuest_of_canRx p hcan
      exact ⟨(0, s), (p.data.length, m), rfl, heq.trans (if_neg (not_or.mpr ⟨hdrop, Bool.false_ne_true.symm⟩)).symm⟩

end State

/-- Receiving a frame returns exactly where the frame is dropped, has to wait or fits the descriptor's
buffer, and a kick exactly where it does not transmit or the chain fits; what is copied stays inside
the receive buffer, the descriptor's buffer and the transmit buffer. -/
theorem returns_iff_fits (s : State) (p : Packet) :
    ((s.nvnetReceive p).isSome ↔ ((rxAllocBufsize < p.data.length ∨ s.receiveFilter p.data = false) ∨
      s.canRx = false) ∨ s.FrameFits p) ∧
    (s.dmaPacketFromGuest.isSome ↔
      s.canTransmit = false ∨ s.ChainFits s.txDmaBuf.length s.getTxRingSize) ∧
    (∀ r ∈ s.nvnetReceive p, r.2.written ≠ s.written →
      p.data.length ≤ rxAllocBufsize ∧ s.FrameFits p) ∧
    ∀ s' ∈ s.dmaPacketFromGuest, s.txDmaBuf.length ≤ txAllocBufsize →
      s'.txDmaBuf.length ≤ txAllocBufsize ∧
        ∀ frame ∈ s'.sent, frame ∈ s.sent ∨ frame.length ≤ txAllocBufsize := by
  obtain ⟨r, r', hr, heq⟩ := s.exists_nvnetReceive p
  refine ⟨?_, s.isSome_dmaPacketFromGuest, ?_, fun _ => State.dmaPacketFromGuest_le⟩
  · rw [heq]
    split
    · simp [*]
    · simp [*]
  · intro x hx hwritten
    rw [heq] at hx
    split at hx
    · cases hx
      exact absurd hr hwritten
    · next hdrop =>
      split at hx
      · next hfits => exact ⟨not_lt.mp fun hlt => hdrop (.inl (.inl hlt)), hfits⟩
      · cases hx

/-- A broadcast frame of 60 bytes meets a descriptor with a buffer of 16. -/
theorem short_buffer_aborts :
    (run step (init fun _ => 0) (receiverOn ++ [.store 0x1000
      (RingDesc.bytes { bufferAddr := 0x2000, length := 0xF, flags := rxAvail })])).map
        (fun s => (step s (.frame (replicate 60 0xFF))).isSome) = some false := by
  decide +kernel

end XogMobile.Nvnet
