import XogMobile.Nvnet.Machine
import XogMobile.Lib.Cursor

/-!
# Transmission along the descriptor ring

`Transmitter` says what transmission is for: a kick consumes the valid descriptors from the next
position on, in ring order and each once, and the frames sent are their buffers joined up to each
descriptor marked last. The device keeps the same bookkeeping in registers and an assembly buffer, but
ends a kick after the first frame it completes; it does what the transmitter does where no valid
descriptor follows that frame.
-/

namespace XogMobile.Nvnet

open Lib List Nat

structure TxRing where
  (base size : Nat)
  pos : 0 < size
  fits : base + 8 * size < 2 ^ 32
  small : size < 2 ^ 16

def TxRing.slot (r : TxRing) (i : Nat) : Nat := r.base + 8 * i

structure Consumed where
  pos : Nat
  desc : RingDesc
  data : List Byte

/-- The frames that a sequence of descriptors makes, and the beginning of the next one. -/
def assemble : List Byte → List Consumed → List (List Byte) × List Byte
  | buf, [] => ([], buf)
  | buf, c :: cs =>
    if c.desc.last then
      let rest := assemble [] cs
      ((buf ++ c.data) :: rest.1, rest.2)
    else assemble (buf ++ c.data) cs

theorem assemble_append (buf : List Byte) (cs ds : List Consumed) : assemble buf (cs ++ ds) =
      ((assemble buf cs).1 ++ (assemble (assemble buf cs).2 ds).1, (assemble (assemble buf cs).2 ds).2) := by
  induction cs generalizing buf with
  | nil => rfl
  | cons c cs ih =>
    rw [cons_append, assemble, assemble]
    split
    · rw [ih]
      rfl
    · exact ih _

/-- The ring as the guest understands it. -/
structure Transmitter where
  memory : Nat → Byte
  pos : Nat
  dma : Bool
  consumed : List Consumed

namespace Transmitter

variable (r : TxRing) (t : Transmitter)

def desc : RingDesc := RingDesc.load t.memory (r.slot t.pos)

def pending : List Byte := (assemble [] t.consumed).2

def Fits : Prop := t.pending.length + ((t.desc r).length.toNat + 1) ≤ txAllocBufsize

instance : Decidable (t.Fits r) := inferInstanceAs (Decidable (_ ≤ _))

def next : Consumed where
  pos := t.pos
  desc := t.desc r
  data := readBytes t.memory (t.desc r).bufferAddr.toNat ((t.desc r).length.toNat + 1)

def take : Transmitter where
  memory := writeBytes t.memory (r.slot t.pos) (t.desc r).handback.bytes
  pos := (t.pos + 1) % r.size
  dma := t.dma
  consumed := t.consumed ++ [t.next r]

def drain : Nat → Transmitter → Option Transmitter
  | 0, t => some t
  | n + 1, t =>
    if (t.desc r).valid then if t.Fits r then drain n (t.take r) else none else some t

/-- The same up to the end of the first frame, with whether there is one. -/
def sendOne : Nat → Transmitter → Option (Bool × Transmitter)
  | 0, t => some (false, t)
  | n + 1, t =>
    if (t.desc r).valid then
      if t.Fits r then
        if (t.desc r).last then some (true, t.take r) else sendOne n (t.take r)
      else none
    else some (false, t)

variable {n : Nat} {t t' : Transmitter}

theorem drain_of_sendOne {sent : Bool} (h : sendOne r n t = some (sent, t'))
    (hdone : sent = true → (t'.desc r).valid = false) : drain r n t = some t' := by
  induction n generalizing t with
  | zero =>
    cases h
    rfl
  | succ n ih =>
    rw [sendOne] at h
    rw [drain]
    split at h
    · next hvalid =>
      split at h
      · next hfits =>
        rw [if_pos hvalid, if_pos hfits]
        split at h
        · -- the frame ends here, and the next descriptor is not valid
          cases h
          cases n with
          | zero => rfl
          | succ n => rw [drain, if_neg (by rw [hdone rfl]; exact Bool.false_ne_true)]
        · exact ih h
      · cases h
    · next hvalid =>
      cases h
      rw [if_neg hvalid]

theorem exists_sendOne (h : drain r n t = some t') : ∃ sent t₁, sendOne r n t = some (sent, t₁) := by
  induction n generalizing t with
  | zero => exact ⟨false, t, rfl⟩
  | succ n ih =>
    rw [drain] at h
    rw [sendOne]
    split at h
    · next hvalid =>
      split at h
      · next hfits =>
        rw [if_pos hvalid, if_pos hfits]
        by_cases hlast : (t.desc r).last
        · rw [if_pos hlast]
          exact ⟨_, _, rfl⟩
        · rw [if_neg hlast]
          exact ih h
      · cases h
    · next hvalid =>
      rw [if_neg hvalid]
      exact ⟨_, _, rfl⟩

/-- What consuming `k` descriptors in a row has done. -/
structure Taken (k : Nat) (t t' : Transmitter) : Prop where
  pos : t'.pos = (t.pos + k) % r.size
  dma : t'.dma = t.dma
  consumed : ∃ cs : List Consumed, t'.consumed = t.consumed ++ cs ∧
    cs.map Consumed.pos = (List.range k).map (fun j => (t.pos + j) % r.size) ∧
    (∀ c ∈ cs, c.desc.valid = true ∧ c.data.length = c.desc.length.toNat + 1) ∧
    ∀ c ∈ cs, RingDesc.load t'.memory (r.slot c.pos) = c.desc.handback
  others : ∀ i, (∀ j < k, i ≠ (t.pos + j) % r.size) →
    RingDesc.load t'.memory (r.slot i) = RingDesc.load t.memory (r.slot i)

theorem Taken.zero (hpos : t.pos < r.size) : Taken r 0 t t where
  pos := (mod_eq_of_lt hpos).symm
  dma := rfl
  consumed := ⟨[], by simp⟩
  others _ _ := rfl

theorem pos_ne (hpos : t.pos < r.size) {j : Nat} (hj : j + 1 < r.size) : t.pos ≠ (t.pos + 1 + j) % r.size := by
  intro heq
  have hmod : t.pos % r.size = (t.pos + 1 + j) % r.size := by
    rw [← heq, mod_eq_of_lt hpos]
  have hsame := slot_inj (le_refl t.pos) (by omega) (by omega) (by omega) hmod
  omega

theorem take_pos_add (t : Transmitter) (j : Nat) : ((t.take r).pos + j) % r.size = (t.pos + 1 + j) % r.size :=
  mod_add_mod (t.pos + 1) r.size j

theorem load_take_of_ne (t : Transmitter) {i : Nat} (hi : i ≠ t.pos) :
    RingDesc.load (t.take r).memory (r.slot i) = RingDesc.load t.memory (r.slot i) := by
  apply RingDesc.load_writeBytes
  rw [RingDesc.length_bytes]
  unfold TxRing.slot
  omega

theorem Taken.cons {k : Nat} (hpos : t.pos < r.size) (hk : k < r.size)
    (hvalid : (t.desc r).valid = true) (h : Taken r k (t.take r) t') : Taken r (k + 1) t t' := by
  have hkeep : RingDesc.load t'.memory (r.slot t.pos) = (t.desc r).handback := by
    rw [h.others t.pos]
    · exact RingDesc.load_store ..
    · intro j hj
      rw [take_pos_add]
      exact pos_ne r hpos (by omega)
  obtain ⟨cs, hcs, hps, hall, hback⟩ := h.consumed
  refine ⟨?_, h.dma, ⟨t.next r :: cs, ?_, ?_, ?_, ?_⟩, ?_⟩
  · rw [h.pos, take_pos_add]
    congr 1
    omega
  · rw [hcs, take, append_assoc]
    rfl
  · rw [map_cons, hps, range_succ_eq_map, map_cons, map_map]
    congr 1
    · exact (mod_eq_of_lt hpos).symm
    · apply map_congr_left
      intro j _
      rw [take_pos_add]
      congr 1
      omega
  · intro c hc
    cases hc with
    | head => exact ⟨hvalid, length_readBytes⟩
    | tail _ hc => exact hall c hc
  · intro c hc
    cases hc with
    | head => exact hkeep
    | tail _ hc => exact hback c hc
  · intro i hi
    rw [h.others i, load_take_of_ne r t]
    · intro heq
      exact hi 0 (by omega) (by rw [heq, add_zero, mod_eq_of_lt hpos])
    · intro j hj
      rw [take_pos_add]
      have := hi (j + 1) (by omega)
      rwa [show t.pos + 1 + j = t.pos + (j + 1) by omega]

theorem drain_taken (hpos : t.pos < r.size) (hn : n ≤ r.size) (h : drain r n t = some t') :
    ∃ k, Taken r k t t' ∧ k ≤ n ∧ (k < n → (t'.desc r).valid = false) := by
  induction n generalizing t with
  | zero =>
    cases h
    exact ⟨0, .zero r hpos, le_refl 0, nofun⟩
  | succ n ih =>
    rw [drain] at h
    split at h
    · next hvalid =>
      split at h
      · obtain ⟨k, htaken, _, hstop⟩ := ih (mod_lt _ r.pos) (by omega) h
        refine ⟨k + 1, htaken.cons r hpos (by omega) hvalid, by omega, fun hlt => hstop (by omega)⟩
      · cases h
    · next hvalid =>
      cases h
      exact ⟨0, .zero r hpos, by omega, fun _ => Bool.eq_false_iff.mpr hvalid⟩

theorem drain_next (hpos : t.pos < r.size) (h : drain r r.size t = some t') : (t'.desc r).valid = false := by
  obtain ⟨k, htaken, hk, hstop⟩ := drain_taken r hpos (le_refl _) h
  rcases lt_or_eq_of_le hk with hlt | rfl
  · exact hstop hlt
  · -- the whole ring was valid: the next descriptor is the first one, which has been handed back
    obtain ⟨cs, _, hps, _, hback⟩ := htaken.consumed
    have hmem : t'.pos ∈ cs.map Consumed.pos := by
      rw [hps, htaken.pos]
      refine mem_map.mpr ⟨0, mem_range.mpr r.pos, ?_⟩
      rw [add_zero, add_mod_right]
    obtain ⟨c, hc, hcpos⟩ := mem_map.mp hmem
    rw [desc, ← hcpos, hback c hc]
    exact RingDesc.handback_valid _

theorem assemble_take (t : Transmitter) : assemble [] (t.take r).consumed =
      if (t.desc r).last then ((assemble [] t.consumed).1 ++ [t.pending ++ (t.next r).data], [])
      else ((assemble [] t.consumed).1, t.pending ++ (t.next r).data) := by
  rw [take, assemble_append, assemble]
  by_cases hlast : (t.desc r).last
  · rw [if_pos hlast, if_pos (show (t.next r).desc.last = true from hlast)]
    rfl
  · rw [if_neg hlast, if_neg (show ¬(t.next r).desc.last = true from hlast), assemble, append_nil]
    rfl

end Transmitter

/-! ## The device follows the transmitter -/

/-- The registers and the assembly buffer of the device hold the transmitter's state. -/
structure Follows (r : TxRing) (on : Bool) (sent : List (List Byte)) (s : State) (t : Transmitter) :
    Prop where
  base : (s.getReg Reg.txRingPhysAddr).toNat = r.base
  size : (getMask (s.getReg Reg.ringSize) ringSizeTx).toNat + 1 = r.size
  next : (s.getReg Reg.txRingNextDescPhysAddr).toNat = r.slot t.pos
  pos : t.pos < r.size
  memory : s.memory = t.memory
  on : (s.txEnabled && s.linkUp) = on
  dma : s.dmaEnabled = t.dma
  sent : s.sent = sent ++ (assemble [] t.consumed).1
  buf : s.txDmaBuf = t.pending

namespace Follows

variable {r : TxRing} {on : Bool} {sent : List (List Byte)} {s : State} {t : Transmitter}

section

variable (h : Follows r on sent s t)
include h

theorem getTxRingSize : s.getTxRingSize = r.size := by
  have hsize := h.size
  have hsmall := r.small
  show ((getMask (s.getReg Reg.ringSize) ringSizeTx + 1).setWidth 16).toNat = r.size
  rw [BitVec.toNat_setWidth, BitVec.toNat_add, show (1 : Word).toNat = 1 from rfl]
  omega

theorem maxDescAddr : (s.maxDescAddr txRing).toNat = r.base + 8 * r.size := by
  have hfits := r.fits
  have hsize : (s.getRingSize txRing).toNat = r.size := h.getTxRingSize
  have hbase : (s.getReg txRing.physAddr).toNat = r.base := h.base
  rw [State.maxDescAddr, BitVec.toNat_add, BitVec.toNat_ofNat]
  omega

theorem curDescAddr : (s.curDescAddr txRing).toNat = r.slot t.pos := by
  have hnext : (s.getReg txRing.nextDesc).toNat = r.slot t.pos := h.next
  have hbase : (s.getReg txRing.physAddr).toNat = r.base := h.base
  have hpos := h.pos
  unfold State.curDescAddr
  rw [if_neg, hnext]
  rw [hnext, h.maxDescAddr, TxRing.slot]
  omega

theorem loadRingDesc : s.loadRingDesc (s.curDescAddr txRing) = t.desc r := by
  rw [State.loadRingDesc, h.curDescAddr, h.memory]
  rfl

end

variable {val : Word} {t' : Transmitter}

section

variable (h : Follows r on sent s t)
include h

theorem setReg {addr : Nat} (hbase : Reg.txRingPhysAddr ≠ addr)
    (hsize : Reg.ringSize ≠ addr) (hnext : Reg.txRingNextDescPhysAddr ≠ addr)
    (htx : Reg.transmitterControl ≠ addr) (hcontrol : Reg.txRxControl ≠ addr) :
    Follows r on sent (s.setReg addr val) t where
  __ := h
  base := by rw [State.getReg_setReg, if_neg hbase, h.base]
  size := by rw [State.getReg_setReg, if_neg hsize, h.size]
  next := by rw [State.getReg_setReg, if_neg hnext, h.next]
  on := by
    rw [← h.on, State.txEnabled, State.getReg_setReg, if_neg htx]
    rfl
  dma := by rw [← h.dma, State.dmaEnabled, State.dmaEnabled, State.getReg_setReg, if_neg hcontrol]

theorem updateIrq : Follows r on sent s.updateIrq t := { h with }

theorem setControl {dma : Bool} (hdma : (val &&& txRxControlBit2 == 0) = dma) :
    Follows r on sent (s.setReg Reg.txRxControl val) { t with dma } :=
  { h with dma := hdma }

theorem setDmaIdle (idle : Bool) : Follows r on sent (s.setDmaIdle idle) t := by
  have hdma := h.dma
  unfold State.setDmaIdle
  split
  · apply h.setControl
    rw [← hdma, State.dmaEnabled, BitVec.and_or_distrib_right]
    rw [show txRxControlIdle &&& txRxControlBit2 = 0 by decide]
    simp
  · apply h.setControl
    rw [← hdma, State.dmaEnabled, BitVec.and_assoc]
    rw [show ~~~txRxControlIdle &&& txRxControlBit2 = txRxControlBit2 by decide]

theorem nextDescAddr (hcur : (s.getReg Reg.txRingCurrentDescPhysAddr).toNat = r.slot t.pos) :
    (s.nextDescAddr txRing).toNat = r.slot ((t.pos + 1) % r.size) := by
  have hfits := r.fits
  have hpos := h.pos
  have hnext : (s.getReg txRing.currentDesc + 8).toNat = r.slot (t.pos + 1) := by
    rw [BitVec.toNat_add, show s.getReg txRing.currentDesc = s.getReg Reg.txRingCurrentDescPhysAddr from rfl,
      hcur, show (8 : Word).toNat = 8 from rfl]
    unfold TxRing.slot
    omega
  unfold State.nextDescAddr
  dsimp only
  rw [h.maxDescAddr, hnext]
  by_cases hwrap : t.pos + 1 = r.size
  · rw [if_pos (by unfold TxRing.slot; omega), hwrap, mod_self]
    exact h.base
  · rw [if_neg (by unfold TxRing.slot; omega), hnext, mod_eq_of_lt (by omega)]

theorem advance {m : State} (hregs : m.regs = s.updateCurrentTxRingDescAddr.regs) (hphy : m.phyRegs = s.phyRegs)
    (hmem : m.memory = s.memory) (hsent : m.sent = sent ++ (assemble [] (t.take r).consumed).1)
    (hbuf : m.txDmaBuf = (t.take r).pending) :
    Follows r on sent (m.storeRingDesc (s.curDescAddr txRing) (t.desc r).handback).advanceNextTxRingDescAddr
      (t.take r) := by
  have hcur : Follows r on sent s.updateCurrentTxRingDescAddr t :=
    h.setReg (by decide) (by decide) (by decide) (by decide) (by decide)
  have hget : m.getReg = s.updateCurrentTxRingDescAddr.getReg := hregs
  have hnext : m.nextDescAddr txRing = s.updateCurrentTxRingDescAddr.nextDescAddr txRing := by
    simp only [State.nextDescAddr, State.maxDescAddr, State.getRingSize, hget]
    rfl
  have hother : ∀ addr, addr ≠ Reg.txRingNextDescPhysAddr →
      (m.storeRingDesc (s.curDescAddr txRing) (t.desc r).handback).advanceNextTxRingDescAddr.getReg addr =
        s.updateCurrentTxRingDescAddr.getReg addr := by
    intro addr haddr
    rw [← hget]
    exact if_neg haddr
  refine ⟨?_, ?_, ?_, mod_lt _ r.pos, ?_, ?_, ?_, hsent, hbuf⟩
  · rw [hother _ (by decide), hcur.base]
  · rw [hother _ (by decide), hcur.size]
  · have hvalue := hcur.nextDescAddr h.curDescAddr
    rw [← hnext] at hvalue
    rw [State.advanceNextTxRingDescAddr, State.advanceNextRingDescAddr,
      show txRing.nextDesc = Reg.txRingNextDescPhysAddr from rfl, State.getReg_setReg, if_pos rfl]
    exact hvalue
  · show writeBytes m.memory (s.curDescAddr txRing).toNat _ = _
    rw [hmem, h.memory, h.curDescAddr]
    rfl
  · rw [← hcur.on, State.txEnabled, hother _ (by decide)]
    exact congrArg (_ && ·) (congrArg (fun f => f miiBmsr &&& miiBmsrLinkSt != 0) hphy)
  · rw [State.dmaEnabled, hother _ (by decide)]
    exact hcur.dma

theorem length_add_one (hfits : t.Fits r) : ((t.desc r).length + 1).toNat = (t.desc r).length.toNat + 1 ∧
      s.txDmaBuf.length + ((t.desc r).length.toNat + 1) ≤ txAllocBufsize := by
  have hle : t.pending.length + ((t.desc r).length.toNat + 1) ≤ txAllocBufsize := hfits
  have hbufsize : txAllocBufsize < 2 ^ 16 := by decide
  rw [h.buf]
  refine ⟨?_, hle⟩
  rw [BitVec.toNat_add, show (1 : BitVec 16).toNat = 1 from rfl]
  exact mod_eq_of_lt (by omega)

theorem dmaLoop {n : Nat} {packetSent : Bool} (hsend : Transmitter.sendOne r n t = some (packetSent, t')) :
    ∃ s', State.dmaLoop n s = some (packetSent, s') ∧ Follows r on sent s' t' := by
  induction n generalizing s t with
  | zero =>
    cases hsend
    exact ⟨s, rfl, h⟩
  | succ n ih =>
    have hcur : s.updateCurrentTxRingDescAddr.getReg Reg.txRingCurrentDescPhysAddr = s.curDescAddr txRing := rfl
    have hdesc : s.updateCurrentTxRingDescAddr.loadRingDesc (s.curDescAddr txRing) = t.desc r := h.loadRingDesc
    rw [Transmitter.sendOne] at hsend
    rw [State.dmaLoop]
    rw [hcur, hdesc]
    split at hsend
    · next hvalid =>
      rw [if_pos hvalid]
      split at hsend
      · next hfits =>
        obtain ⟨hlength, hroom⟩ := h.length_add_one hfits
        have htake := Transmitter.assemble_take r t
        rw [if_pos (by rw [hlength]; exact hroom)]
        split at hsend
        · next hlast =>
          rw [if_pos hlast] at htake ⊢
          cases hsend
          refine ⟨_, rfl, h.advance rfl rfl rfl ?_ ?_⟩
          · rw [htake, ← append_assoc, ← h.sent]
            show s.sent ++ [s.txDmaBuf ++ readBytes s.memory _ _] = _
            rw [hlength, h.buf, h.memory]
            rfl
          · rw [Transmitter.pending, htake]
            rfl
        · next hlast =>
          rw [if_neg hlast] at htake ⊢
          apply ih _ hsend
          refine h.advance rfl rfl rfl ?_ ?_
          · rw [htake, ← h.sent]
            rfl
          · show s.txDmaBuf ++ readBytes s.memory _ _ = _
            rw [Transmitter.pending, htake, hlength, h.buf, h.memory]
            rfl
      · cases hsend
    · next hvalid =>
      rw [if_neg hvalid]
      cases hsend
      exact ⟨_, rfl, h.setReg (by decide) (by decide) (by decide) (by decide) (by decide)⟩

theorem dmaPacketFromGuest (hdrain : (if on && t.dma then Transmitter.drain r r.size t else some t) = some t')
    (hone : (on && t.dma) = true → ∀ t₁, Transmitter.sendOne r r.size t = some (true, t₁) → (t₁.desc r).valid = false) :
    ∃ s', s.dmaPacketFromGuest = some s' ∧ Follows r on sent s' t' := by
  have hcan : s.canTransmit = (on && t.dma) := by
    rw [State.canTransmit, ← h.on, ← h.dma, Bool.and_right_comm]
  unfold State.dmaPacketFromGuest
  rw [hcan]
  split at hdrain
  · next hon =>
    rw [if_pos hon]
    obtain ⟨_, t₁, hsend⟩ := Transmitter.exists_sendOne r hdrain
    have hsame : t₁ = t' := by
      have hall := Transmitter.drain_of_sendOne r hsend fun hsent => hone hon t₁ (hsent ▸ hsend)
      exact Option.some.inj (hall.symm.trans hdrain)
    subst hsame
    obtain ⟨m, hloop, hm⟩ := (h.setDmaIdle false).dmaLoop hsend
    refine ⟨_, by rw [h.getTxRingSize, hloop]; rfl, ?_⟩
    dsimp only
    split
    · apply Follows.updateIrq
      apply (hm.setDmaIdle true).setReg <;> decide
    · exact hm.setDmaIdle true
  · next hon =>
    rw [if_neg hon]
    cases hdrain
    exact ⟨s, rfl, h⟩

end

end Follows

theorem nvnetMmioWrite_control (s : State) (val : Word) :
    s.nvnetMmioWrite Reg.txRxControl val 4 = (s.writeControl val).map fun s =>
      let s :=
        if val &&& txRxControlReset ≠ 0 then { s.resetDescriptorRingPointers with txDmaBuf := [] }
        else s
      if val &&& txRxControlBit1 ≠ 0 then s.setReg Reg.irqStatus 0
      else if val = 0 then s.setReg Reg.unknownSetupReg5 unknownSetupReg5Bit31
      else s := by
  unfold State.nvnetMmioWrite
  rw [if_neg (by decide), if_neg (by decide), if_pos rfl]

inductive TxEvent
  | store (addr : Nat) (bytes : List Byte)
  | kick (val : Word) (hkick : val &&& txRxControlKick ≠ 0) (hreset : val &&& txRxControlReset = 0)

def TxEvent.event : TxEvent → Event
  | .store addr bytes => .store addr bytes
  | .kick val _ _ => .mmioWrite Reg.txRxControl val 4

namespace Transmitter

def start (memory : Nat → Byte) (dma : Bool) : Transmitter where
  memory := memory
  pos := 0
  dma := dma
  consumed := []

def setDma (t : Transmitter) (val : Word) : Transmitter :=
  { t with dma := val &&& txRxControlBit2 == 0 }

def step (r : TxRing) (on : Bool) (t : Transmitter) : TxEvent → Option Transmitter
  | .store addr bytes => some { t with memory := writeBytes t.memory addr bytes }
  | .kick val _ _ =>
    if on && (t.setDma val).dma then drain r r.size (t.setDma val) else some (t.setDma val)

/-- The descriptors consumed so far: in ring order from the start of the ring on, each valid and with
its whole buffer. -/
structure InOrder (r : TxRing) (t : Transmitter) : Prop where
  pos : t.pos = t.consumed.length % r.size
  order : t.consumed.map Consumed.pos = (List.range t.consumed.length).map (· % r.size)
  whole : ∀ c ∈ t.consumed, c.desc.valid = true ∧ c.data.length = c.desc.length.toNat + 1

variable {r : TxRing} {t t' : Transmitter} {on : Bool}

theorem InOrder.taken {k : Nat} (h : InOrder r t) (htaken : Taken r k t t') : InOrder r t' := by
  obtain ⟨cs, hcs, hps, hall, _⟩ := htaken.consumed
  have hlength : cs.length = k := by
    have := congrArg length hps
    simpa using this
  refine ⟨?_, ?_, ?_⟩
  · rw [htaken.pos, hcs, length_append, hlength, h.pos, mod_add_mod]
  · rw [hcs, map_append, h.order, hps, length_append, hlength, range_add, map_append, map_map]
    congr 1
    apply map_congr_left
    intro j _
    rw [h.pos, mod_add_mod, Function.comp_apply]
  · intro c hc
    rw [hcs] at hc
    rcases mem_append.mp hc with hc | hc
    · exact h.whole c hc
    · exact hall c hc

theorem kick_taken {val : Word} {hkick : val &&& txRxControlKick ≠ 0}
    {hreset : val &&& txRxControlReset = 0} (hpos : t.pos < r.size)
    (h : t.step r on (.kick val hkick hreset) = some t') :
    (∃ k, Taken r k (t.setDma val) t') ∧ ((on && t'.dma) = true → (t'.desc r).valid = false) := by
  simp only [step] at h
  split at h
  · obtain ⟨k, htaken, _⟩ := drain_taken r (t := t.setDma val) hpos (le_refl _) h
    exact ⟨⟨k, htaken⟩, fun _ => drain_next r (t := t.setDma val) hpos h⟩
  · next hoff =>
    cases h
    exact ⟨⟨0, .zero r hpos⟩, fun hon => absurd hon hoff⟩

theorem InOrder.step {e : TxEvent} (h : InOrder r t) (hstep : t.step r on e = some t') : InOrder r t' := by
  cases e with
  | store addr bytes =>
    cases hstep
    exact { h with }
  | kick val hkick hreset =>
    have hpos : t.pos < r.size := by
      rw [h.pos]
      exact mod_lt _ r.pos
    obtain ⟨⟨k, htaken⟩, _⟩ := kick_taken hpos hstep
    have hdma : InOrder r (t.setDma val) := { h with }
    exact hdma.taken htaken

def OneFrame (r : TxRing) (on : Bool) (t : Transmitter) : TxEvent → Prop
  | .store _ _ => True
  | .kick val _ _ => (on && (t.setDma val).dma) = true → ∀ t',
      sendOne r r.size (t.setDma val) = some (true, t') → (t'.desc r).valid = false

instance (r : TxRing) (on : Bool) (t : Transmitter) : (e : TxEvent) → Decidable (t.OneFrame r on e)
  | .store _ _ => isTrue trivial
  | .kick val _ _ =>
    have : Decidable (∀ t', sendOne r r.size (t.setDma val) = some (true, t') →
        (t'.desc r).valid = false) :=
      match sendOne r r.size (t.setDma val) with
      | none => isTrue nofun
      | some (false, _) => isTrue nofun
      | some (true, t') => decidable_of_iff ((t'.desc r).valid = false) (by simp)
    inferInstanceAs (Decidable (_ → _))

end Transmitter

namespace Follows

variable {r : TxRing} {on : Bool} {sent : List (List Byte)} {s : State} {t t' : Transmitter}

theorem step {e : TxEvent} (h : Follows r on sent s t) (hone : t.OneFrame r on e) (hstep : t.step r on e = some t') :
    ∃ s', Nvnet.step s e.event = some s' ∧ Follows r on sent s' t' := by
  cases e with
  | store addr bytes =>
    cases hstep
    refine ⟨_, rfl, ?_⟩
    exact { h with memory := by rw [← h.memory] }
  | kick val hkick hreset =>
    have hfull : val &&& State.sizeMask 4 = val := by
      rw [show State.sizeMask 4 = BitVec.allOnes 32 by decide, BitVec.and_allOnes]
    have hval : ((s.getReg Reg.txRxControl &&& (val ||| ~~~(~~~txRxControlIdle))) |||
        (val &&& ~~~txRxControlIdle)) &&& txRxControlBit2 = val &&& txRxControlBit2 := by
      have hbit : ~~~txRxControlIdle &&& txRxControlBit2 = txRxControlBit2 := by decide
      grind
    have hcontrol : Follows r on sent
        (s.setRegWithMask Reg.txRxControl val (~~~txRxControlIdle)) (t.setDma val) := by
      apply h.setControl
      rw [hval]
    obtain ⟨m, hm, hfollows⟩ := hcontrol.dmaPacketFromGuest hstep hone
    have hwrite : s.writeControl val = some m := by
      rw [State.writeControl, if_pos hkick]
      exact hm
    have heq : Nvnet.step s (TxEvent.kick val hkick hreset).event = s.nvnetMmioWrite Reg.txRxControl val 4 := by
      show (if allowed Reg.txRxControl 4 then
        s.nvnetMmioWrite Reg.txRxControl (val &&& State.sizeMask 4) 4 else some s) = _
      rw [if_pos (by decide), hfull]
    rw [heq, nvnetMmioWrite_control, hwrite]
    refine ⟨_, rfl, ?_⟩
    dsimp only
    rw [if_neg (not_not.mpr hreset)]
    split
    · apply hfollows.setReg <;> decide
    · split
      · apply hfollows.setReg <;> decide
      · exact hfollows

end Follows

/-- What a run of stores and kicks has done to the device, seen from the transmitter that drains its
ring at every kick. -/
structure Transmitted (r : TxRing) (s s' : State) (t : Transmitter) : Prop where
  sent : s'.sent = s.sent ++ (assemble [] t.consumed).1
  begun : s'.txDmaBuf = (assemble [] t.consumed).2
  /-- Consumed are the positions 0, 1, 2, … of the ring, each valid and with its whole buffer. -/
  order : t.consumed.map Consumed.pos = (List.range t.consumed.length).map (· % r.size)
  whole : ∀ c ∈ t.consumed, c.desc.valid = true ∧ c.data.length = c.desc.length.toNat + 1
  memory : s'.memory = t.memory

/-- In every run of stores and kicks in which no valid descriptor follows the frame that a kick sends,
the device transmits what the transmitter does: the consumed descriptors are handed back, and after a
kick with transmitter, DMA and link on the next descriptor is not valid. -/
theorem kicks_transmit_ring (r : TxRing) (s : State)
    (hbase : (s.getReg Reg.txRingPhysAddr).toNat = r.base)
    (hsize : (getMask (s.getReg Reg.ringSize) ringSizeTx).toNat + 1 = r.size)
    (hnext : s.getReg Reg.txRingNextDescPhysAddr = s.getReg Reg.txRingPhysAddr)
    (hbuf : s.txDmaBuf = []) {es : List TxEvent} {t : Transmitter}
    (hrun : run (Transmitter.step r (s.txEnabled && s.linkUp))
      (.start s.memory s.dmaEnabled) es = some t)
    (hmeets : Meets (Transmitter.step r (s.txEnabled && s.linkUp))
      (Transmitter.OneFrame r (s.txEnabled && s.linkUp)) (.start s.memory s.dmaEnabled) es) :
    ∃ s', run step s (es.map TxEvent.event) = some s' ∧ Transmitted r s s' t ∧
      ∀ es₀ val hkick hreset t₀, es = es₀ ++ [.kick val hkick hreset] →
        run (Transmitter.step r (s.txEnabled && s.linkUp))
          (.start s.memory s.dmaEnabled) es₀ = some t₀ →
        (∀ c ∈ t.consumed.drop t₀.consumed.length,
          RingDesc.load s'.memory (r.slot c.pos) = c.desc.handback) ∧
        (s'.canTransmit = true → (s'.loadRingDesc (s'.curDescAddr txRing)).valid = false) := by
  have hstart : Follows r (s.txEnabled && s.linkUp) s.sent s (.start s.memory s.dmaEnabled) :=
    { base := hbase, size := hsize, next := by rw [hnext, hbase]; rfl, pos := r.pos, memory := rfl,
      on := rfl, dma := rfl, sent := (append_nil _).symm, buf := hbuf }
  have horder₀ : Transmitter.InOrder r (.start s.memory s.dmaEnabled) :=
    ⟨(zero_mod _).symm, rfl, nofun⟩
  have horder : ∀ {es t}, run (Transmitter.step r (s.txEnabled && s.linkUp))
      (.start s.memory s.dmaEnabled) es = some t → Transmitter.InOrder r t := fun hrun =>
    run_invariant (Transmitter.InOrder r) (fun _ _ _ h hstep => h.step hstep) horder₀ hrun
  obtain ⟨s', hrun', hfollows⟩ : ∃ s', run step s (es.map TxEvent.event) = some s' ∧
      Follows r (s.txEnabled && s.linkUp) s.sent s' t :=
    run_map TxEvent.event (fun t s' => Follows r (s.txEnabled && s.linkUp) s.sent s' t)
      (fun _ _ _ _ h hone hstep => h.step hone hstep) hstart hmeets hrun
  refine ⟨s', hrun', ⟨hfollows.sent, hfollows.buf, (horder hrun).order, (horder hrun).whole,
    hfollows.memory⟩, ?_⟩
  rintro es₀ val hkick hreset t₀ rfl hrun₀
  obtain ⟨t₁, hrun₁, hlast⟩ := run_append_eq_some.mp hrun
  obtain rfl : t₁ = t₀ := Option.some.inj (hrun₁.symm.trans hrun₀)
  obtain ⟨_, hstep, hnil⟩ := run_cons_eq_some.mp hlast
  cases hnil
  have hpos : t₁.pos < r.size := by
    rw [(horder hrun₁).pos]
    exact mod_lt _ r.pos
  obtain ⟨⟨k, htaken⟩, hdone⟩ := Transmitter.kick_taken hpos hstep
  obtain ⟨_, hcs, _, _, hback⟩ := htaken.consumed
  refine ⟨?_, fun hcan => ?_⟩
  · rw [hcs, show (t₁.setDma val).consumed = t₁.consumed from rfl, drop_left, hfollows.memory]
    exact hback
  · rw [hfollows.loadRingDesc]
    apply hdone
    rw [← hfollows.dma, ← hfollows.on, Bool.and_right_comm]
    exact hcan

def twoSlots : State :=
  ((((init fun _ => 0).setReg Reg.txRingPhysAddr 0x1000).setReg Reg.ringSize 1).setReg
    Reg.transmitterControl transmitterControlStart).resetDescriptorRingPointers

def kickBoth (flags flags' : BitVec 16) : List TxEvent :=
  [.store 0x1000 (RingDesc.bytes { bufferAddr := 0x2000, length := 0, flags := flags }),
   .store 0x1008 (RingDesc.bytes { bufferAddr := 0x2000, length := 0, flags := flags' }),
   .kick txRxControlKick (by decide) (by decide)]

theorem kicks_transmit_ring_twoSlots :
    ∃ t s', run step twoSlots ((kickBoth txValid (txValid ||| txLastpacket)).map TxEvent.event) = some s' ∧
      Transmitted ⟨0x1000, 2, by decide, by decide, by decide⟩ twoSlots s' t ∧
      t.consumed.length = 2 := by
  obtain ⟨t, hrun, hlength⟩ : ∃ t, run (Transmitter.step ⟨0x1000, 2, by decide, by decide, by decide⟩
      (twoSlots.txEnabled && twoSlots.linkUp)) (.start twoSlots.memory twoSlots.dmaEnabled)
      (kickBoth txValid (txValid ||| txLastpacket)) = some t ∧ t.consumed.length = 2 := by
    decide +kernel
  obtain ⟨s', hrun', htransmitted, _⟩ := kicks_transmit_ring ⟨0x1000, 2, by decide, by decide, by decide⟩
    twoSlots (by decide +kernel) (by decide +kernel) (by decide +kernel) rfl hrun (by decide +kernel)
  exact ⟨t, s', hrun', htransmitted, hlength⟩

/-- With two frames in the ring a kick sends the first one only, and the next descriptor stays valid. -/
theorem kick_leaves_frame :
    ∃ s', run step twoSlots
        ((kickBoth (txValid ||| txLastpacket) (txValid ||| txLastpacket)).map TxEvent.event) = some s' ∧
      s'.sent.length = 1 ∧ s'.canTransmit = true ∧
      (s'.loadRingDesc (s'.curDescAddr txRing)).valid = true := by
  decide +kernel

end XogMobile.Nvnet
