import XogMobile.Nvnet.Machine

/-!
# Reception and the queue of parked frames

A frame that arrives while the device cannot receive is parked in the network core's queue. The queue
is looked at again only when the next frame arrives: no guest store that makes the device ready asks
for the parked frames. Four things keep the device from receiving (`Gate`). As long as the guest leaves one
of them closed while a frame for it is parked, frames are written in the order of their arrival and none
waits while the device could take it.
-/

namespace XogMobile.Nvnet

open Lib List Option Bool

/-- Nothing changed that reception keeps. -/
structure SameRx (s s' : State) : Prop where
  linkDown : s'.linkDown = s.linkDown
  receiveDisabled : s'.receiveDisabled = s.receiveDisabled
  autonegTimer : s'.autonegTimer = s.autonegTimer
  queue : s'.queue = s.queue
  arrived : s'.arrived = s.arrived
  written : s'.written = s.written
  refused : s'.refused = s.refused

namespace SameRx

variable {s s' s'' : State}

theorem trans (h : SameRx s s') (h' : SameRx s' s'') : SameRx s s'' where
  linkDown := h'.linkDown.trans h.linkDown
  receiveDisabled := h'.receiveDisabled.trans h.receiveDisabled
  autonegTimer := h'.autonegTimer.trans h.autonegTimer
  queue := h'.queue.trans h.queue
  arrived := h'.arrived.trans h.arrived
  written := h'.written.trans h.written
  refused := h'.refused.trans h.refused

theorem setDmaIdle (s : State) (idle : Bool) : SameRx s (s.setDmaIdle idle) := by
  unfold State.setDmaIdle
  split <;> exact ⟨rfl, rfl, rfl, rfl, rfl, rfl, rfl⟩

end SameRx

/-! ## What a register write can change -/

/-- The top bit, which in the last byte of a descriptor says that it is available, is not set anew. -/
def Below (b c : Byte) : Prop := b.msb = true → c.msb = true

theorem leBytes_below (n : Nat) {v w : Nat} (h : ∀ k, v.testBit k = true → w.testBit k = true) :
    Forall₂ Below (leBytes n v) (leBytes n w) := by
  induction n generalizing v w with
  | zero => exact .nil
  | succ n ih =>
    refine .cons ?_ (ih fun k hk => ?_)
    · rw [Below, BitVec.msb_eq_getLsbD_last, BitVec.msb_eq_getLsbD_last, BitVec.getLsbD_ofNat,
        BitVec.getLsbD_ofNat]
      exact h 7
    · rw [show 256 = 2 ^ 8 from rfl, Nat.testBit_div_two_pow] at hk ⊢
      exact h _ hk

theorem handback_below (d : RingDesc) : Forall₂ Below d.handback.bytes d.bytes := by
  refine rel_append (forall₂_same.mpr fun _ _ h => h) (leBytes_below 2 fun k hk => ?_)
  rw [RingDesc.handback, BitVec.toNat_and, Nat.testBit_and, and_eq_true] at hk
  exact hk.1

theorem storeHandback_below (m : Nat → Byte) (a x : Nat) :
    Below (writeBytes m a (RingDesc.load m a).handback.bytes x) (m x) := by
  have hall := handback_below (RingDesc.load m a)
  rw [RingDesc.bytes_load] at hall
  rw [writeBytes]
  split
  · next hle =>
    cases hx : (RingDesc.load m a).handback.bytes[x - a]? with
    | none => exact id
    | some b =>
      obtain ⟨hi, rfl⟩ := List.getElem?_eq_some_iff.mp hx
      have hbyte := (forall₂_iff_get.mp hall).2 (x - a) hi (by simpa using hi)
      simpa [readBytes, hle] using hbyte
  · exact id

/-- Only the listed registers change, those of the PHY only if `phy`, and no descriptor becomes available. -/
structure Writes (regs : List Nat) (phy : Bool) (s s' : State) : Prop extends SameRx s s' where
  getReg : ∀ a, a ∉ regs → s'.getReg a = s.getReg a
  phyRegs : phy = false → s'.phyRegs = s.phyRegs
  memory : ∀ a, Below (s'.memory a) (s.memory a)

namespace Writes

variable {regs : List Nat} {phy : Bool} {s s' s'' : State}

theorem refl (s : State) : Writes regs phy s s :=
  ⟨⟨rfl, rfl, rfl, rfl, rfl, rfl, rfl⟩, fun _ _ => rfl, fun _ => rfl, fun _ h => h⟩

theorem trans (h : Writes regs phy s s') (h' : Writes regs phy s' s'') : Writes regs phy s s'' where
  toSameRx := h.toSameRx.trans h'.toSameRx
  getReg a ha := (h'.getReg a ha).trans (h.getReg a ha)
  phyRegs ha := (h'.phyRegs ha).trans (h.phyRegs ha)
  memory a := h.memory a ∘ h'.memory a

theorem ite {p : Prop} [Decidable p] (h : Writes regs phy s s') (h' : Writes regs phy s s'') :
    Writes regs phy s (if p then s' else s'') := by
  split
  · exact h
  · exact h'

theorem setReg {addr : Nat} (haddr : addr ∈ regs) (val : Word) : Writes regs phy s (s.setReg addr val) where
  __ := (refl s : Writes regs phy s s)
  getReg a ha := if_neg fun heq : a = addr => ha (heq ▸ haddr)

theorem updateIrq (h : Writes regs phy s s') : Writes regs phy s s'.updateIrq := { h with }

theorem setDmaIdle (haddr : Reg.txRxControl ∈ regs) (idle : Bool) : Writes regs phy s (s.setDmaIdle idle) :=
  ite (setReg haddr _) (setReg haddr _)

theorem dmaLoop {n : Nat} {sent : Bool} (hcur : Reg.txRingCurrentDescPhysAddr ∈ regs)
    (hnext : Reg.txRingNextDescPhysAddr ∈ regs) (h : State.dmaLoop n s = some (sent, s')) :
    Writes regs phy s s' := by
  induction n generalizing s with
  | zero =>
    cases h
    exact .refl _
  | succ n ih =>
    have hstart : Writes regs phy s s.updateCurrentTxRingDescAddr := setReg hcur _
    have hback (m : State) (hm : Writes regs phy s.updateCurrentTxRingDescAddr m) (hmem : m.memory = s.memory) :
        Writes regs phy s (m.storeRingDesc (s.curDescAddr txRing)
          (s.loadRingDesc (s.curDescAddr txRing)).handback).advanceNextTxRingDescAddr := by
      refine (hstart.trans hm).trans (.trans ?_ (setReg hnext _))
      refine { refl m with memory := fun a => ?_ }
      rw [State.storeRingDesc, hmem]
      exact storeHandback_below s.memory _ a
    rw [State.dmaLoop] at h
    split at h
    · split at h
      · split at h
        · cases h
          exact hback _ ⟨⟨rfl, rfl, rfl, rfl, rfl, rfl, rfl⟩, fun _ _ => rfl, fun _ => rfl, fun _ h => h⟩ rfl
        · refine .trans (hback _ ?_ ?_) (ih h)
          · exact ⟨⟨rfl, rfl, rfl, rfl, rfl, rfl, rfl⟩, fun _ _ => rfl, fun _ => rfl, fun _ h => h⟩
          · rfl
      · cases h
    · cases h
      exact hstart

end Writes

/-- The registers that a write to `addr` may change. -/
def touched (addr : Nat) (val : Word) : List Nat :=
  if addr = Reg.mdioAddr then [Reg.mdioAddr, Reg.mdioData]
  else if addr = Reg.txRxControl then
    [Reg.txRxControl, Reg.irqStatus, Reg.unknownSetupReg5, Reg.txRingCurrentDescPhysAddr,
      Reg.txRingNextDescPhysAddr] ++
      if val &&& txRxControlReset ≠ 0 then [Reg.rxRingCurrentDescPhysAddr, Reg.rxRingNextDescPhysAddr] else []
  else [addr]

/-- The registers that a write to another one may change. -/
def sideRegs : List Nat :=
  [Reg.mdioAddr, Reg.mdioData, Reg.irqStatus, Reg.unknownSetupReg5, Reg.txRingCurrentDescPhysAddr,
    Reg.txRingNextDescPhysAddr, Reg.rxRingCurrentDescPhysAddr, Reg.rxRingNextDescPhysAddr]

theorem not_mem_touched {a addr : Nat} {val : Word} (haddr : a ≠ addr)
    (hside : a ∉ sideRegs) : a ∉ touched addr val := by
  unfold sideRegs at hside
  unfold touched
  split_ifs <;> simp_all

namespace Writes

variable {regs : List Nat} {phy : Bool} {s s' : State} {addr size : Nat} {val : Word}

theorem mdio (val : Word) (size : Nat) : Writes [Reg.mdioAddr, Reg.mdioData] (val &&& mdioAddrWrite != 0) s
    (if val &&& mdioAddrWrite ≠ 0 then (s.setRegExt Reg.mdioAddr val size).mdioWrite
      else (s.setRegExt Reg.mdioAddr val size).mdioRead) := by
  have haddr : Reg.mdioAddr ∈ [Reg.mdioAddr, Reg.mdioData] := mem_cons_self
  have hset : Writes [Reg.mdioAddr, Reg.mdioData] (val &&& mdioAddrWrite != 0) s (s.setRegExt Reg.mdioAddr val size) :=
    setReg haddr _
  refine hset.trans ?_
  split
  · next hwrite =>
    refine .trans (ite (ite ?_ (.refl _)) (.refl _)) (setReg haddr _)
    exact ⟨⟨rfl, rfl, rfl, rfl, rfl, rfl, rfl⟩, fun _ _ => rfl,
      fun h => absurd (bne_eq_false_iff_eq.mp h) hwrite, fun _ h => h⟩
  · exact .trans (setReg (mem_cons_of_mem _ mem_cons_self) _) (setReg haddr _)

theorem kick (hcontrol : Reg.txRxControl ∈ regs) (hirq : Reg.irqStatus ∈ regs)
    (hcur : Reg.txRingCurrentDescPhysAddr ∈ regs) (hnext : Reg.txRingNextDescPhysAddr ∈ regs)
    (h : s.dmaPacketFromGuest = some s') : Writes regs phy s s' := by
  unfold State.dmaPacketFromGuest at h
  split at h
  · obtain ⟨⟨sent, m⟩, hloop, rfl⟩ := map_eq_some_iff.mp h
    refine ((setDmaIdle hcontrol false).trans (dmaLoop hcur hnext hloop)).trans
      ((setDmaIdle hcontrol true).trans (ite ?_ (.refl _)))
    exact updateIrq (setReg hirq _)
  · cases h
    exact .refl s

theorem control (hcontrol : Reg.txRxControl ∈ regs) (hirq : Reg.irqStatus ∈ regs)
    (hsetup : Reg.unknownSetupReg5 ∈ regs) (hcur : Reg.txRingCurrentDescPhysAddr ∈ regs)
    (hnext : Reg.txRingNextDescPhysAddr ∈ regs) (hreset : val &&& txRxControlReset ≠ 0 →
      Reg.rxRingCurrentDescPhysAddr ∈ regs ∧ Reg.rxRingNextDescPhysAddr ∈ regs)
    (h : s.nvnetMmioWrite Reg.txRxControl val size = some s') : Writes regs phy s s' := by
  obtain ⟨m, hwrite, rfl⟩ := map_eq_some_iff.mp h
  have hm : Writes regs phy s m := by
    unfold State.writeControl at hwrite
    split at hwrite
    · exact .trans (setReg hcontrol _) (kick hcontrol hirq hcur hnext hwrite)
    · cases hwrite
      exact setReg hcontrol _
  refine hm.trans (.trans ?_ (ite (setReg hirq _) (ite (setReg hsetup _) (.refl _))))
  split
  · next hval =>
    have hrings : Writes regs phy m m.resetDescriptorRingPointers :=
      (((setReg hcur _).trans (setReg hnext _)).trans (setReg (hreset hval).1 _)).trans
        (setReg (hreset hval).2 _)
    exact { hrings with }
  · exact .refl _

theorem nvnetMmioWrite (h : s.nvnetMmioWrite addr val size = some s') :
    Writes (touched addr val) (addr == Reg.mdioAddr && val &&& mdioAddrWrite != 0) s s' := by
  by_cases hcontrol : addr = Reg.txRxControl
  · subst hcontrol
    have hfirst {a : Nat} (ha : a ∈ [Reg.txRxControl, Reg.irqStatus, Reg.unknownSetupReg5,
        Reg.txRingCurrentDescPhysAddr, Reg.txRingNextDescPhysAddr]) : a ∈ touched Reg.txRxControl val :=
      mem_append_left _ ha
    refine control (hfirst (by decide)) (hfirst (by decide)) (hfirst (by decide)) (hfirst (by decide))
      (hfirst (by decide)) (fun hreset => ?_) h
    rw [touched, if_neg (by decide), if_pos rfl, if_pos hreset]
    exact ⟨by decide, by decide⟩
  unfold State.nvnetMmioWrite at h
  unfold touched
  split at h
  · cases h
  split at h
  · next haddr =>
    subst haddr
    split at h
    · cases h
      exact mdio val size
    · cases h
  next hmdio =>
  rw [if_neg hmdio, if_neg hcontrol]
  split at h
  · cases h
    exact updateIrq (setReg mem_cons_self _)
  split at h
  · cases h
    exact updateIrq (setReg mem_cons_self _)
  · cases h
    exact setReg mem_cons_self _

end Writes

/-! ## What keeps the device from receiving -/

def filterRegs : List Nat :=
  [Reg.packetFilter, Reg.macAddrA, Reg.macAddrB, Reg.multicastAddrA, Reg.multicastAddrB,
    Reg.multicastMaskA, Reg.multicastMaskB]

/-- The frame is for the guest: `nvnet_receive_iov` does not drop it. -/
def State.wanted (s : State) (p : Packet) : Bool :=
  decide (p.data.length ≤ rxAllocBufsize) && s.receiveFilter p.data

inductive Gate where
  | receiver
  | dma
  | link
  | descriptor
  deriving DecidableEq

def gates : List Gate := [.receiver, .dma, .link, .descriptor]

def State.closed (s : State) : Gate → Bool
  | .receiver => !s.rxEnabled
  | .dma => !s.dmaEnabled
  | .link => !s.linkUp
  | .descriptor => !(s.loadRingDesc (s.curDescAddr rxRing)).avail

/-- A register write that does not open the gate. -/
def Gate.spared (addr : Nat) (val : Word) : Gate → Bool
  | .receiver => addr != Reg.receiverControl || val &&& receiverControlStart == 0
  | .dma => addr != Reg.txRxControl || val &&& txRxControlBit2 != 0
  | .link => addr != Reg.mdioAddr || val &&& mdioAddrWrite == 0
  | .descriptor => [Reg.rxRingPhysAddr, Reg.rxRingNextDescPhysAddr, Reg.ringSize].all fun a =>
    decide (a ∉ touched addr val)

/-- A store to memory that does not open the gate: it does not set `NV_RX_AVAIL`, the top bit of the last
byte, in the current descriptor. -/
def Gate.unstored (s : State) (addr : Nat) (bytes : List Byte) : Gate → Bool
  | .descriptor =>
    let last := (s.curDescAddr rxRing).toNat + 7
    decide (last < addr) || bytes[last - addr]?.all fun b => !b.msb
  | _ => true

/-- The guest and the network, as far as reception goes. While a frame for the guest is parked, a gate that
is closed stays closed. A write to a filter register decides itself which frames are for the guest. -/
def rxOrderly (s : State) : Event → Bool
  | .mmioWrite addr val size =>
    let val := val &&& State.sizeMask size
    !allowed addr size || !s.queue.any (s.setRegExt addr val size).wanted ||
      gates.any fun g => s.closed g && g.spared addr val
  | .store addr bytes =>
    !s.queue.any s.wanted || gates.any fun g => s.closed g && g.unstored s addr bytes
  | .frame data => !data.isEmpty && decide (s.queue.length < State.nqMaxlen)
  | .mmioRead _ _ | .ioWrite _ _ | .elapse _ => true
  | .setLink _ | .reset | .savevm | .loadvm _ => false

section

variable {s s' : State} {p : Packet} {ret : Int}

theorem canRx_eq_false_iff : s.canRx = false ↔ ∃ g ∈ gates, s.closed g = true := by
  rw [State.canRx]
  cases hrx : s.rxEnabled <;> cases hdma : s.dmaEnabled <;> cases hlink : s.linkUp <;>
    simp [gates, State.closed, hrx, hdma, hlink]

theorem wanted_congr (h : ∀ a ∈ filterRegs, s'.getReg a = s.getReg a) (p : Packet) :
    s'.wanted p = s.wanted p := by
  simp only [filterRegs, forall_mem_cons] at h
  obtain ⟨hfilter, hmacA, hmacB, haddrA, haddrB, hmaskA, hmaskB, -⟩ := h
  unfold State.wanted State.receiveFilter State.etherAddr
  rw [hfilter, hmacA, hmacB, haddrA, haddrB, hmaskA, hmaskB]

/-- Only the store itself matters to the filter. -/
theorem nvnetMmioWrite_wanted {addr size : Nat} {val : Word} (h : s.nvnetMmioWrite addr val size = some s')
    (p : Packet) : s'.wanted p = (s.setRegExt addr val size).wanted p := by
  by_cases hfilter : addr ∈ filterRegs
  · have hplain : ∀ a ∈ filterRegs, s.nvnetMmioWrite a val size = some (s.setRegExt a val size) := by
      simp only [filterRegs, forall_mem_cons]
      exact ⟨rfl, rfl, rfl, rfl, rfl, rfl, rfl, nofun⟩
    rw [some.inj (h.symm.trans (hplain addr hfilter))]
  · have hne {a : Nat} (ha : a ∈ filterRegs) : a ≠ addr := fun heq => hfilter (heq ▸ ha)
    have hside : ∀ a ∈ filterRegs, a ∉ sideRegs := by decide
    rw [wanted_congr fun a ha =>
      (Writes.nvnetMmioWrite h).getReg a (not_mem_touched (hne ha) (hside a ha))]
    refine (wanted_congr (fun a ha => ?_) p).symm
    rw [State.setRegExt, State.getReg_setReg, if_neg (hne ha)]

theorem descriptor_closed (hregs : ∀ a ∈ [Reg.rxRingPhysAddr, Reg.rxRingNextDescPhysAddr, Reg.ringSize],
      s'.getReg a = s.getReg a)
    (hbyte : Below (s'.memory ((s.curDescAddr rxRing).toNat + 7)) (s.memory ((s.curDescAddr rxRing).toNat + 7)))
    (h : s.closed .descriptor = true) : s'.closed .descriptor = true := by
  have hcur : s'.curDescAddr rxRing = s.curDescAddr rxRing := by
    simp only [forall_mem_cons] at hregs
    obtain ⟨hphys, hnext, hsize, -⟩ := hregs
    unfold State.curDescAddr State.maxDescAddr State.getRingSize rxRing
    dsimp only
    rw [hphys, hnext, hsize]
  rw [State.closed, not_eq_true', State.loadRingDesc, RingDesc.avail_load] at h ⊢
  rw [hcur, eq_false_iff]
  intro hset
  rw [hbyte hset] at h
  cases h

theorem receiver_closed {size : Nat} {val : Word} (hsize : allowed Reg.receiverControl size = true)
    (hval : val &&& receiverControlStart = 0) :
    (s.setRegExt Reg.receiverControl val size).closed .receiver = true := by
  have hmask : State.sizeMask size &&& receiverControlStart = receiverControlStart := by
    simp only [allowed, and_eq_true, or_eq_true, beq_iff_eq] at hsize
    rcases hsize.1.1 with (rfl | rfl) | rfl <;> decide
  have hbit : ((s.getReg Reg.receiverControl &&& ~~~State.sizeMask size) ||| (val &&& State.sizeMask size)) &&&
      receiverControlStart = 0 := by grind
  rw [State.closed, State.rxEnabled, State.setRegExt, State.getReg_setReg, if_pos rfl, hbit]
  rfl

theorem dma_closed {size : Nat} {val : Word} (hval : val &&& txRxControlBit2 ≠ 0)
    (h : s.nvnetMmioWrite Reg.txRxControl val size = some s') : s'.closed .dma = true := by
  have hbit : ((s.getReg Reg.txRxControl &&& (val ||| ~~~(~~~txRxControlIdle))) |||
      (val &&& ~~~txRxControlIdle)) &&& txRxControlBit2 = val &&& txRxControlBit2 := by
    have hidle : ~~~txRxControlIdle &&& txRxControlBit2 = txRxControlBit2 := by decide
    grind
  obtain ⟨m, hwrite, rfl⟩ := map_eq_some_iff.mp h
  have hoff : (s.setRegWithMask Reg.txRxControl val (~~~txRxControlIdle)).dmaEnabled = false := by
    rw [State.dmaEnabled, State.setRegWithMask, State.getReg_setReg, if_pos rfl, hbit, beq_eq_false_iff_ne]
    exact hval
  -- With DMA off a kick does nothing.
  have hm : m = s.setRegWithMask Reg.txRxControl val (~~~txRxControlIdle) := by
    have hidle : (s.setRegWithMask Reg.txRxControl val (~~~txRxControlIdle)).canTransmit = false := by
      rw [State.canTransmit, hoff, Bool.and_false, Bool.false_and]
    rw [State.writeControl, State.dmaPacketFromGuest, hidle] at hwrite
    simpa using hwrite.symm
  have hclosed : m.dmaEnabled = false := hm ▸ hoff
  rw [State.closed, not_eq_true', ← hclosed]
  dsimp only
  split <;> split <;> first | rfl | (split <;> rfl)

theorem nvnetMmioWrite_closed {addr size : Nat} {val : Word} {g : Gate} (hsize : allowed addr size = true)
    (h : s.nvnetMmioWrite addr val size = some s') (hclosed : s.closed g = true)
    (hspared : g.spared addr val = true) : s'.closed g = true := by
  have hwrites := Writes.nvnetMmioWrite h
  cases g with
  | receiver =>
    by_cases haddr : addr = Reg.receiverControl
    · subst haddr
      cases h
      exact receiver_closed hsize (by simpa [Gate.spared] using hspared)
    · have hreg := hwrites.getReg Reg.receiverControl (not_mem_touched (Ne.symm haddr) (by decide))
      rwa [State.closed, State.rxEnabled, hreg]
  | dma =>
    by_cases haddr : addr = Reg.txRxControl
    · subst haddr
      exact dma_closed (by simpa [Gate.spared] using hspared) h
    · have hreg := hwrites.getReg Reg.txRxControl (not_mem_touched (Ne.symm haddr) (by decide))
      rwa [State.closed, State.dmaEnabled, hreg]
  | link =>
    have hphy : (addr == Reg.mdioAddr && val &&& mdioAddrWrite != 0) = false := by
      simpa [Gate.spared, imp_iff_not_or] using hspared
    have hsame := hwrites.phyRegs hphy
    rwa [State.closed, State.linkUp, hsame]
  | descriptor =>
    refine descriptor_closed (fun a ha => hwrites.getReg a ?_) (hwrites.memory _) hclosed
    exact of_decide_eq_true (all_eq_true.mp hspared a ha)

end

/-! ## A frame that meets a ready device -/

variable {s s' : State} {p : Packet} {ret : Int}

theorem canRx_updateCurrent (s : State) : s.updateCurrentRxRingDescAddr.canRx = s.canRx := rfl

theorem dmaPacketToGuest_of_not_canRx (hcan : s.canRx = false) :
    s.dmaPacketToGuest p = some (-1, s.updateCurrentRxRingDescAddr) :=
  if_neg (by rw [hcan]; exact false_ne_true)

theorem dmaPacketToGuest_of_canRx (p : Packet) (hcan : s.canRx = true) :
    ∃ m, SameRx { s with written := s.written ++ [((s.curDescAddr rxRing).toNat, p)] } m ∧
      (∀ q, m.wanted q = s.wanted q) ∧ s.dmaPacketToGuest p =
        if p.data.length ≤ (s.loadRingDesc (s.curDescAddr rxRing)).length.toNat + 1 then
          some ((p.data.length : Int), m)
        else none := by
  have havail : (s.loadRingDesc (s.curDescAddr rxRing)).avail = true := by
    rw [State.canRx, and_eq_true] at hcan
    exact hcan.2
  refine ⟨_, ?_, wanted_congr fun a ha => ?_, (if_pos hcan).trans (if_pos havail)⟩
  · refine .trans ?_ (SameRx.setDmaIdle _ true)
    exact ⟨rfl, rfl, rfl, rfl, rfl, rfl, rfl⟩
  · revert a
    simp only [filterRegs, forall_mem_cons]
    exact ⟨rfl, rfl, rfl, rfl, rfl, rfl, rfl, nofun⟩

theorem data_length_ne_zero (hdata : p.data ≠ []) : (p.data.length : Int) ≠ 0 :=
  Int.natCast_ne_zero.mpr fun h => hdata (eq_nil_of_length_eq_zero h)

theorem deliver_of_ready (hlink : s.linkDown = false) (henabled : s.receiveDisabled = false)
    (hcan : s.canRx = true) (hdata : p.data ≠ []) (h : s.deliver p = some (ret, s')) :
    ret ≠ 0 ∧ (∀ q, s'.wanted q = s.wanted q) ∧
      ((∃ addr, SameRx { s with written := s.written ++ [(addr, p)] } s') ∨
        SameRx { s with refused := s.refused ++ [p] } s') := by
  have hlength := data_length_ne_zero hdata
  unfold State.deliver at h
  rw [if_neg (by rw [hlink]; exact false_ne_true), if_neg (by rw [henabled]; exact false_ne_true)] at h
  obtain ⟨⟨ret', m⟩, hreceive, heq⟩ := map_eq_some_iff.mp h
  cases heq
  unfold State.nvnetReceive at hreceive
  split at hreceive
  · cases hreceive
    refine ⟨hlength, fun _ => rfl, .inr ?_⟩
    exact ⟨rfl, (beq_eq_false_iff_ne.mpr hlength).trans henabled.symm, rfl, rfl, rfl, rfl, rfl⟩
  · obtain ⟨m', hm, hwanted, heq⟩ := dmaPacketToGuest_of_canRx p hcan
    rw [heq] at hreceive
    split at hreceive
    · cases hreceive
      refine ⟨hlength, hwanted, .inl ⟨(s.curDescAddr rxRing).toNat, ?_⟩⟩
      exact { hm with receiveDisabled := (beq_eq_false_iff_ne.mpr hlength).trans henabled.symm }
    · cases hreceive

theorem deliver_of_unwanted (hlink : s.linkDown = false) (henabled : s.receiveDisabled = false)
    (hwanted : s.wanted p = false) (hdata : p.data ≠ []) : s.deliver p =
      some ((p.data.length : Int), { s with refused := s.refused ++ [p], receiveDisabled := false }) := by
  have hdrop : rxAllocBufsize < p.data.length ∨ s.receiveFilter p.data = false := by
    rw [State.wanted, and_eq_false_iff, decide_eq_false_iff_not, not_le] at hwanted
    exact hwanted
  have hlength : ((p.data.length : Int) == 0) = false := beq_eq_false_iff_ne.mpr (data_length_ne_zero hdata)
  unfold State.deliver
  rw [if_neg (by rw [hlink]; exact false_ne_true), if_neg (by rw [henabled]; exact false_ne_true),
    State.nvnetReceive, if_pos hdrop]
  exact congrArg (fun receiveDisabled => some ((p.data.length : Int),
    { s with refused := s.refused ++ [p], receiveDisabled })) hlength

/-- A flush finds the parked frames one by one; those that are not for the guest are dropped. -/
theorem flush_of_unwanted {ps : List Packet} (hlink : s.linkDown = false) (henabled : s.receiveDisabled = false)
    (hps : ∀ p ∈ ps, s.wanted p = false ∧ p.data ≠ []) : State.flush ps s =
      some { s with queue := [], refused := s.refused ++ ps, receiveDisabled := false } := by
  induction ps generalizing s with
  | nil => simp [State.flush, ← henabled]
  | cons p ps ih =>
    obtain ⟨⟨hwanted, hdata⟩, hps⟩ := forall_mem_cons.mp hps
    have hdeliver := deliver_of_unwanted (s := { s with queue := ps }) hlink henabled hwanted hdata
    rw [State.flush, hdeliver, bind_some]
    dsimp only
    rw [if_neg (data_length_ne_zero hdata)]
    refine (ih (s := { s with queue := ps, refused := s.refused ++ [p], receiveDisabled := false })
      hlink rfl hps).trans ?_
    simp

/-! ## Order of arrival -/

/-- Frames are in order, and none for the guest waits at an open gate. -/
structure RxInv (s : State) : Prop where
  linkDown : s.linkDown = false
  enabled : s.receiveDisabled = false
  timer : s.autonegTimer = none
  parked : ∀ p ∈ s.queue, p.data ≠ []
  waits : s.canRx = true → ∀ p ∈ s.queue, s.wanted p = false
  order : (s.written.map fun w => w.2.id).Pairwise (· < ·)
  early : ∀ w ∈ s.written, w.2.id < s.arrived
  kept : ∀ n < s.arrived, (∃ w ∈ s.written, w.2.id = n) ∨ ∃ p ∈ s.refused ++ s.queue, p.id = n

theorem RxInv.same (hinv : RxInv s) (h : SameRx s s')
    (hwaits : s'.canRx = true → ∀ p ∈ s.queue, s'.wanted p = false) : RxInv s' where
  linkDown := h.linkDown.trans hinv.linkDown
  enabled := h.receiveDisabled.trans hinv.enabled
  timer := h.autonegTimer.trans hinv.timer
  parked := by rw [h.queue]; exact hinv.parked
  waits := by rw [h.queue]; exact hwaits
  order := by rw [h.written]; exact hinv.order
  early := by rw [h.written, h.arrived]; exact hinv.early
  kept := by rw [h.written, h.arrived, h.refused, h.queue]; exact hinv.kept

/-- The next frame is written behind the others, dropped or parked, and no parked frame gets lost. -/
theorem RxInv.next (hinv : RxInv s) (new : Packet) (hid : new.id = s.arrived)
    (hsame : s'.linkDown = false ∧ s'.receiveDisabled = false ∧ s'.autonegTimer = none ∧
      s'.arrived = s.arrived + 1)
    (hparked : ∀ p ∈ s'.queue, p.data ≠ []) (hwaits : s'.canRx = true → ∀ p ∈ s'.queue, s'.wanted p = false)
    (hold : s.refused ++ s.queue ⊆ s'.refused ++ s'.queue)
    (hnew : (∃ addr, s'.written = s.written ++ [(addr, new)]) ∨
      s'.written = s.written ∧ new ∈ s'.refused ++ s'.queue) : RxInv s' := by
  obtain ⟨hlink, henabled, htimer, harrived⟩ := hsame
  have hwritten : s.written ⊆ s'.written := by
    rcases hnew with ⟨addr, heq⟩ | ⟨heq, -⟩ <;> rw [heq]
    · exact subset_append_left _ _
    · exact Subset.refl _
  have hearly : ∀ w ∈ s'.written, w.2.id < s'.arrived := by
    intro w hw
    rw [harrived]
    rcases hnew with ⟨addr, heq⟩ | ⟨heq, -⟩ <;> rw [heq] at hw
    · rcases mem_append.mp hw with hw | hw
      · exact Nat.lt_succ_of_lt (hinv.early w hw)
      · cases mem_singleton.mp hw
        exact hid ▸ Nat.lt_succ_self _
    · exact Nat.lt_succ_of_lt (hinv.early w hw)
  refine ⟨hlink, henabled, htimer, hparked, hwaits, ?_, hearly, fun n hn => ?_⟩
  · rcases hnew with ⟨addr, heq⟩ | ⟨heq, -⟩ <;> rw [heq]
    · rw [map_append, pairwise_append]
      refine ⟨hinv.order, pairwise_singleton .., ?_⟩
      intro a ha b hb
      obtain ⟨w, hw, rfl⟩ := mem_map.mp ha
      rw [mem_singleton.mp hb]
      exact (hinv.early w hw).trans_eq hid.symm
    · exact hinv.order
  · rcases Nat.lt_succ_iff_lt_or_eq.mp (harrived ▸ hn) with hn | rfl
    · rcases hinv.kept n hn with ⟨w, hw, hn⟩ | ⟨p, hp, hn⟩
      · exact .inl ⟨w, hwritten hw, hn⟩
      · exact .inr ⟨p, hold hp, hn⟩
    · rcases hnew with ⟨addr, heq⟩ | ⟨-, hmem⟩
      · exact .inl ⟨_, heq ▸ mem_append_right _ mem_cons_self, hid⟩
      · exact .inr ⟨new, hmem, hid⟩

theorem RxInv.arrive {data : List Byte} (hinv : RxInv s) (hdata : data ≠ [])
    (hroom : s.queue.length < State.nqMaxlen) (h : s.arrive data = some s') : RxInv s' := by
  have hready : State.qemuCanReceivePacket { s with arrived := s.arrived + 1 } =
      (s.canRx, State.updateCurrentRxRingDescAddr { s with arrived := s.arrived + 1 }) := by
    rw [State.qemuCanReceivePacket, if_neg (by rw [hinv.enabled]; exact false_ne_true)]
    rfl
  unfold State.arrive at h
  dsimp only at h
  rw [hready] at h
  cases hcan : s.canRx with
  | true =>
    rw [if_pos hcan] at h
    obtain ⟨⟨ret, m⟩, hdeliver, hrest⟩ := bind_eq_some_iff.mp h
    obtain ⟨hret, hwanted, hcases⟩ := deliver_of_ready
      (s := State.updateCurrentRxRingDescAddr { s with arrived := s.arrived + 1 })
      (p := { id := s.arrived, data }) hinv.linkDown hinv.enabled
      ((canRx_updateCurrent s).trans hcan) hdata hdeliver
    have hqueue : m.queue = s.queue := by rcases hcases with ⟨addr, hm⟩ | hm <;> exact hm.queue
    have hlink : m.linkDown = false := by
      rcases hcases with ⟨addr, hm⟩ | hm <;> exact hm.linkDown.trans hinv.linkDown
    have henabled : m.receiveDisabled = false := by
      rcases hcases with ⟨addr, hm⟩ | hm <;> exact hm.receiveDisabled.trans hinv.enabled
    have hunwanted : ∀ p ∈ m.queue, m.wanted p = false ∧ p.data ≠ [] := by
      rw [hqueue]
      exact fun p hp => ⟨(hwanted p).trans (hinv.waits hcan p hp), hinv.parked p hp⟩
    rw [if_neg hret, flush_of_unwanted hlink henabled hunwanted] at hrest
    cases hrest
    rcases hcases with ⟨addr, hm⟩ | hm
    · refine hinv.next ⟨s.arrived, data⟩ rfl
        ⟨hlink, rfl, hm.autonegTimer.trans hinv.timer, hm.arrived⟩ nofun (fun _ => nofun) ?_
        (.inl ⟨addr, hm.written⟩)
      dsimp only
      rw [hm.refused, hqueue, append_nil]
      exact Subset.refl _
    · refine hinv.next ⟨s.arrived, data⟩ rfl
        ⟨hlink, rfl, hm.autonegTimer.trans hinv.timer, hm.arrived⟩ nofun (fun _ => nofun) ?_
        (.inr ⟨hm.written, ?_⟩) <;> dsimp only <;> rw [hm.refused, append_nil]
      · rw [hqueue]
        intro p hp
        rcases mem_append.mp hp with hp | hp
        · exact mem_append_left _ (mem_append_left _ hp)
        · exact mem_append_right _ hp
      · exact mem_append_left _ (mem_append_right _ mem_cons_self)
  | false =>
    rw [if_neg (by rw [hcan]; exact false_ne_true)] at h
    cases h
    unfold State.append
    rw [if_neg (by exact not_le.mpr hroom)]
    refine hinv.next ⟨s.arrived, data⟩ rfl ⟨hinv.linkDown, hinv.enabled, hinv.timer, rfl⟩
      (fun p hp => ?_) (fun hcan' => ?_) ?_ (.inr ⟨rfl, ?_⟩)
    · rcases mem_append.mp hp with hp | hp
      · exact hinv.parked p hp
      · rw [mem_singleton.mp hp]
        exact hdata
    · have hsame : s.canRx = true := hcan'
      rw [hcan] at hsame
      cases hsame
    · exact append_subset.mpr ⟨subset_append_left _ _, fun p hp => mem_append_right _ (mem_append_left _ hp)⟩
    · exact mem_append_right _ (mem_append_right _ mem_cons_self)

theorem store_closed {addr : Nat} {bytes : List Byte} {g : Gate} (hclosed : s.closed g = true)
    (hstore : g.unstored s addr bytes = true) :
    State.closed { s with memory := writeBytes s.memory addr bytes } g = true := by
  cases g with
  | receiver | dma | link => exact hclosed
  | descriptor =>
    refine descriptor_closed (s := s) (fun _ _ => rfl) ?_ hclosed
    rw [Gate.unstored, or_eq_true, decide_eq_true_iff] at hstore
    dsimp only [writeBytes]
    split
    · next hle =>
      have hall := hstore.resolve_left (not_lt.mpr hle)
      cases hbyte : bytes[(s.curDescAddr rxRing).toNat + 7 - addr]? with
      | none => exact id
      | some b =>
        intro hset
        simp_all
    · exact id

/-- What a guest store may do is asked of the state before it; the device keeps the rest. -/
theorem step_rxInv (s : State) (e : Event) (s' : State) (hinv : RxInv s) (hok : rxOrderly s e = true)
    (h : step s e = some s') : RxInv s' := by
  cases e with
  | mmioWrite addr val size =>
    simp only [step] at h
    split at h
    · next hsize =>
      refine hinv.same (Writes.nvnetMmioWrite h).toSameRx fun hcan p hp => ?_
      simp only [rxOrderly, hsize, Bool.not_true, Bool.false_or, or_eq_true, not_eq_true',
        List.any_eq_true, and_eq_true] at hok
      rcases hok with hqueue | ⟨g, hg, hclosed, hspared⟩
      · rw [nvnetMmioWrite_wanted h]
        exact eq_false_of_not_eq_true (List.any_eq_false.mp hqueue p hp)
      · have hshut := canRx_eq_false_iff.mpr ⟨g, hg, nvnetMmioWrite_closed hsize h hclosed hspared⟩
        rw [hshut] at hcan
        cases hcan
    · cases h
      exact hinv
  | mmioRead | ioWrite =>
    cases h
    exact hinv
  | store addr bytes =>
    cases h
    refine hinv.same ⟨rfl, rfl, rfl, rfl, rfl, rfl, rfl⟩ fun hcan p hp => ?_
    simp only [rxOrderly, or_eq_true, not_eq_true', List.any_eq_true, and_eq_true] at hok
    rcases hok with hqueue | ⟨g, hg, hclosed, hstore⟩
    · exact eq_false_of_not_eq_true (List.any_eq_false.mp hqueue p hp)
    · have hshut := canRx_eq_false_iff.mpr ⟨g, hg, store_closed hclosed hstore⟩
      rw [hshut] at hcan
      cases hcan
  | frame data =>
    rw [rxOrderly, and_eq_true, decide_eq_true_iff, not_eq_true', isEmpty_eq_false_iff] at hok
    exact hinv.arrive hok.1 hok.2 h
  | elapse ms =>
    simp only [step, hinv.timer] at h
    cases h
    exact { hinv with timer := rfl }
  | setLink | reset | savevm | loadvm => cases hok

theorem rxInv_init (memory : Nat → Byte) : RxInv (init memory) where
  linkDown := rfl
  enabled := rfl
  timer := rfl
  parked := nofun
  waits _ := nofun
  order := .nil
  early := nofun
  kept := nofun

/-- In every run in which a gate stays closed while a frame for the guest is parked: frames are written in
the order of their arrival and each at most once, every frame that arrived is written, was not for the
guest or is parked, and no frame for the guest is parked while the device can receive. -/
theorem frames_in_order (memory : Nat → Byte) {es : List Event} {s : State}
    (hmeets : Meets step (fun s e => rxOrderly s e = true) (init memory) es)
    (hrun : run step (init memory) es = some s) :
    (s.written.map fun w => w.2.id).Pairwise (· < ·) ∧
      (∀ n < s.arrived, (∃ w ∈ s.written, w.2.id = n) ∨ (∃ p ∈ s.refused, p.id = n) ∨
        ∃ p ∈ s.queue, p.id = n) ∧
      (s.canRx = true → ∀ p ∈ s.queue, rxAllocBufsize < p.data.length ∨ s.receiveFilter p.data = false) := by
  have hinv := run_invariant_of_meets RxInv step_rxInv (rxInv_init memory) hmeets hrun
  refine ⟨hinv.order, fun n hn => ?_, fun hcan p hp => ?_⟩
  · refine (hinv.kept n hn).imp_right ?_
    rintro ⟨p, hp, hid⟩
    exact (mem_append.mp hp).imp (⟨p, ·, hid⟩) (⟨p, ·, hid⟩)
  · have hwanted := hinv.waits hcan p hp
    rw [State.wanted, and_eq_false_iff, decide_eq_false_iff_not, not_le] at hwanted
    exact hwanted

def receiverOn : List Event :=
  [.mmioWrite Reg.rxRingPhysAddr 0x1000 4, .mmioWrite Reg.ringSize 0x00010000 4,
   .mmioWrite Reg.receiverControl receiverControlStart 4]

def offerBoth : List Event :=
  [.store 0x1000 (RingDesc.bytes { bufferAddr := 0x2000, length := 0x5FF, flags := rxAvail }),
   .store 0x1008 (RingDesc.bytes { bufferAddr := 0x3000, length := 0x5FF, flags := rxAvail })]

def broadcast : Event := .frame State.broadcastEtherAddr

/-- The guest takes only its own frames, those to the address 02:00:00:00:00:01. -/
def ownFrames : List Event :=
  [.mmioWrite Reg.macAddrA 0x00000002 4, .mmioWrite Reg.macAddrB 0x0100 4,
   .mmioWrite Reg.multicastAddrA 0xFFFFFFFF 4, .mmioWrite Reg.multicastAddrB 0xFFFF 4,
   .mmioWrite Reg.packetFilter packetFilterMyaddr 4]

/-- A frame for another machine is parked before the ring is offered, and dropped when the next one comes.
The last frame is parked, and stays so while the guest acknowledges the interrupt and stores to a buffer. -/
def offered : List Event :=
  ownFrames ++ receiverOn ++ [.frame [4, 0, 0, 0, 0, 9]] ++ offerBoth ++
    [.frame [2, 0, 0, 0, 0, 1], broadcast, broadcast, .mmioWrite Reg.irqStatus irqStatusRx 4,
      .store 0x2000 [0xFF]]

theorem frames_in_order_offered :
    ∃ s, run step (init fun _ => 0) offered = some s ∧
      s.written.map (fun w => (w.1, w.2.id)) = [(0x1000, 1), (0x1008, 2)] ∧
      s.refused.map Packet.id = [0] ∧ s.queue.map Packet.id = [3] ∧
      (s.written.map fun w => w.2.id).Pairwise (· < ·) ∧
      (s.canRx = true → ∀ p ∈ s.queue, rxAllocBufsize < p.data.length ∨ s.receiveFilter p.data = false) := by
  obtain ⟨s, hrun, hwritten, hrefused, hqueue⟩ : ∃ s, run step (init fun _ => 0) offered = some s ∧
      s.written.map (fun w => (w.1, w.2.id)) = [(0x1000, 1), (0x1008, 2)] ∧
      s.refused.map Packet.id = [0] ∧ s.queue.map Packet.id = [3] := by decide +kernel
  have hall := frames_in_order _ (by decide +kernel) hrun
  exact ⟨s, hrun, hwritten, hrefused, hqueue, hall.1, hall.2.2⟩

theorem elapse_written {times : List Nat} (h : run step s (times.map Event.elapse) = some s') :
    s'.written = s.written := by
  induction times generalizing s with
  | nil =>
    cases h
    rfl
  | cons ms times ih =>
    obtain ⟨m, hm, hrest⟩ := run_cons_eq_some.mp h
    rw [ih hrest]
    simp only [step] at hm
    split at hm <;> cases hm
    · split
      · unfold State.autonegExpired
        split <;> rfl
      · rfl
    · rfl

/-- A parked frame stays parked when the guest offers descriptors, for as long as only time passes, and
the next frame overtakes it. -/
theorem parked_frame_stays :
    ∃ s, run step (init fun _ => 0) (receiverOn ++ [broadcast] ++ offerBoth) = some s ∧
      s.canRx = true ∧ s.queue.length = 1 ∧
      (∀ (times : List Nat) (s' : State), run step s (times.map Event.elapse) = some s' → s'.written = []) ∧
      (step s broadcast).map (fun s' => s'.written.map fun w => w.2.id) = some [1, 0] := by
  obtain ⟨s, hrun, hcan, hqueue, hwritten, hnext⟩ : ∃ s,
      run step (init fun _ => 0) (receiverOn ++ [broadcast] ++ offerBoth) = some s ∧
      s.canRx = true ∧ s.queue.length = 1 ∧ s.written.length = 0 ∧
      (step s broadcast).map (fun s' => s'.written.map fun w => w.2.id) = some [1, 0] := by
    decide +kernel
  refine ⟨s, hrun, hcan, hqueue, fun times s' hrest => ?_, hnext⟩
  rw [elapse_written hrest]
  exact eq_nil_of_length_eq_zero hwritten

end XogMobile.Nvnet
