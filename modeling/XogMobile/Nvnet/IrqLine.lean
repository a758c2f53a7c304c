import XogMobile.Nvnet.Machine

/-!
# The interrupt line follows the status and mask registers

Every store to the status or the mask register is followed by `update_irq`, with one exception: a
write to `NVNET_TX_RX_CONTROL` with bit 1 clears the status and leaves the line as it was.
-/

namespace XogMobile.Nvnet

open Lib

namespace State

def LineMatches (s : State) : Prop := s.irq = (s.pending != 0)

instance (s : State) : Decidable s.LineMatches := inferInstanceAs (Decidable (_ = _))

end State

def Saved.LineMatches (x : Saved) : Prop :=
  x.irq = (x.regs Reg.irqMask &&& x.regs Reg.irqStatus != 0)

/-- What the device's functions do to the line: nothing that makes it disagree. -/
structure Keeps (s s' : State) : Prop where
  line : s.LineMatches → s'.LineMatches
  saved : s'.saved = s.saved

section

variable {s s' s'' : State}

theorem Keeps.refl (s : State) : Keeps s s := ⟨id, rfl⟩

theorem Keeps.trans (h : Keeps s s') (h' : Keeps s' s'') : Keeps s s'' :=
  ⟨fun hs => h'.line (h.line hs), h'.saved.trans h.saved⟩

theorem Keeps.ite {p : Prop} [Decidable p] (h : Keeps s s') (h' : Keeps s s'') : Keeps s (if p then s' else s'') := by
  split
  · exact h
  · exact h'

theorem Keeps.of_eq (hregs : s'.regs = s.regs) (hirq : s'.irq = s.irq) (hsaved : s'.saved = s.saved) : Keeps s s' := by
  refine ⟨fun hs => ?_, hsaved⟩
  show s'.irq = (s'.regs Reg.irqMask &&& s'.regs Reg.irqStatus != 0)
  rw [hregs, hirq]
  exact hs

variable {addr : Nat} {val : Word} {r : RingRegs} {p : Packet} {ret : Int}

theorem keeps_setReg (hstatus : Reg.irqStatus ≠ addr) (hmask : Reg.irqMask ≠ addr) : Keeps s (s.setReg addr val) := by
  refine ⟨fun hs => ?_, rfl⟩
  show s.irq = _
  simp only [State.pending, State.getReg_setReg, if_neg hstatus, if_neg hmask]
  exact hs

theorem keeps_updateIrq (hsaved : s'.saved = s.saved) : Keeps s s'.updateIrq := ⟨fun _ => rfl, hsaved⟩

theorem keeps_setIntrStatus (status : Word) : Keeps s (s.setIntrStatus status) := keeps_updateIrq rfl

theorem keeps_setDmaIdle (idle : Bool) : Keeps s (s.setDmaIdle idle) := by
  apply Keeps.ite
  · exact keeps_setReg (by decide) (by decide)
  · exact keeps_setReg (by decide) (by decide)

theorem keeps_setPhy (reg : Nat) (val : Word) : Keeps s (s.setPhy reg val) := .of_eq rfl rfl rfl

/-! ## Link, PHY and reset -/

theorem keeps_updateRegsOnLinkDown : Keeps s s.updateRegsOnLinkDown := by
  refine .trans ?_ (keeps_setReg (by decide) (by decide))
  exact .of_eq rfl rfl rfl

theorem keeps_setLinkUp : Keeps s s.setLinkUp := keeps_updateIrq rfl

theorem keeps_nvnetSetLinkStatus : Keeps s s.nvnetSetLinkStatus := by
  apply Keeps.ite
  · exact keeps_updateIrq rfl
  · exact Keeps.ite (.of_eq rfl rfl rfl) keeps_setLinkUp

theorem keeps_autonegExpired : Keeps s s.autonegExpired := Keeps.ite (.refl s) (keeps_updateIrq rfl)

theorem keeps_mdioRead : Keeps s s.mdioRead := by
  refine .trans ?_ (keeps_setReg (by decide) (by decide))
  exact keeps_setReg (by decide) (by decide)

theorem keeps_phyRegWrite (reg : Nat) (value : BitVec 16) : Keeps s (s.phyRegWrite reg value) :=
  Keeps.ite (keeps_setPhy ..) (.refl s)

theorem keeps_mdioWrite : Keeps s s.mdioWrite := by
  refine .trans ?_ (keeps_setReg (by decide) (by decide))
  exact Keeps.ite (keeps_phyRegWrite ..) (.refl s)

/-! ## Rings -/

theorem keeps_updateCurrent (hstatus : Reg.irqStatus ≠ r.currentDesc)
    (hmask : Reg.irqMask ≠ r.currentDesc) : Keeps s (s.updateCurrentRingDescAddr r) :=
  keeps_setReg hstatus hmask

theorem keeps_advanceNext (hstatus : Reg.irqStatus ≠ r.nextDesc)
    (hmask : Reg.irqMask ≠ r.nextDesc) : Keeps s (s.advanceNextRingDescAddr r) :=
  keeps_setReg hstatus hmask

theorem keeps_resetDescriptorRingPointers : Keeps s s.resetDescriptorRingPointers := by
  iterate 3 refine .trans ?_ (keeps_setReg (by decide) (by decide))
  exact keeps_setReg (by decide) (by decide)

theorem keeps_dmaLoop {n : Nat} {sent : Bool} (h : State.dmaLoop n s = some (sent, s')) : Keeps s s' := by
  induction n generalizing s with
  | zero =>
    cases h
    exact .refl _
  | succ n ih =>
    have hcur : Keeps s s.updateCurrentTxRingDescAddr := keeps_updateCurrent (by decide) (by decide)
    rw [State.dmaLoop] at h
    split at h
    · split at h
      · split at h
        · -- the last descriptor of a frame
          cases h
          refine hcur.trans (.trans ?_ (keeps_advanceNext (by decide) (by decide)))
          exact .of_eq rfl rfl rfl
        · refine hcur.trans (.trans ?_ (ih h))
          refine .trans ?_ (keeps_advanceNext (by decide) (by decide))
          exact .of_eq rfl rfl rfl
      · cases h
    · cases h
      exact hcur

theorem keeps_dmaPacketFromGuest (h : s.dmaPacketFromGuest = some s') : Keeps s s' := by
  unfold State.dmaPacketFromGuest at h
  split at h
  · obtain ⟨⟨sent, m⟩, hloop, rfl⟩ := Option.map_eq_some_iff.mp h
    refine ((keeps_setDmaIdle false).trans (keeps_dmaLoop hloop)).trans ((keeps_setDmaIdle true).trans ?_)
    exact Keeps.ite (keeps_setIntrStatus _) (.refl _)
  · cases h
    exact .refl s

/-! ## Reception -/

theorem keeps_dmaPacketToGuest (h : s.dmaPacketToGuest p = some (ret, s')) : Keeps s s' := by
  have hcur : ∀ x : State, Keeps x x.updateCurrentRxRingDescAddr := fun _ => keeps_updateCurrent (by decide) (by decide)
  have hstart : Keeps s
      (s.updateCurrentRxRingDescAddr.setDmaIdle false).updateCurrentRxRingDescAddr :=
    (hcur s).trans ((keeps_setDmaIdle false).trans (hcur _))
  unfold State.dmaPacketToGuest State.nvnetCanReceive at h
  dsimp only at h
  split at h
  · split at h
    · split at h
      · cases h
        refine hstart.trans (.trans ?_ (keeps_setDmaIdle true))
        refine .trans ?_ (keeps_advanceNext (by decide) (by decide))
        refine .trans ?_ (keeps_setIntrStatus _)
        exact .of_eq rfl rfl rfl
      · cases h
    · cases h
      exact hstart.trans (keeps_setDmaIdle true)
  · cases h
    exact hcur s

theorem keeps_deliver (h : s.deliver p = some (ret, s')) : Keeps s s' := by
  unfold State.deliver at h
  split at h
  · cases h
    exact .of_eq rfl rfl rfl
  · split at h
    · cases h
      exact .refl s
    · obtain ⟨⟨r, m⟩, hreceive, heq⟩ := Option.map_eq_some_iff.mp h
      cases heq
      have hm : Keeps s m := by
        unfold State.nvnetReceive at hreceive
        split at hreceive
        · cases hreceive
          exact .of_eq rfl rfl rfl
        · exact keeps_dmaPacketToGuest hreceive
      apply hm.trans
      exact .of_eq rfl rfl rfl

theorem keeps_flush {ps : List Packet} (h : State.flush ps s = some s') : Keeps s s' := by
  induction ps generalizing s with
  | nil =>
    cases h
    exact .of_eq rfl rfl rfl
  | cons p ps ih =>
    obtain ⟨⟨ret, m⟩, hdeliver, hrest⟩ := Option.bind_eq_some_iff.mp h
    have hm : Keeps s m := by
      refine .trans ?_ (keeps_deliver hdeliver)
      exact .of_eq rfl rfl rfl
    dsimp only at hrest
    split at hrest
    · cases hrest
      apply hm.trans
      exact .of_eq rfl rfl rfl
    · exact hm.trans (ih hrest)

theorem keeps_append (p : Packet) : Keeps s (s.append p) := Keeps.ite (.refl s) (.of_eq rfl rfl rfl)

theorem keeps_qemuCanReceivePacket : Keeps s s.qemuCanReceivePacket.2 := by
  unfold State.qemuCanReceivePacket
  split
  · exact .refl s
  · exact keeps_updateCurrent (by decide) (by decide)

theorem keeps_arrive {data : List Byte} (h : s.arrive data = some s') : Keeps s s' := by
  simp only [State.arrive] at h
  have hready : Keeps s (State.qemuCanReceivePacket { s with arrived := s.arrived + 1 }).2 := by
    refine .trans ?_ keeps_qemuCanReceivePacket
    exact .of_eq rfl rfl rfl
  split at h
  · obtain ⟨⟨ret, m⟩, hdeliver, hrest⟩ := Option.bind_eq_some_iff.mp h
    have hm := hready.trans (keeps_deliver hdeliver)
    split at hrest
    · cases hrest
      exact hm.trans (keeps_append _)
    · exact hm.trans (keeps_flush hrest)
  · cases h
    exact hready.trans (keeps_append _)

/-! ## One step -/

theorem keeps_writeControl (h : s.writeControl val = some s') : Keeps s s' := by
  have hstore : Keeps s (s.setRegWithMask Reg.txRxControl val (~~~txRxControlIdle)) :=
    keeps_setReg (by decide) (by decide)
  unfold State.writeControl at h
  split at h
  · exact hstore.trans (keeps_dmaPacketFromGuest h)
  · cases h
    exact hstore

theorem keeps_clearStatus (hquiet : s.pending = 0) : Keeps s (s.setReg Reg.irqStatus 0) := by
  refine ⟨fun hs => ?_, rfl⟩
  have hlow : s.irq = false := by
    rw [show s.irq = (s.pending != 0) from hs, hquiet]
    rfl
  show s.irq = _
  rw [hlow, State.pending, State.getReg_setReg, State.getReg_setReg]
  simp

theorem pending_resetPointers : s.resetDescriptorRingPointers.pending = s.pending := by
  simp [State.pending, State.resetDescriptorRingPointers, Reg.irqStatus, Reg.irqMask,
    Reg.txRingCurrentDescPhysAddr, Reg.txRingNextDescPhysAddr, Reg.rxRingCurrentDescPhysAddr,
    Reg.rxRingNextDescPhysAddr]

/-- Whether a write clears the status register while an enabled interrupt is pending. -/
def clearsPending (s : State) (addr : Nat) (val : Word) : Bool :=
  addr == Reg.txRxControl && val &&& txRxControlBit1 != 0 &&
    (s.writeControl val).any fun s => s.pending != 0

theorem keeps_control {m : State} (hwrite : s.writeControl val = some m)
    (hclears : clearsPending s Reg.txRxControl val = false) :
    let m' := if val &&& txRxControlReset ≠ 0 then { m.resetDescriptorRingPointers with txDmaBuf := [] }
      else m
    Keeps s (if val &&& txRxControlBit1 ≠ 0 then m'.setReg Reg.irqStatus 0
      else if val = 0 then m'.setReg Reg.unknownSetupReg5 unknownSetupReg5Bit31 else m') := by
  intro m'
  have hm' : Keeps s m' := by
    apply (keeps_writeControl hwrite).trans
    refine Keeps.ite (.trans keeps_resetDescriptorRingPointers ?_) (.refl m)
    exact .of_eq rfl rfl rfl
  have hpending : m'.pending = m.pending := by
    show (if _ then _ else m : State).pending = _
    split
    · exact pending_resetPointers
    · rfl
  split
  · next hbit =>
    have hquiet : m.pending = 0 := by
      have hany := hclears
      simp only [clearsPending, hwrite, Option.any_some, BEq.rfl, Bool.true_and, Bool.and_eq_false_iff,
        bne_eq_false_iff_eq] at hany
      exact hany.resolve_left hbit
    exact hm'.trans (keeps_clearStatus (hpending.trans hquiet))
  · refine hm'.trans (Keeps.ite ?_ (.refl _))
    exact keeps_setReg (by decide) (by decide)

theorem keeps_nvnetMmioWrite {size : Nat} (hclears : clearsPending s addr val = false)
    (h : s.nvnetMmioWrite addr val size = some s') : Keeps s s' := by
  unfold State.nvnetMmioWrite at h
  split at h
  · cases h
  split at h
  · next haddr =>
    subst haddr
    split at h
    · cases h
      have hstore : Keeps s (s.setRegExt Reg.mdioAddr val size) := keeps_setReg (by decide) (by decide)
      exact hstore.trans (Keeps.ite keeps_mdioWrite keeps_mdioRead)
    · cases h
  split at h
  · next haddr =>
    subst haddr
    obtain ⟨m, hwrite, rfl⟩ := Option.map_eq_some_iff.mp h
    exact keeps_control hwrite hclears
  split at h
  · cases h
    exact keeps_updateIrq rfl
  split at h
  · cases h
    exact keeps_updateIrq rfl
  · next hstatus hmask =>
    cases h
    exact keeps_setReg (fun heq => hstatus (.inl heq.symm)) (fun heq => hmask heq.symm)

end

/-- The guest does not clear the status register through `NVNET_TX_RX_CONTROL` while an enabled
interrupt is pending. -/
def ClearsQuietly (s : State) : Event → Prop
  | .mmioWrite addr val size => clearsPending s addr (val &&& State.sizeMask size) = false
  | _ => True

instance (s : State) : (e : Event) → Decidable (ClearsQuietly s e)
  | .mmioWrite .. => inferInstanceAs (Decidable (_ = _))
  | .mmioRead .. | .ioWrite .. | .store .. | .frame _ | .setLink _ | .elapse _ | .reset | .savevm
  | .loadvm _ => isTrue trivial

structure LineInv (s : State) : Prop where
  line : s.LineMatches
  saved : ∀ x ∈ s.saved, x.LineMatches

variable {s : State}

theorem LineInv.keeps {s' : State} (hinv : LineInv s) (h : Keeps s s') : LineInv s' where
  line := h.line hinv.line
  saved := h.saved ▸ hinv.saved

theorem lineInv_nvnetReset (hsaved : ∀ x ∈ s.saved, x.LineMatches) : LineInv s.nvnetReset := by
  have hcleared : LineInv s.cleared := ⟨by simp [State.LineMatches, State.pending, State.cleared, State.getReg], hsaved⟩
  have hidle : Keeps s.cleared (s.cleared.orReg Reg.txRxControl txRxControlIdle) := keeps_setReg (by decide) (by decide)
  apply hcleared.keeps
  apply hidle.trans
  exact Keeps.ite keeps_updateRegsOnLinkDown (.refl _)

theorem lineInv_load (hinv : LineInv s) {x : Saved} (hx : x ∈ s.saved) : LineInv (s.load x) := by
  unfold State.load State.nvnetPostLoad
  dsimp only
  split
  · exact ⟨hinv.saved x hx, hinv.saved⟩
  · exact ⟨hinv.saved x hx, hinv.saved⟩

theorem step_lineInv (s : State) (e : Event) (s' : State) (hinv : LineInv s) (hok : ClearsQuietly s e)
    (h : step s e = some s') : LineInv s' := by
  cases e with
  | mmioWrite addr val size =>
    simp only [step] at h
    split at h
    · exact hinv.keeps (keeps_nvnetMmioWrite hok h)
    · cases h
      exact hinv
  | mmioRead | ioWrite =>
    cases h
    exact hinv
  | store =>
    cases h
    exact hinv.keeps (.of_eq rfl rfl rfl)
  | frame data => exact hinv.keeps (keeps_arrive h)
  | setLink up =>
    cases h
    apply LineInv.keeps _ keeps_nvnetSetLinkStatus
    exact hinv.keeps (.of_eq rfl rfl rfl)
  | elapse ms =>
    have hclock : LineInv { s with clock := s.clock + ms } := hinv.keeps (.of_eq rfl rfl rfl)
    simp only [step] at h
    split at h
    · cases h
      apply hclock.keeps
      refine Keeps.ite (.trans ?_ keeps_autonegExpired) (.refl _)
      exact .of_eq rfl rfl rfl
    · cases h
      exact hclock
  | reset =>
    cases h
    exact lineInv_nvnetReset hinv.saved
  | savevm =>
    cases h
    refine ⟨hinv.line, fun x hx => ?_⟩
    rcases List.mem_append.mp hx with hx | hx
    · exact hinv.saved x hx
    · rw [List.mem_singleton.mp hx]
      exact hinv.line
  | loadvm index =>
    obtain ⟨x, hx, rfl⟩ := Option.map_eq_some_iff.mp h
    exact lineInv_load hinv (List.mem_of_getElem? hx)

theorem lineInv_init (memory : Nat → Byte) : LineInv (init memory) := lineInv_nvnetReset nofun

/-- In every run in which the status register is never cleared behind the line's back, the line is
raised exactly when an enabled interrupt is pending. -/
theorem irq_line_exact (memory : Nat → Byte) {es : List Event} {s : State}
    (hmeets : Meets step ClearsQuietly (init memory) es) (hrun : run step (init memory) es = some s) :
    s.irq = true ↔ s.getReg Reg.irqStatus &&& s.getReg Reg.irqMask ≠ 0 := by
  have hinv := run_invariant_of_meets LineInv step_lineInv (lineInv_init memory) hmeets hrun
  rw [hinv.line, State.pending, BitVec.and_comm, bne_iff_ne]

def linkLost (control : Word) : List Event :=
  [.mmioWrite Reg.irqMask irqStatusMiievent 4, .setLink false, .mmioWrite Reg.txRxControl control 4]

theorem irq_line_exact_linkLost :
    ∃ s, run step (init fun _ => 0) (linkLost txRxControlKick) = some s ∧ s.irq = true ∧
      (s.irq = true ↔ s.getReg Reg.irqStatus &&& s.getReg Reg.irqMask ≠ 0) := by
  refine exists_some_and (by decide +kernel) fun s hrun _ => ?_
  exact irq_line_exact _ (by decide +kernel) hrun

/-- Bit 1 of `NVNET_TX_RX_CONTROL` clears the status register and leaves the line raised. -/
theorem irq_line_stuck :
    ∃ s, run step (init fun _ => 0) (linkLost txRxControlBit1) = some s ∧ s.irq = true ∧
      s.getReg Reg.irqStatus &&& s.getReg Reg.irqMask = 0 := by
  decide +kernel

end XogMobile.Nvnet
