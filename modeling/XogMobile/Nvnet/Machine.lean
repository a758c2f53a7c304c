import XogMobile.Nvnet.Ring
import XogMobile.Lib.Run

/-!
# The network device in its machine

One step is one guest access, one store of the guest to its memory, one frame from the network, one
change of the host link, one advance of the virtual clock, one reset, or one snapshot taken or loaded.
The device's code runs under one lock, so a step is never interrupted; a backend that answers a frame from
within `qemu_send_packet` is left out.
-/

namespace XogMobile.Nvnet

open Lib

namespace State

variable (s : State)

/-- The part of a write to `NVNET_TX_RX_CONTROL` up to the end of a kick. -/
def writeControl (val : Word) : Option State :=
  let s := s.setRegWithMask Reg.txRxControl val (~~~txRxControlIdle)
  if val &&& txRxControlKick ≠ 0 then s.dmaPacketFromGuest else some s

/-- `nvnet_mmio_write`; the value is already cut to the access size. -/
def nvnetMmioWrite (addr : Nat) (val : Word) (size : Nat) : Option State :=
  if addr % 4 ≠ 0 then none
  else if addr = Reg.mdioAddr then
    if size = 4 then
      let s := s.setRegExt addr val size
      some (if val &&& mdioAddrWrite ≠ 0 then s.mdioWrite else s.mdioRead)
    else none
  else if addr = Reg.txRxControl then
    (s.writeControl val).map fun s =>
      let s :=
        if val &&& txRxControlReset ≠ 0 then { s.resetDescriptorRingPointers with txDmaBuf := [] }
        else s
      if val &&& txRxControlBit1 ≠ 0 then s.setReg Reg.irqStatus 0
      else if val = 0 then s.setReg Reg.unknownSetupReg5 unknownSetupReg5Bit31
      else s
  else if addr = Reg.irqStatus ∨ addr = Reg.miiStatus then
    some (s.setRegExt addr (s.getRegExt addr size &&& ~~~val) size).updateIrq
  else if addr = Reg.irqMask then some (s.setRegExt addr val size).updateIrq
  else some (s.setRegExt addr val size)

def phyRegInit (reg : Nat) : Word :=
  if reg = miiBmcr then miiBmcrFd ||| miiBmcrAutoen
  else if reg = miiBmsr then miiBmsrAutoneg ||| miiBmsrAnComp ||| miiBmsrLinkSt
  else if reg = miiAnar ∨ reg = miiAnlpar then miiAnlparInit
  else 0

/-- The fields that a reset clears; the reset of the bus lowers the device's interrupt line. -/
def cleared : State :=
  { s with regs := fun _ => 0, irq := false, phyRegs := phyRegInit, txDmaBuf := [], autonegTimer := none }

def nvnetReset : State :=
  let s := s.cleared.orReg Reg.txRxControl txRxControlIdle
  if s.linkDown then s.updateRegsOnLinkDown else s

def save : Saved where
  regs := s.regs
  phyRegs := s.phyRegs
  irq := s.irq

/-- `nvnet_post_load` for a snapshot of the current version. -/
def nvnetPostLoad : State :=
  let s := { s with linkDown := s.phyRegs miiBmsr &&& miiBmsrLinkSt == 0 }
  if s.negotiating then { s with linkDown := false }.restartAutoneg else s

/-- A fresh instance of the device in the same machine, with the snapshot loaded into it. -/
def load (snapshot : Saved) : State :=
  nvnetPostLoad { s with
    regs := snapshot.regs
    phyRegs := snapshot.phyRegs
    irq := snapshot.irq
    txDmaBuf := []
    autonegTimer := none
    queue := []
    receiveDisabled := false }

end State

inductive Event
  | mmioWrite (addr : Nat) (val : Word) (size : Nat)
  | mmioRead (addr size : Nat)
  | ioWrite (addr : Nat) (val : Word)
  | store (addr : Nat) (bytes : List Byte)
  | frame (data : List Byte)
  | setLink (up : Bool)
  | elapse (ms : Nat)
  | reset
  | savevm
  | loadvm (index : Nat)

/-- Sizes and places of the accesses that the memory core lets through; it ignores the others. -/
def allowed (addr size : Nat) : Bool :=
  (size == 1 || size == 2 || size == 4) && addr % size == 0 && decide (addr < mmioSize)

def step (s : State) : Event → Option State
  | .mmioWrite addr val size =>
    if allowed addr size then s.nvnetMmioWrite addr (val &&& State.sizeMask size) size else some s
  | .mmioRead _ _ => some s
  | .ioWrite _ _ => some s
  | .store addr bytes => some { s with memory := writeBytes s.memory addr bytes }
  | .frame data => s.arrive data
  | .setLink up => some { s with linkDown := !up }.nvnetSetLinkStatus
  | .elapse ms =>
    let s := { s with clock := s.clock + ms }
    match s.autonegTimer with
    | some deadline =>
      some (if deadline ≤ s.clock then { s with autonegTimer := none }.autonegExpired else s)
    | none => some s
  | .reset => some s.nvnetReset
  | .savevm => some { s with saved := s.saved ++ [s.save] }
  | .loadvm index => s.saved[index]?.map s.load

def init (memory : Nat → Byte) : State :=
  State.nvnetReset
    { regs := fun _ => 0, phyRegs := fun _ => 0, txDmaBuf := [], autonegTimer := none,
      linkDown := false, irq := false, memory, clock := 0, queue := [], receiveDisabled := false,
      saved := [], arrived := 0, sent := [], written := [], refused := [] }

end XogMobile.Nvnet
