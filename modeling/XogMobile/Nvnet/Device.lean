import XogMobile.Lib.Bytes
import XogMobile.Lib.Mask

/-!
# The network device: registers, interrupt line, PHY and link

The 0x400 bytes of registers are kept as little endian words by their offset: every store to them is
at a multiple of four. The bytes of `tx_dma_buf` below `tx_dma_buf_offset` are the list `txDmaBuf`; no
byte above the offset is ever read. Guest memory, the virtual clock and the queue of frames that the
network core keeps for the device stand beside the device's own fields.
-/

namespace XogMobile.Nvnet

open Lib

abbrev Word := BitVec 32

namespace Reg

def irqStatus : Nat := 0x000
def irqMask : Nat := 0x004
def transmitterControl : Nat := 0x084
def packetFilter : Nat := 0x08C
def receiverControl : Nat := 0x094
def macAddrA : Nat := 0x0A8
def macAddrB : Nat := 0x0AC
def multicastAddrA : Nat := 0x0B0
def multicastAddrB : Nat := 0x0B4
def multicastMaskA : Nat := 0x0B8
def multicastMaskB : Nat := 0x0BC
def txRingPhysAddr : Nat := 0x100
def rxRingPhysAddr : Nat := 0x104
def ringSize : Nat := 0x108
def txRingCurrentDescPhysAddr : Nat := 0x11C
def rxRingCurrentDescPhysAddr : Nat := 0x120
def unknownSetupReg5 : Nat := 0x130
def txRingNextDescPhysAddr : Nat := 0x134
def rxRingNextDescPhysAddr : Nat := 0x138
def txRxControl : Nat := 0x144
def miiStatus : Nat := 0x180
def adapterControl : Nat := 0x188
def mdioAddr : Nat := 0x190
def mdioData : Nat := 0x194

end Reg

def mmioSize : Nat := 0x400
def phyAddr : Word := 1
def autonegDurationMs : Nat := 250
def txAllocBufsize : Nat := 1500 + 128
def rxAllocBufsize : Nat := 1500 + 128

def irqStatusRx : Word := 0x2
def irqStatusTx : Word := 0x10
def irqStatusMiievent : Word := 0x40
def transmitterControlStart : Word := 0x1
def receiverControlStart : Word := 0x1
def packetFilterMyaddr : Word := 0x20
def ringSizeTx : Word := 0x0000FFFF
def ringSizeRx : Word := 0xFFFF0000
def unknownSetupReg5Bit31 : Word := 0x80000000
def txRxControlKick : Word := 0x1
def txRxControlBit1 : Word := 0x2
def txRxControlBit2 : Word := 0x4
def txRxControlIdle : Word := 0x8
def txRxControlReset : Word := 0x10
def miiStatusLinkchange : Word := 0x8
def adapterControlLinkup : Word := 0x4
def mdioAddrInuse : Word := 0x8000
def mdioAddrWrite : Word := 0x400
def mdioAddrPhyaddr : Word := 0x3E0
def mdioAddrPhyreg : Word := 0x1F

def miiBmcr : Nat := 0
def miiBmsr : Nat := 1
def miiAnar : Nat := 4
def miiAnlpar : Nat := 5

def miiBmcrAutoen : Word := 0x1000
def miiBmcrFd : Word := 0x100
def miiBmsrAnComp : Word := 0x20
def miiBmsrAutoneg : Word := 0x8
def miiBmsrLinkSt : Word := 0x4
def miiAnlparAck : Word := 0x4000
/-- `MII_ANLPAR_10 | MII_ANLPAR_10FD | MII_ANLPAR_TX | MII_ANLPAR_TXFD | MII_ANLPAR_T4`. -/
def miiAnlparInit : Word := 0x3E0

structure Packet where
  id : Nat
  data : List Byte
  deriving DecidableEq

/-- What `vmstate_nvnet` stores, the PCI device's interrupt state included. -/
structure Saved where
  (regs phyRegs : Nat → Word)
  irq : Bool

structure State where
  (regs phyRegs : Nat → Word)
  txDmaBuf : List Byte
  autonegTimer : Option Nat
  /-- `nc->link_down`. -/
  linkDown : Bool
  irq : Bool
  memory : Nat → Byte
  clock : Nat
  /-- `nc->incoming_queue`. -/
  queue : List Packet
  receiveDisabled : Bool
  saved : List Saved
  arrived : Nat
  sent : List (List Byte)
  written : List (Nat × Packet)
  /-- Frames that were not for the guest: oversized, filtered out or arriving with the link down. -/
  refused : List Packet

namespace State

variable (s : State)

def getReg (addr : Nat) : Word := s.regs addr

def setReg (addr : Nat) (val : Word) : State :=
  { s with regs := fun a => if a = addr then val else s.regs a }

@[simp] theorem getReg_setReg (s : State) (addr addr' : Nat) (val : Word) :
    (s.setReg addr val).getReg addr' = if addr' = addr then val else s.getReg addr' := rfl

def sizeMask (size : Nat) : Word := BitVec.ofNat 32 (2 ^ (8 * size) - 1)

def getRegExt (addr size : Nat) : Word :=
  (s.regs (addr - addr % 4) >>> (8 * (addr % 4))) &&& sizeMask size

/-- Stores are at multiples of four, so a short one replaces the low bytes of a word. -/
def setRegExt (addr : Nat) (val : Word) (size : Nat) : State :=
  s.setReg addr ((s.getReg addr &&& ~~~sizeMask size) ||| (val &&& sizeMask size))

def orReg (addr : Nat) (val : Word) : State := s.setReg addr (s.getReg addr ||| val)

def andReg (addr : Nat) (val : Word) : State := s.setReg addr (s.getReg addr &&& val)

def setRegWithMask (addr : Nat) (val mask : Word) : State :=
  s.setReg addr ((s.getReg addr &&& (val ||| ~~~mask)) ||| (val &&& mask))

def pending : Word := s.getReg Reg.irqMask &&& s.getReg Reg.irqStatus

def updateIrq : State := { s with irq := s.pending != 0 }

def setIntrStatus (status : Word) : State := (s.orReg Reg.irqStatus status).updateIrq

def setMiiIntrStatus (status : Word) : State :=
  (s.orReg Reg.miiStatus status).setIntrStatus irqStatusMiievent

def setPhy (reg : Nat) (val : Word) : State :=
  { s with phyRegs := fun r => if r = reg then val else s.phyRegs r }

def linkUp : Bool := s.phyRegs miiBmsr &&& miiBmsrLinkSt != 0

def dmaEnabled : Bool := s.getReg Reg.txRxControl &&& txRxControlBit2 == 0

def setDmaIdle (idle : Bool) : State :=
  if idle then s.orReg Reg.txRxControl txRxControlIdle
  else s.andReg Reg.txRxControl (~~~txRxControlIdle)

def rxEnabled : Bool := s.getReg Reg.receiverControl &&& receiverControlStart != 0

def txEnabled : Bool := s.getReg Reg.transmitterControl &&& transmitterControlStart != 0

def canTransmit : Bool := s.txEnabled && s.dmaEnabled && s.linkUp

/-! ## Link and auto-negotiation -/

def updateRegsOnLinkDown : State :=
  let s := s.setPhy miiBmsr (s.phyRegs miiBmsr &&& ~~~miiBmsrLinkSt)
  let s := s.setPhy miiBmsr (s.phyRegs miiBmsr &&& ~~~miiBmsrAnComp)
  let s := s.setPhy miiAnlpar (s.phyRegs miiAnlpar &&& ~~~miiAnlparAck)
  s.andReg Reg.adapterControl (~~~adapterControlLinkup)

def setLinkDown : State := s.updateRegsOnLinkDown.setMiiIntrStatus miiStatusLinkchange

def updateRegsOnLinkUp : State :=
  let s := s.setPhy miiBmsr (s.phyRegs miiBmsr ||| miiBmsrLinkSt)
  s.orReg Reg.adapterControl adapterControlLinkup

def setLinkUp : State := s.updateRegsOnLinkUp.setMiiIntrStatus miiStatusLinkchange

def restartAutoneg : State := { s with autonegTimer := some (s.clock + autonegDurationMs) }

def autonegDone : State :=
  let s := s.setPhy miiAnlpar (s.phyRegs miiAnlpar ||| miiAnlparAck)
  let s := s.setPhy miiBmsr (s.phyRegs miiBmsr ||| miiBmsrAnComp)
  s.setLinkUp

/-- `autoneg_timer`, called when the timer expires. -/
def autonegExpired : State := if s.linkDown then s else s.autonegDone

def haveAutoneg : Bool := s.phyRegs miiBmcr &&& miiBmcrAutoen != 0

def negotiating : Bool := s.haveAutoneg && s.phyRegs miiBmsr &&& miiBmsrAnComp == 0

def nvnetSetLinkStatus : State :=
  if s.linkDown then s.setLinkDown
  else if s.negotiating then s.restartAutoneg
  else s.setLinkUp

/-! ## PHY registers over MDIO -/

def phyRegRead (reg : Nat) : BitVec 16 := if reg < 6 then (s.phyRegs reg).setWidth 16 else 0

def phyRegWrite (reg : Nat) (value : BitVec 16) : State :=
  if reg < 6 then s.setPhy reg (value.setWidth 32) else s

def mdioRead : State :=
  let mdioAddr := s.getReg Reg.mdioAddr
  let data : Word :=
    if getMask mdioAddr mdioAddrPhyaddr = phyAddr then
      (s.phyRegRead (getMask mdioAddr mdioAddrPhyreg).toNat).setWidth 32
    else -1
  (s.setReg Reg.mdioData data).andReg Reg.mdioAddr (~~~mdioAddrInuse)

def mdioWrite : State :=
  let mdioAddr := s.getReg Reg.mdioAddr
  let data := s.getReg Reg.mdioData
  let s :=
    if getMask mdioAddr mdioAddrPhyaddr = phyAddr then
      s.phyRegWrite (getMask mdioAddr mdioAddrPhyreg).toNat (data.setWidth 16)
    else s
  s.andReg Reg.mdioAddr (~~~mdioAddrInuse)

end State

end XogMobile.Nvnet
