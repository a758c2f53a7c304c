import XogMobile.Nvnet.Device

/-!
# Descriptor rings, transmission and reception

Both rings are arrays of eight byte descriptors in guest memory. The device keeps the address of the
next descriptor in a register, brings it back into the ring where it has left it, and hands a
descriptor back to the guest by rewriting its flags. An `assert` that fails ends the run.
-/

namespace XogMobile.Nvnet

open Lib

/-- `struct RingDesc`. -/
structure RingDesc where
  bufferAddr : Word
  (length flags : BitVec 16)
  deriving DecidableEq

def txLastpacket : BitVec 16 := 0x0001
def txValid : BitVec 16 := 0x8000
/-- `NV_TX_VALID` and the error flags, which the device clears. -/
def txHandback : BitVec 16 := 0x8000 ||| 0x0008 ||| 0x0400 ||| 0x0800 ||| 0x1000 ||| 0x2000 ||| 0x4000
def rxDescriptorvalid : BitVec 16 := 0x0001
def rxBit4 : BitVec 16 := 0x0010
def rxAvail : BitVec 16 := 0x8000

namespace RingDesc

variable (d : RingDesc)

def bytes : List Byte :=
  leBytes 4 d.bufferAddr.toNat ++ leBytes 2 d.length.toNat ++ leBytes 2 d.flags.toNat

def load (m : Nat → Byte) (addr : Nat) : RingDesc where
  bufferAddr := BitVec.ofNat 32 (leNat (readBytes m addr 4))
  length := BitVec.ofNat 16 (leNat (readBytes m (addr + 4) 2))
  flags := BitVec.ofNat 16 (leNat (readBytes m (addr + 6) 2))

@[simp] theorem length_bytes (d : RingDesc) : d.bytes.length = 8 := by
  simp [bytes]

@[simp] theorem load_store (m : Nat → Byte) (addr : Nat) (d : RingDesc) :
    load (writeBytes m addr d.bytes) addr = d := by
  have hall : readBytes (writeBytes m addr d.bytes) addr d.bytes.length = d.bytes :=
    readBytes_writeBytes
  rw [length_bytes, show 8 = 4 + 2 + 2 from rfl, readBytes_append, readBytes_append] at hall
  obtain ⟨hfront, hflags⟩ := List.append_inj hall (by simp)
  obtain ⟨haddr, hlength⟩ := List.append_inj hfront (by simp)
  have h32 := ofNat_leNat_leBytes 4 d.bufferAddr
  have h16 := ofNat_leNat_leBytes 2 d.length
  have h16' := ofNat_leNat_leBytes 2 d.flags
  simp only [load, haddr, hlength, hflags]
  congr 1

theorem load_writeBytes {m : Nat → Byte} {a addr : Nat} {bs : List Byte}
    (h : a + bs.length ≤ addr ∨ addr + 8 ≤ a) : load (writeBytes m a bs) addr = load m addr := by
  rcases h with h | h
  · simp only [load, readBytes_writeBytes_of_ge (show a + bs.length ≤ addr from h),
      readBytes_writeBytes_of_ge (show a + bs.length ≤ addr + 4 by omega),
      readBytes_writeBytes_of_ge (show a + bs.length ≤ addr + 6 by omega)]
  · simp only [load, readBytes_writeBytes_of_le (show addr + 4 ≤ a by omega),
      readBytes_writeBytes_of_le (show addr + 4 + 2 ≤ a by omega),
      readBytes_writeBytes_of_le (show addr + 6 + 2 ≤ a by omega)]

theorem bytes_load (m : Nat → Byte) (a : Nat) : (load m a).bytes = readBytes m a 8 := by
  rw [show 8 = 4 + 2 + 2 from rfl, readBytes_append, readBytes_append]
  exact congrArg₂ _ (congrArg₂ _ (leBytes_ofNat_leNat (readBytes m a 4) rfl)
    (leBytes_ofNat_leNat (readBytes m (a + 4) 2) rfl)) (leBytes_ofNat_leNat (readBytes m (a + 6) 2) rfl)

def valid : Bool := d.flags &&& txValid != 0

def last : Bool := d.flags &&& txLastpacket != 0

def avail : Bool := d.flags &&& rxAvail != 0

def handback : RingDesc := { d with flags := d.flags &&& ~~~txHandback }

def filled (size : Nat) : RingDesc :=
  { d with length := BitVec.ofNat 16 size, flags := rxBit4 ||| rxDescriptorvalid }

theorem handback_valid (d : RingDesc) : d.handback.valid = false := by
  have hbit : ~~~txHandback &&& txValid = 0 := by decide
  rw [valid, handback, BitVec.and_assoc, hbit]
  simp

theorem avail_load (m : Nat → Byte) (a : Nat) : (load m a).avail = (m (a + 7)).msb := by
  have hmask : rxAvail = BitVec.twoPow 16 15 := rfl
  have hbit : (load m a).flags.getLsbD 15 = (m (a + 7)).msb := by
    have hread : readBytes m (a + 6) 2 = [m (a + 6), m (a + 7)] := rfl
    have hlow : (m (a + 6)).toNat < 256 := (m (a + 6)).isLt
    have hdiv : ((m (a + 6)).toNat + 256 * ((m (a + 7)).toNat + 256 * 0)) / 2 ^ 8 = (m (a + 7)).toNat := by
      omega
    have hbit := congrArg (fun v => v.testBit 7) hdiv
    rw [Nat.testBit_div_two_pow] at hbit
    rw [load, hread, BitVec.getLsbD_ofNat, BitVec.msb_eq_getLsbD_last, leNat, leNat, leNat]
    exact hbit
  rw [avail, hmask, BitVec.and_twoPow, hbit]
  cases (m (a + 7)).msb <;> rfl

end RingDesc

structure RingRegs where
  (physAddr nextDesc currentDesc : Nat)
  sizeMask : Word

def txRing : RingRegs where
  physAddr := Reg.txRingPhysAddr
  nextDesc := Reg.txRingNextDescPhysAddr
  currentDesc := Reg.txRingCurrentDescPhysAddr
  sizeMask := ringSizeTx

def rxRing : RingRegs where
  physAddr := Reg.rxRingPhysAddr
  nextDesc := Reg.rxRingNextDescPhysAddr
  currentDesc := Reg.rxRingCurrentDescPhysAddr
  sizeMask := ringSizeRx

namespace State

variable (s : State)

def getRingSize (r : RingRegs) : BitVec 16 :=
  (getMask (s.getReg Reg.ringSize) r.sizeMask + 1).setWidth 16

def maxDescAddr (r : RingRegs) : Word :=
  s.getReg r.physAddr + BitVec.ofNat 32 ((s.getRingSize r).toNat * 8)

def curDescAddr (r : RingRegs) : Word :=
  let cur := s.getReg r.nextDesc
  if cur.toNat < (s.getReg r.physAddr).toNat ∨ (s.maxDescAddr r).toNat < cur.toNat + 8 then
    s.getReg r.physAddr
  else cur

def updateCurrentRingDescAddr (r : RingRegs) : State := s.setReg r.currentDesc (s.curDescAddr r)

def nextDescAddr (r : RingRegs) : Word :=
  let next := s.getReg r.currentDesc + 8
  if (s.maxDescAddr r).toNat ≤ next.toNat then s.getReg r.physAddr else next

def advanceNextRingDescAddr (r : RingRegs) : State := s.setReg r.nextDesc (s.nextDescAddr r)

def getTxRingSize : Nat := (s.getRingSize txRing).toNat
def updateCurrentTxRingDescAddr : State := s.updateCurrentRingDescAddr txRing
def advanceNextTxRingDescAddr : State := s.advanceNextRingDescAddr txRing
def updateCurrentRxRingDescAddr : State := s.updateCurrentRingDescAddr rxRing
def advanceNextRxRingDescAddr : State := s.advanceNextRingDescAddr rxRing

def resetDescriptorRingPointers : State :=
  let base := s.getReg Reg.txRingPhysAddr
  let s := s.setReg Reg.txRingCurrentDescPhysAddr base
  let s := s.setReg Reg.txRingNextDescPhysAddr base
  let base := s.getReg Reg.rxRingPhysAddr
  let s := s.setReg Reg.rxRingCurrentDescPhysAddr base
  s.setReg Reg.rxRingNextDescPhysAddr base

def loadRingDesc (addr : Word) : RingDesc := RingDesc.load s.memory addr.toNat

def storeRingDesc (addr : Word) (d : RingDesc) : State :=
  { s with memory := writeBytes s.memory addr.toNat d.bytes }

/-! ## Transmission -/

/-- `pci_dma_read` of a buffer behind what is already in `tx_dma_buf`. -/
def fetch (addr : Word) (length : BitVec 16) : State :=
  { s with txDmaBuf := s.txDmaBuf ++ readBytes s.memory addr.toNat length.toNat }

/-- `send_packet` of `tx_dma_buf`, whose offset is then set back. -/
def sendPacket : State := { s with sent := s.sent ++ [s.txDmaBuf], txDmaBuf := [] }

/-- The loop of `dma_packet_from_guest`, for the descriptors still to be looked at, with
`packet_sent`. No step of it stores to the register with the ring size. -/
def dmaLoop : Nat → State → Option (Bool × State)
  | 0, s => some (false, s)
  | n + 1, s =>
    let s := s.updateCurrentTxRingDescAddr
    let cur := s.getReg Reg.txRingCurrentDescPhysAddr
    let desc := s.loadRingDesc cur
    let length := desc.length + 1
    if desc.valid then
      if s.txDmaBuf.length + length.toNat ≤ txAllocBufsize then
        let s := s.fetch desc.bufferAddr length
        if desc.last then
          some (true, (s.sendPacket.storeRingDesc cur desc.handback).advanceNextTxRingDescAddr)
        else dmaLoop n (s.storeRingDesc cur desc.handback).advanceNextTxRingDescAddr
      else none
    else some (false, s)

def dmaPacketFromGuest : Option State :=
  if s.canTransmit then
    (dmaLoop s.getTxRingSize (s.setDmaIdle false)).map fun (packetSent, s) =>
      let s := s.setDmaIdle true
      if packetSent then s.setIntrStatus irqStatusTx else s
  else some s

/-! ## Reception -/

/-- What `nvnet_can_receive` answers; the call also updates the current descriptor's register. -/
def canRx : Bool :=
  s.rxEnabled && s.dmaEnabled && s.linkUp && (s.loadRingDesc (s.curDescAddr rxRing)).avail

def nvnetCanReceive : Bool × State := (s.canRx, s.updateCurrentRxRingDescAddr)

/-- `pci_dma_write` of a frame to the buffer of a descriptor and of the descriptor itself. -/
def writeFrame (cur : Word) (desc : RingDesc) (p : Packet) : State :=
  let s := { s with memory := writeBytes s.memory desc.bufferAddr.toNat p.data }
  { s.storeRingDesc cur (desc.filled p.data.length) with written := s.written ++ [(cur.toNat, p)] }

/-- `dma_packet_to_guest`, with the value it returns. -/
def dmaPacketToGuest (p : Packet) : Option (Int × State) :=
  let (canRx, s) := s.nvnetCanReceive
  if canRx then
    let s := (s.setDmaIdle false).updateCurrentRxRingDescAddr
    let cur := s.getReg Reg.rxRingCurrentDescPhysAddr
    let desc := s.loadRingDesc cur
    if desc.avail then
      if p.data.length ≤ desc.length.toNat + 1 then
        let s := ((s.writeFrame cur desc p).setIntrStatus irqStatusRx).advanceNextRxRingDescAddr
        some (p.data.length, s.setDmaIdle true)
      else none
    else some (-1, s.setDmaIdle true)
  else some (-1, s)

def broadcastEtherAddr : List Byte := List.replicate 6 0xFF

def etherAddr (regA regB : Nat) : List Byte :=
  leBytes 4 (s.getReg regA).toNat ++ leBytes 2 (s.getReg regB).toNat

def receiveFilter (buf : List Byte) : Bool :=
  if buf.length < 6 then false
  else
    let dest := buf.take 6
    if dest = broadcastEtherAddr then true
    else if s.getReg Reg.packetFilter &&& packetFilterMyaddr = 0 then true
    else
      let multicast := s.etherAddr Reg.multicastAddrA Reg.multicastAddrB
      let mask := s.etherAddr Reg.multicastMaskA Reg.multicastMaskB
      if multicast ≠ broadcastEtherAddr ∧ List.zipWith (· &&& ·) dest mask = multicast then true
      else dest = s.etherAddr Reg.macAddrA Reg.macAddrB

/-- `nvnet_receive_iov`, with the value it returns. -/
def nvnetReceive (p : Packet) : Option (Int × State) :=
  if rxAllocBufsize < p.data.length ∨ s.receiveFilter p.data = false then
    some (p.data.length, { s with refused := s.refused ++ [p] })
  else s.dmaPacketToGuest p

/-! ## The network core's queue of the device -/

def nqMaxlen : Nat := 10000

/-- `qemu_deliver_packet_iov`. -/
def deliver (p : Packet) : Option (Int × State) :=
  if s.linkDown then some (p.data.length, { s with refused := s.refused ++ [p] })
  else if s.receiveDisabled then some (0, s)
  else (s.nvnetReceive p).map fun (ret, s) => (ret, { s with receiveDisabled := ret == 0 })

/-- `qemu_net_queue_flush`; the list is the queue from which the next packet is taken. -/
def flush : List Packet → State → Option State
  | [], s => some { s with queue := [] }
  | p :: ps, s =>
    (deliver { s with queue := ps } p).bind fun (ret, s) =>
      if ret = 0 then some { s with queue := p :: ps } else flush ps s

/-- `qemu_net_queue_append` for a sender without a callback. -/
def append (p : Packet) : State :=
  if nqMaxlen ≤ s.queue.length then s else { s with queue := s.queue ++ [p] }

def qemuCanReceivePacket : Bool × State :=
  if s.receiveDisabled then (false, s) else s.nvnetCanReceive

/-- `qemu_net_queue_send` for a frame from the network. -/
def arrive (data : List Byte) : Option State :=
  let p : Packet := { id := s.arrived, data }
  let s := { s with arrived := s.arrived + 1 }
  let (ready, s) := s.qemuCanReceivePacket
  if ready then
    (s.deliver p).bind fun (ret, s) => if ret = 0 then some (s.append p) else flush s.queue s
  else some (s.append p)

end State

end XogMobile.Nvnet
