import XogMobile.Nv2a.Pfifo

/-!
# The NV2A device

The register blocks of the device as the guest reads and writes them, the interrupt line, the vertical
blank and `nv2a_reset`. The FIFO engine takes one pass of its loop at a time. A method that raises an
interrupt gives up the lock of PGRAPH before it takes the lock of QEMU, so that raising the interrupt
is a step of its own (`raise`), and the guest may get in between.
-/

namespace XogMobile.Nv2a

open Lib Function

variable {ρ ν : Type}

structure Interrupts where
  (pending enabled : Word)
  deriving DecidableEq

namespace Interrupts

def active (i : Interrupts) : Bool := i.pending &&& i.enabled != 0

def clear (i : Interrupts) (val : Word) : Interrupts := { i with pending := i.pending &&& ~~~val }

def enable (i : Interrupts) (val : Word) : Interrupts := { i with enabled := val }

def raised (i : Interrupts) (bits : Word) : Interrupts := { i with pending := i.pending ||| bits }

def none : Interrupts := ⟨0, 0⟩

end Interrupts

structure Ptimer where
  intr : Interrupts
  (numerator denominator alarmTime : Word)

structure Pcrtc where
  intr : Interrupts
  (start raster : Word)

structure Pramdac where
  coreClockCoeff : Word
  coreClockFreq : Nat
  (memoryClockCoeff videoClockCoeff generalControl fpVdisplayEnd fpVcrtc fpVsyncEnd : Word)
  (fpVvalidEnd fpHdisplayEnd fpHcrtc fpHvalidEnd : Word)

structure Puserdac where
  writeModeAddress : BitVec 16
  palette : Nat → BitVec 8

/-- The VGA core. `reset` is `vga_common_reset`, with the colour mode selected after it. -/
structure Vga (ν : Type) where
  read : Nat → ν → Word × ν
  write : Nat → Word → ν → ν
  arFlipFlop : ν → Bool
  reset : ν → ν

/-- `NV2AState`. `raising` is set while a method is between the locks, with the bits it has still to
set, and `running` while the FIFO engine is in the loop of the pusher. -/
structure Device (ρ ν : Type) where
  irq : Bool
  pciCommand : Word
  (pmc pfifoIntr : Interrupts)
  pfifo : Nat → Word
  running : Bool
  raising : Option Word
  pvideo : Nat → Word
  ptimer : Ptimer
  pfb : Nat → Word
  pgraphIntr : Interrupts
  pgraph : Pgraph ρ
  pcrtc : Pcrtc
  pramdac : Pramdac
  puserdac : Puserdac
  vga : ν

structure Env (ρ ν : Type) where
  vga : Vga ν
  (pciVendor pciClass pciWritable vramSize : Word)
  clock : Nat
  ramin : Nat → Word
  raminSize : Nat
  gpu : Word → Gpu ρ
  squash : Bool

/-- The register blocks. `stub` is any of the blocks that read as zero. -/
inductive RegBlock where
  | pmc | pbus | pfifo | pvideo | ptimer | pfb | pgraph | pcrtc | prmvio | prmcio | pramdac | prmdio
  | user | stub
  deriving DecidableEq

/-- `NV_PMC_INTR_0_PFIFO`, `NV_PMC_INTR_0_PGRAPH` and `NV_PMC_INTR_0_PCRTC`. -/
def pmcPfifo : Word := 0x00000100

def pmcPgraph : Word := 0x00001000

def pmcPcrtc : Word := 0x01000000

/-- `NV_PGRAPH_INTR_CONTEXT_SWITCH` and `NV_PGRAPH_INTR_ERROR`. -/
def intrContextSwitch : Word := 0x00001000

def intrError : Word := 0x00100000

def unitBit (pending bit : Word) (active : Bool) : Word :=
  if active then pending ||| bit else pending &&& ~~~bit

namespace Device

variable (E : Env ρ ν) (d : Device ρ ν)

def updateIrq : Device ρ ν :=
  let pending := unitBit d.pmc.pending pmcPfifo d.pfifoIntr.active
  let pending := unitBit pending pmcPcrtc d.pcrtc.intr.active
  let pending := unitBit pending pmcPgraph d.pgraphIntr.active
  { d with
    pmc := { d.pmc with pending := pending }
    irq := pending != 0 && d.pmc.enabled != 0 }

def rdiRead (p : Pgraph ρ) (select address : Nat) : Option Word :=
  if (select = 0x17 ∨ select = 0xCC) ∧ address / 4 < 192 then
    some (p.aux.vshConstants.entry (address / 4) (3 - address % 4))
  else none

def rdiNext (p : Pgraph ρ) : Option (Pgraph ρ) :=
  let index := p.control.regs 0x750
  let address := getMask index 0x00001FFC
  if address.toNat < 0x7FF then some (p.regW 0x750 (setMask index 0x00001FFC (address + 1))) else none

def pgraphRead (addr : Nat) : Option (Word × Device ρ ν) :=
  if addr = 0x100 then some (d.pgraphIntr.pending, d)
  else if addr = 0x140 then some (d.pgraphIntr.enabled, d)
  else if addr = 0x754 then
    let index := d.pgraph.control.regs 0x750
    (rdiRead d.pgraph (getMask index 0x01FF0000).toNat (getMask index 0x00001FFC).toNat).bind fun r =>
      (rdiNext d.pgraph).map fun p => (r, { d with pgraph := p })
  else if addr % 4 = 0 then some (d.pgraph.control.regs addr, d)
  else none

/-- A write to `INTR` takes back the waits whose interrupt is no longer pending. -/
def pgraphIntrWrite (val : Word) : Device ρ ν :=
  let intr := d.pgraphIntr.clear val
  let c := d.pgraph.control
  { d with
    pgraphIntr := intr
    pgraph := { d.pgraph with control := { c with
      waitingForNop := c.waitingForNop && intr.pending &&& intrError != 0
      waitingForContextSwitch :=
        c.waitingForContextSwitch && intr.pending &&& intrContextSwitch != 0 } } }

def pgraphRegWrite (p : Pgraph ρ) (addr : Nat) (val : Word) : Option (Pgraph ρ) :=
  if addr = 0x71C then
    if val &&& 0x00000002 ≠ 0 then
      let surface := p.control.regs 0x710
      let modulo := getMask surface 0x70000000
      if modulo = 0 then none
      else some (p.regW 0x710
        (setMask surface 0x07000000 ((getMask surface 0x07000000 + 1) % modulo)))
    else some p
  else if addr = 0x754 then
    let select := (getMask (p.control.regs 0x750) 0x01FF0000).toNat
    if select = 0x17 ∨ select = 0xCC then none else rdiNext p
  else if addr = 0x788 then
    if val &&& 0x00000001 ≠ 0 then
      let context := (getMask (p.control.regs 0x784) 0x0000FFFF).toNat * 16
      if context < E.raminSize then some (p.regW 0x148 (E.ramin context)) else none
    else some p
  else if addr % 4 = 0 then some (p.regW addr val)
  else none

def pgraphWrite (addr : Nat) (val : Word) : Option (Device ρ ν) :=
  if addr = 0x100 then some (d.pgraphIntrWrite val)
  else if addr = 0x140 then some { d with pgraphIntr := d.pgraphIntr.enable val }
  else (pgraphRegWrite E d.pgraph addr val).map fun p => { d with pgraph := p }

def muldiv64 (a b c : Nat) : Option Nat := if c = 0 then none else some (a * b / c % 2 ^ 64)

def ptimerGetClock : Option Nat :=
  (muldiv64 E.clock d.pramdac.coreClockFreq 1000000000).bind fun ticks =>
    muldiv64 ticks d.ptimer.denominator.toNat d.ptimer.numerator.toNat

def ptimerRead (addr : Nat) : Option Word :=
  if addr = 0x100 then some d.ptimer.intr.pending
  else if addr = 0x140 then some d.ptimer.intr.enabled
  else if addr = 0x200 then some d.ptimer.numerator
  else if addr = 0x210 then some d.ptimer.denominator
  else if addr = 0x400 then
    (ptimerGetClock E d).map fun t => BitVec.ofNat 32 (t % 2 ^ 27 * 2 ^ 5)
  else if addr = 0x410 then
    (ptimerGetClock E d).map fun t => BitVec.ofNat 32 (t / 2 ^ 27 % 2 ^ 29)
  else some 0

def ptimerWrite (addr : Nat) (val : Word) : Device ρ ν :=
  if addr = 0x100 then { d with ptimer := { d.ptimer with intr := d.ptimer.intr.clear val } }.updateIrq
  else if addr = 0x140 then
    { d with ptimer := { d.ptimer with intr := d.ptimer.intr.enable val } }.updateIrq
  else if addr = 0x210 then { d with ptimer := { d.ptimer with denominator := val } }
  else if addr = 0x200 then { d with ptimer := { d.ptimer with numerator := val } }
  else if addr = 0x420 then { d with ptimer := { d.ptimer with alarmTime := val } }
  else d

def pmcRead (addr : Nat) : Word :=
  if addr = 0 then 0x02A000A3
  else if addr = 0x100 then d.pmc.pending
  else if addr = 0x140 then d.pmc.enabled
  else 0

def pmcWrite (addr : Nat) (val : Word) : Device ρ ν :=
  if addr = 0x100 then { d with pmc := d.pmc.clear val }.updateIrq
  else if addr = 0x140 then { d with pmc := d.pmc.enable val }.updateIrq
  else d

def pfifoRead (addr : Nat) : Word :=
  if addr = 0x100 then d.pfifoIntr.pending
  else if addr = 0x140 then d.pfifoIntr.enabled
  else if addr = 0x400 then 0x00000010
  else d.pfifo addr

def pfifoWrite (addr : Nat) (val : Word) : Device ρ ν :=
  if addr = 0x100 then { d with pfifoIntr := d.pfifoIntr.clear val }.updateIrq
  else if addr = 0x140 then { d with pfifoIntr := d.pfifoIntr.enable val }.updateIrq
  else { d with pfifo := update d.pfifo addr val }

/-- `pcrtc_read`. Reading `RASTER` moves it on. -/
def pcrtcRead (addr : Nat) : Word × Device ρ ν :=
  if addr = 0x100 then (d.pcrtc.intr.pending, d)
  else if addr = 0x140 then (d.pcrtc.intr.enabled, d)
  else if addr = 0x800 then (d.pcrtc.start, d)
  else if addr = 0x808 then
    (d.pcrtc.raster, { d with pcrtc := { d.pcrtc with raster := d.pcrtc.raster + 1 } })
  else (0, d)

def pcrtcWrite (addr : Nat) (val : Word) : Device ρ ν :=
  if addr = 0x100 then { d with pcrtc := { d.pcrtc with intr := d.pcrtc.intr.clear val } }.updateIrq
  else if addr = 0x140 then
    { d with pcrtc := { d.pcrtc with intr := d.pcrtc.intr.enable val } }.updateIrq
  else if addr = 0x800 then { d with pcrtc := { d.pcrtc with start := val &&& 0x07FFFFFF } }
  else d

def pvideoRead (addr : Nat) : Word := if addr = 0x704 then 0 else d.pvideo addr

def pvideoWrite (addr : Nat) (val : Word) : Device ρ ν :=
  if addr = 0x704 then
    if val &&& 0x00000001 ≠ 0 then { d with pvideo := update d.pvideo 0x700 0 } else d
  else { d with pvideo := update d.pvideo addr val }

def pfbRead (addr : Nat) : Word :=
  if addr = 0x20C then E.vramSize else if addr = 0x410 then 0 else d.pfb addr

def pramdacReg (r : Pramdac) (addr : Nat) : Word :=
  if addr = 0x500 then r.coreClockCoeff
  else if addr = 0x504 then r.memoryClockCoeff
  else if addr = 0x508 then r.videoClockCoeff
  else if addr = 0x514 then 0xE8000000
  else if addr = 0x600 then r.generalControl
  else if addr = 0x800 then r.fpVdisplayEnd
  else if addr = 0x808 then r.fpVcrtc
  else if addr = 0x810 then r.fpVsyncEnd
  else if addr = 0x818 then r.fpVvalidEnd
  else if addr = 0x820 then r.fpHdisplayEnd
  else if addr = 0x828 then r.fpHcrtc
  else if addr = 0x838 then r.fpHvalidEnd
  else 0

/-- `pramdac_read`, with the shift for accesses that are narrower than the register. -/
def pramdacRead (r : Pramdac) (addr size : Nat) : Option Word :=
  let used := 8 * size + 8 * (addr % 4)
  if used ≤ 32 then some (pramdacReg r (addr / 4 * 4) >>> (32 - used)) else none

def coreClock (val : Word) : Nat :=
  let m := (val &&& 0x000000FF).toNat
  let n := ((val &&& 0x0000FF00) >>> 8).toNat
  let p := ((val &&& 0x00070000) >>> 16).toNat
  if m = 0 then 0 else 16666666 * n % 2 ^ 32 / 2 ^ p / m

def pramdacWrite (r : Pramdac) (addr : Nat) (val : Word) : Pramdac :=
  if addr = 0x500 then { r with coreClockCoeff := val, coreClockFreq := coreClock val }
  else if addr = 0x504 then { r with memoryClockCoeff := val }
  else if addr = 0x508 then { r with videoClockCoeff := val }
  else if addr = 0x600 then { r with generalControl := val }
  else if addr = 0x800 then { r with fpVdisplayEnd := val }
  else if addr = 0x808 then { r with fpVcrtc := val }
  else if addr = 0x810 then { r with fpVsyncEnd := val }
  else if addr = 0x818 then { r with fpVvalidEnd := val }
  else if addr = 0x820 then { r with fpHdisplayEnd := val }
  else if addr = 0x828 then { r with fpHcrtc := val }
  else if addr = 0x838 then { r with fpHvalidEnd := val }
  else r

def prmdioRead (u : Puserdac) (addr : Nat) : Word :=
  if addr = 0x3C8 then (u.writeModeAddress / 3).setWidth 32 else 0

def prmdioWrite (u : Puserdac) (addr : Nat) (val : Word) : Puserdac :=
  if addr = 0x3C8 then { u with writeModeAddress := (val &&& 0xFF).setWidth 16 * 3 }
  else if addr = 0x3C9 then
    { writeModeAddress := u.writeModeAddress + 1
      palette := update u.palette (u.writeModeAddress.toNat % 768) (val.setWidth 8) }
  else u

def prmcioWrite (V : Vga ν) (v : ν) (addr : Nat) (val : Word) : ν :=
  if addr = 0x3C0 ∧ V.arFlipFlop v = false then V.write addr (val ||| 0x20) v else V.write addr val v

def pbusRead (addr : Nat) : Word :=
  if addr = 0x800 then E.pciVendor
  else if addr = 0x804 then d.pciCommand
  else if addr = 0x808 then E.pciClass
  else 0

def userReg (offset : Nat) : Option Nat :=
  if offset = 0x40 then some 0x1240
  else if offset = 0x44 then some 0x1244
  else if offset = 0x48 then some 0x1248
  else none

def UserChannel (regs : Nat → Word) (channelId : Nat) : Prop :=
  channelId < 32 ∧ regs 0x504 &&& (1 <<< channelId) ≠ 0 ∧
    (getMask (regs 0x1204) 0x0000001F).toNat = channelId

instance (regs : Nat → Word) (channelId : Nat) : Decidable (UserChannel regs channelId) :=
  inferInstanceAs (Decidable (_ ∧ _ ∧ _))

def userRead (addr : Nat) : Option Word :=
  if UserChannel d.pfifo (addr / 2 ^ 16) then
    some ((userReg (addr % 2 ^ 16)).elim 0 d.pfifo)
  else none

def userWrite (addr : Nat) (val : Word) : Option (Device ρ ν) :=
  if UserChannel d.pfifo (addr / 2 ^ 16) then
    (userReg (addr % 2 ^ 16)).map fun r => { d with pfifo := update d.pfifo r val }
  else none

def read (block : RegBlock) (addr size : Nat) : Option (Word × Device ρ ν) :=
  match block with
  | .pmc => some (d.pmcRead addr, d)
  | .pbus => some (pbusRead E d addr, d)
  | .pfifo => some (d.pfifoRead addr, d)
  | .pvideo => some (d.pvideoRead addr, d)
  | .ptimer => (ptimerRead E d addr).map (·, d)
  | .pfb => some (pfbRead E d addr, d)
  | .pgraph => d.pgraphRead addr
  | .pcrtc => some (d.pcrtcRead addr)
  | .prmvio | .prmcio =>
    let r := E.vga.read addr d.vga
    some (r.1, { d with vga := r.2 })
  | .pramdac => (pramdacRead d.pramdac addr size).map (·, d)
  | .prmdio => some (prmdioRead d.puserdac addr, d)
  | .user => (d.userRead addr).map (·, d)
  | .stub => some (0, d)

def write (block : RegBlock) (addr : Nat) (val : Word) : Option (Device ρ ν) :=
  match block with
  | .pmc => some (d.pmcWrite addr val)
  | .pbus => some (if addr = 0x804 then { d with pciCommand := val } else d)
  | .pfifo => some (d.pfifoWrite addr val)
  | .pvideo => some (d.pvideoWrite addr val)
  | .ptimer => some (d.ptimerWrite addr val)
  | .pfb => some { d with pfb := update d.pfb addr val }
  | .pgraph => pgraphWrite E d addr val
  | .pcrtc => some (d.pcrtcWrite addr val)
  | .prmvio => some { d with vga := E.vga.write addr val d.vga }
  | .prmcio => some { d with vga := prmcioWrite E.vga d.vga addr val }
  | .pramdac => some { d with pramdac := pramdacWrite d.pramdac addr val }
  | .prmdio => some { d with puserdac := prmdioWrite d.puserdac addr val }
  | .user => d.userWrite addr val
  | .stub => some d

def fifoRegs (regs : Nat → Word) : Pfifo where
  mode := regs 0x504
  push0 := regs 0x1200
  push1 := regs 0x1204
  pull0 := regs 0x1250
  pull1 := regs 0x1254
  engine := regs 0x1280
  status := regs 0x1214
  dmaPush := regs 0x1220
  dmaState := regs 0x1228
  dmaSubroutine := regs 0x124C
  dmaGet := regs 0x1244
  dmaPut := regs 0x1240
  dmaDcount := regs 0x12A0
  dataShadow := regs 0x12AC
  rsvdShadow := regs 0x12A8
  jmpShadow := regs 0x12A4

def storeFifoRegs (regs : Nat → Word) (f : Pfifo) : Nat → Word :=
  Pgraph.writeRegs regs [(0x504, f.mode), (0x1200, f.push0), (0x1204, f.push1), (0x1250, f.pull0),
    (0x1254, f.pull1), (0x1280, f.engine), (0x1214, f.status), (0x1220, f.dmaPush),
    (0x1228, f.dmaState), (0x124C, f.dmaSubroutine), (0x1244, f.dmaGet), (0x1240, f.dmaPut),
    (0x12A0, f.dmaDcount), (0x12AC, f.dataShadow), (0x12A8, f.rsvdShadow), (0x12A4, f.jmpShadow)]

/-- The device after a pass. A method that starts to wait for a NOP has set its interrupt and asserted
that it was clear; one that starts to wait for a context switch sets the interrupt later. -/
def afterPass (m : Machine ρ) : Option (Device ρ ν) :=
  let nop := !d.pgraph.control.waitingForNop && m.pgraph.control.waitingForNop
  let switch := !d.pgraph.control.waitingForContextSwitch && m.pgraph.control.waitingForContextSwitch
  if nop ∧ d.pgraphIntr.pending &&& intrError ≠ 0 then none
  else some { d with
    pfifo := storeFifoRegs d.pfifo m.pfifo
    pgraph := m.pgraph
    running := m.running
    pgraphIntr := if nop then d.pgraphIntr.raised intrError else d.pgraphIntr
    raising := if nop || switch then some (if switch then intrContextSwitch else 0) else none }

def fifo (e : FifoEvent) : Option (Device ρ ν) :=
  if d.raising.isSome then none
  else (Machine.step (E.gpu (getMask (d.pfifo 0x122C) 0x0000FFFF)) E.squash
    ⟨fifoRegs d.pfifo, d.pgraph, d.running, []⟩ e).bind d.afterPass

def raise : Option (Device ρ ν) :=
  d.raising.map fun bits =>
    { d with pgraphIntr := d.pgraphIntr.raised bits, raising := none }.updateIrq

/-- `nv2a_vga_gfx_update`. -/
def vblank : Device ρ ν :=
  { d with pcrtc := { d.pcrtc with
    intr := d.pcrtc.intr.raised 0x00000001, raster := 0 } }.updateIrq

def reset (V : Vga ν) (d : Device ρ ν) : Device ρ ν :=
  { d with
    pfifo := update (fun _ => 0) 0x1214 lowMark
    pgraph := { d.pgraph with control := ⟨fun _ => 0, false, false, false⟩ }
    pvideo := fun _ => 0
    pcrtc := { d.pcrtc with start := 0, intr := { d.pcrtc.intr with pending := 0 } }
    pramdac := { d.pramdac with
      coreClockCoeff := 0x00011C01
      coreClockFreq := 233333324
      memoryClockCoeff := 0
      videoClockCoeff := 0x0003C20D }
    vga := V.reset d.vga
    pmc := { d.pmc with pending := 0 }
    pfifoIntr := { d.pfifoIntr with pending := 0 }
    ptimer := { d.ptimer with intr := { d.ptimer.intr with pending := 0 } }
    puserdac := { d.puserdac with palette := fun i => BitVec.ofNat 8 (i / 3) } }

/-- `pci_do_device_reset`: the line is deasserted and the command register cleared. -/
def busReset : Device ρ ν :=
  { d with irq := false, pciCommand := d.pciCommand &&& ~~~E.pciWritable }

def initial (pgraph : Pgraph ρ) (vga : ν) : Device ρ ν where
  irq := false
  pciCommand := 0
  pmc := .none
  pfifoIntr := .none
  pfifo := fun _ => 0
  running := false
  raising := none
  pvideo := fun _ => 0
  ptimer := ⟨.none, 0, 0, 0⟩
  pfb := fun _ => 0
  pgraphIntr := .none
  pgraph := pgraph
  pcrtc := ⟨.none, 0, 0⟩
  pramdac := ⟨0, 0, 0, 0, 0, 0, 0, 0, 0, 0, 0, 0⟩
  puserdac := ⟨0, fun _ => 0⟩
  vga := vga

end Device

/-- What happens to the device. `pciReset` says that the reset is one of the whole bus. -/
inductive DeviceEvent where
  | read (block : RegBlock) (addr size : Nat)
  | write (block : RegBlock) (addr : Nat) (val : Word)
  | fifo (lost : Bool)
  | fifoEnter
  | raise
  | vblank
  | reset (pciReset : Bool)
  deriving DecidableEq

def Device.step (E : Env ρ ν) (d : Device ρ ν) : DeviceEvent → Option (Option Word × Device ρ ν)
  | .read block addr size => (d.read E block addr size).map fun r => (some r.1, r.2)
  | .write block addr val => (d.write E block addr val).map (Option.none, ·)
  | .fifo lost => (d.fifo E (.iterate lost)).map (Option.none, ·)
  | .fifoEnter => (d.fifo E .enter).map (Option.none, ·)
  | .raise => d.raise.map (Option.none, ·)
  | .vblank => some (Option.none, d.vblank)
  | .reset pciReset =>
    let d := d.reset E.vga
    some (Option.none, if pciReset then d.busReset E else d)

end XogMobile.Nv2a
