import XogMobile.Nv2a.Draws

/-!
# What survives a reset

`nv2a_reset` clears the register arrays of PFIFO, PGRAPH and PVIDEO, the pending interrupts of most
units, the clocks, the palette and the waits of PGRAPH. It does not touch which interrupts are enabled,
the interrupts of PGRAPH, the timer's ratio, the registers of PFB, the flat panel's registers, nor what
PGRAPH keeps outside of its registers. The device after a reset is a function of these, and so is all
the guest observes from then on. They do survive: interrupts that were enabled before the reset are
delivered after it.
-/

namespace XogMobile.Nv2a

open Lib

variable {σ ν : Type}

/-- What a reset leaves alone. `pfb` is here as a whole, although reads of 0x20C and 0x410 show other things. -/
structure Kept (σ ν : Type) where
  irq : Bool
  (pciCommand pmcEnabled pfifoEnabled ptimerEnabled pcrtcEnabled : Word)
  pgraphIntr : Interrupts
  running : Bool
  raising : Option Word
  (numerator denominator : Word)
  pfb : Nat → Word
  raster : Word
  panel : Pramdac
  writeModeAddress : BitVec 16
  vga : ν
  vertices : Vertices
  aux : Aux σ

namespace Device

variable {d d' : Device (Recorder σ) ν}

def kept (V : Vga ν) (d : Device (Recorder σ) ν) : Kept σ ν where
  irq := d.irq
  pciCommand := d.pciCommand
  pmcEnabled := d.pmc.enabled
  pfifoEnabled := d.pfifoIntr.enabled
  ptimerEnabled := d.ptimer.intr.enabled
  pcrtcEnabled := d.pcrtc.intr.enabled
  pgraphIntr := d.pgraphIntr
  running := d.running
  raising := d.raising
  numerator := d.ptimer.numerator
  denominator := d.ptimer.denominator
  pfb := d.pfb
  raster := d.pcrtc.raster
  panel := { d.pramdac with
    coreClockCoeff := 0, coreClockFreq := 0, memoryClockCoeff := 0, videoClockCoeff := 0 }
  writeModeAddress := d.puserdac.writeModeAddress
  vga := V.reset d.vga
  vertices := d.pgraph.vertices.seen
  aux := (d.pgraph.aux.map Recorder.rest).seen

end Device

def Kept.afterReset (k : Kept σ ν) : Device (Recorder σ) ν where
  irq := k.irq
  pciCommand := k.pciCommand
  pmc := ⟨0, k.pmcEnabled⟩
  pfifoIntr := ⟨0, k.pfifoEnabled⟩
  pfifo := Function.update (fun _ => 0) 0x1214 lowMark
  running := k.running
  raising := k.raising
  pvideo := fun _ => 0
  ptimer := ⟨⟨0, k.ptimerEnabled⟩, k.numerator, k.denominator, 0⟩
  pfb := k.pfb
  pgraphIntr := k.pgraphIntr
  pgraph := ⟨⟨fun _ => 0, false, false, false⟩, k.vertices, k.aux.map (⟨·, []⟩), []⟩
  pcrtc := ⟨⟨0, k.pcrtcEnabled⟩, 0, k.raster⟩
  pramdac := { k.panel with
    coreClockCoeff := 0x00011C01
    coreClockFreq := 233333324
    memoryClockCoeff := 0
    videoClockCoeff := 0x0003C20D }
  puserdac := ⟨k.writeModeAddress, fun i => BitVec.ofNat 8 (i / 3)⟩
  vga := k.vga

namespace Device

variable {d d' : Device (Recorder σ) ν}

theorem reset_seen_eq (V : Vga ν) (d : Device (Recorder σ) ν) :
    (d.reset V).forgetDraws.seen = (d.kept V).afterReset := rfl

/-- Devices that agree on what a reset leaves alone are observed to be the same after it. -/
theorem reset_history (V : Vga ν) (h : d.kept V = d'.kept V)
    (inputs : List (Surroundings σ ν × DeviceEvent)) :
    observe watch inputs (d.reset V).forgetDraws = observe watch inputs (d'.reset V).forgetDraws := by
  refine observe_seen ?_ inputs
  rw [reset_seen_eq, reset_seen_eq, h]

def idleInputs (events : List DeviceEvent) : List (Surroundings Unit Unit × DeviceEvent) :=
  events.map (bufferSurroundings [], ·)

theorem reset_history_video : ∃ d : Device (Recorder Unit) Unit,
    run watched (newDevice ()) (idleInputs [.write .pvideo 0x900 5, .write .pcrtc 0x800 0x1000,
      .write .pfifo 0x1240 8]) = some d ∧ d.pvideo 0x900 = 5 ∧
    ∀ inputs : List (Surroundings Unit Unit × DeviceEvent),
      observe watch inputs (d.reset nopEnv.vga).forgetDraws =
        observe watch inputs ((newDevice ()).reset nopEnv.vga).forgetDraws :=
  ⟨_, rfl, rfl, fun inputs => reset_history nopEnv.vga rfl inputs⟩

def lineView (observed : List (Option (Observation Unit))) : List (Option (Option Word × Bool)) :=
  observed.map (Option.map fun o => (o.word, o.irq))

/-- The interrupt of the vertical blank is enabled before a reset. The reset does not disable it: the
next vertical blank asserts the line, and the guest reads what it had enabled. -/
theorem reset_keeps_enabled : ∃ d : Device (Recorder Unit) Unit,
    run watched (newDevice ()) (idleInputs [.write .pmc 0x140 1, .write .pcrtc 0x140 1]) = some d ∧
    lineView (observe watch (idleInputs [.vblank, .read .pmc 0x140 4])
      (d.reset nopEnv.vga).forgetDraws) = [some (none, true), some (some 1, true)] ∧
    lineView (observe watch (idleInputs [.vblank, .read .pmc 0x140 4])
      ((newDevice ()).reset nopEnv.vga).forgetDraws) = [some (none, false), some (some 0, false)] :=
  ⟨_, rfl, by decide +kernel, by decide +kernel⟩

end Device

end XogMobile.Nv2a
