import XogMobile.Nv2a.Draws

/-!
# Snapshots

`vmstate_nv2a` is a list of the fields that a snapshot holds. Loading one overwrites these fields of a
machine that has just been started; the other fields keep the values they have there. A halted device is
made of its saved and of its unsaved fields, so that the loaded machine goes on as the saved one does
where the unsaved fields have the values of the new machine. Guests do change the unsaved ones: the list
of the vertex attributes is empty, and lights, point parameters, the enabled texture matrices and the
flat panel's registers are missing from `vmstate_nv2a`.
-/

namespace XogMobile.Nv2a

open Lib

variable {κ υ ν : Type}

/-- The fields of `vmstate_nv2a`. `rest` has those that only methods outside this development use. -/
structure Snapshot (κ ν : Type) where
  irq : Bool
  pciCommand : Word
  vga : ν
  pgraphIntr : Interrupts
  rest : κ
  primitiveMode : Word
  vertexStateShaderV0 : Nat → Word
  programData : Nat → Nat → Word
  (vshConstants ltctxa ltctxb ltc1 : Table)
  inlineArray : List Word
  inlineElements : List Nat
  inlineBufferLength : Nat
  drawArrays : List (Nat × Nat)
  control : Control
  (pmc pfifoIntr : Interrupts)
  (pfifo pvideo : Nat → Word)
  ptimer : Ptimer
  pfb : Nat → Word
  pcrtcIntr : Interrupts
  (pcrtcStart coreClockCoeff : Word)
  coreClockFreq : Nat
  (memoryClockCoeff videoClockCoeff : Word)
  puserdac : Puserdac

/-- The fields of the device that are missing there, but for marks of what has changed. One more is outside
this development: `draw_arrays_min_start`, which bounds the vertex data that a draw synchronises. -/
structure Unsaved (υ : Type) where
  rest : υ
  (raster generalControl fpVdisplayEnd fpVcrtc fpVsyncEnd fpVvalidEnd fpHdisplayEnd fpHcrtc : Word)
  fpHvalidEnd : Word
  preventConnect : Bool
  (lightInfiniteHalfVector lightInfiniteDirection lightLocalPosition : Nat → Nat → Flt)
  lightLocalAttenuation : Nat → Nat → Flt
  specularParams : Nat → Flt
  specularPower : Flt
  specularParamsBack : Nat → Flt
  specularPowerBack : Flt
  pointParams : Nat → Flt
  textureMatrixEnable : Nat → Bool
  vertexAttributes : Nat → VertexAttribute
  compressedAttrs : BitVec 16

namespace Device

def save (d : Device (Recorder (κ × υ)) ν) : Snapshot κ ν where
  irq := d.irq
  pciCommand := d.pciCommand
  vga := d.vga
  pgraphIntr := d.pgraphIntr
  rest := d.pgraph.aux.renderer.rest.1
  primitiveMode := d.pgraph.vertices.primitiveMode
  vertexStateShaderV0 := d.pgraph.aux.vertexStateShaderV0
  programData := d.pgraph.aux.programData
  vshConstants := d.pgraph.aux.vshConstants
  ltctxa := d.pgraph.aux.ltctxa
  ltctxb := d.pgraph.aux.ltctxb
  ltc1 := d.pgraph.aux.ltc1
  inlineArray := d.pgraph.vertices.inlineArray
  inlineElements := d.pgraph.vertices.inlineElements
  inlineBufferLength := d.pgraph.vertices.inlineBufferLength
  drawArrays := d.pgraph.vertices.drawArrays
  control := d.pgraph.control
  pmc := d.pmc
  pfifoIntr := d.pfifoIntr
  pfifo := d.pfifo
  pvideo := d.pvideo
  ptimer := d.ptimer
  pfb := d.pfb
  pcrtcIntr := d.pcrtc.intr
  pcrtcStart := d.pcrtc.start
  coreClockCoeff := d.pramdac.coreClockCoeff
  coreClockFreq := d.pramdac.coreClockFreq
  memoryClockCoeff := d.pramdac.memoryClockCoeff
  videoClockCoeff := d.pramdac.videoClockCoeff
  puserdac := d.puserdac

def load (s : Snapshot κ ν) (d : Device (Recorder (κ × υ)) ν) : Device (Recorder (κ × υ)) ν :=
  { d with
    irq := s.irq
    pciCommand := s.pciCommand
    vga := s.vga
    pgraphIntr := s.pgraphIntr
    pgraph := { d.pgraph with
      control := s.control
      vertices := { d.pgraph.vertices with
        primitiveMode := s.primitiveMode
        inlineArray := s.inlineArray
        inlineElements := s.inlineElements
        inlineBufferLength := s.inlineBufferLength
        drawArrays := s.drawArrays }
      aux := { d.pgraph.aux with
        vertexStateShaderV0 := s.vertexStateShaderV0
        programData := s.programData
        vshConstants := s.vshConstants
        ltctxa := s.ltctxa
        ltctxb := s.ltctxb
        ltc1 := s.ltc1
        renderer := { d.pgraph.aux.renderer with
          rest := (s.rest, d.pgraph.aux.renderer.rest.2) } } }
    pmc := s.pmc
    pfifoIntr := s.pfifoIntr
    pfifo := s.pfifo
    pvideo := s.pvideo
    ptimer := s.ptimer
    pfb := s.pfb
    pcrtc := { d.pcrtc with intr := s.pcrtcIntr, start := s.pcrtcStart }
    pramdac := { d.pramdac with
      coreClockCoeff := s.coreClockCoeff
      coreClockFreq := s.coreClockFreq
      memoryClockCoeff := s.memoryClockCoeff
      videoClockCoeff := s.videoClockCoeff }
    puserdac := s.puserdac }

def unsaved (d : Device (Recorder (κ × υ)) ν) : Unsaved υ where
  rest := d.pgraph.aux.renderer.rest.2
  raster := d.pcrtc.raster
  generalControl := d.pramdac.generalControl
  fpVdisplayEnd := d.pramdac.fpVdisplayEnd
  fpVcrtc := d.pramdac.fpVcrtc
  fpVsyncEnd := d.pramdac.fpVsyncEnd
  fpVvalidEnd := d.pramdac.fpVvalidEnd
  fpHdisplayEnd := d.pramdac.fpHdisplayEnd
  fpHcrtc := d.pramdac.fpHcrtc
  fpHvalidEnd := d.pramdac.fpHvalidEnd
  preventConnect := d.pgraph.vertices.preventConnect
  lightInfiniteHalfVector := d.pgraph.aux.lightInfiniteHalfVector
  lightInfiniteDirection := d.pgraph.aux.lightInfiniteDirection
  lightLocalPosition := d.pgraph.aux.lightLocalPosition
  lightLocalAttenuation := d.pgraph.aux.lightLocalAttenuation
  specularParams := d.pgraph.aux.specularParams
  specularPower := d.pgraph.aux.specularPower
  specularParamsBack := d.pgraph.aux.specularParamsBack
  specularPowerBack := d.pgraph.aux.specularPowerBack
  pointParams := d.pgraph.aux.pointParams
  textureMatrixEnable := d.pgraph.aux.textureMatrixEnable
  vertexAttributes := d.pgraph.aux.vertexAttributes
  compressedAttrs := d.pgraph.aux.compressedAttrs

/-- The FIFO engine is outside of its loop, and no method is between the locks. -/
structure Halted {ρ : Type} (d : Device ρ ν) : Prop where
  running : d.running = false
  raising : d.raising = none

variable {d fresh : Device (Recorder (κ × υ)) ν}

theorem load_save (d : Device (Recorder (κ × υ)) ν) : d.load d.save = d := rfl

theorem load_seen (s : Snapshot κ ν) (hd : d.Halted) (hfresh : fresh.Halted) (h : fresh.unsaved = d.unsaved) :
    (fresh.load s).forgetDraws.seen = (d.load s).forgetDraws.seen := by
  obtain ⟨hrest, hraster, hcontrol, hvdisplay, hvcrtc, hvsync, hvvalid, hhdisplay, hhcrtc, hhvalid,
    hconnect, hhalf, hdirection, hposition, hattenuation, hparams, hpower, hparamsBack, hpowerBack,
    hpoint, htexture, hattributes, hcompressed⟩ := Unsaved.mk.inj h
  simp only [load, forgetDraws, seen, Pgraph.seen, Vertices.seen, Aux.seen, hd.running, hd.raising,
    hfresh.running, hfresh.raising, hrest, hraster, hcontrol, hvdisplay, hvcrtc, hvsync, hvvalid,
    hhdisplay, hhcrtc, hhvalid, hconnect, hhalf, hdirection, hposition, hattenuation, hparams, hpower,
    hparamsBack, hpowerBack, hpoint, htexture, hattributes, hcompressed]

def matrixBuffer : List Word := [0x00040420, 1, 0x000417FC, 1, 0x40041818, 5, 0x000417FC, 0]

def matrixInputs (events : List DeviceEvent) :
    List (Surroundings (Unit × Unit) Unit × DeviceEvent) :=
  events.map (bufferSurroundings matrixBuffer, ·)

def started : Device (Recorder (Unit × Unit)) Unit := (newDevice ((), ())).reset nopEnv.vga

def setUpEvents : List DeviceEvent := [
  .write .pgraph 0x144 0x00010000, .write .pgraph 0x160 0x97, .write .pgraph 0x720 1,
  .write .pgraph 0x194C 0x3C000000, .write .pfifo 0x504 1, .write .pfifo 0x1204 0x100,
  .write .pfifo 0x1280 1, .write .pfifo 0x1250 1, .write .pfifo 0x1200 1, .write .pfifo 0x1220 1]

def matrixEvents : List DeviceEvent :=
  setUpEvents ++ [.write .user 0x40 8, .fifoEnter, .fifo false, .fifo false, .fifo false]

def pointEvents : List DeviceEvent :=
  [.write .user 0x40 32, .fifoEnter, .fifo false, .fifo false, .fifo false, .fifo false, .fifo false,
    .fifo false]

def matrixView (observed : List (Option (Observation (Unit × Unit)))) : Option (List Bool) :=
  (observed.getLast?.join).map fun o => o.draws.map (·.aux.textureMatrixEnable 0)

end Device

end XogMobile.Nv2a
