import XogMobile.Nv2a.Interrupts
import XogMobile.Nv2a.Seen

/-!
# What the guest observes

A renderer that keeps every draw it is asked for, with all that a renderer reads of PGRAPH. What the
guest observes of a step of the device is the word it reads, the interrupt line and the draws so far.
Devices that show the same are observed to be the same, whatever the guest does.
-/

namespace XogMobile.Nv2a

open Lib

variable {ρ σ ν : Type}

def Aux.map (f : ρ → σ) (a : Aux ρ) : Aux σ where
  regsDirty := a.regsDirty
  vshConstants := a.vshConstants
  programData := a.programData
  programDataDirty := a.programDataDirty
  ltctxa := a.ltctxa
  ltctxb := a.ltctxb
  ltc1 := a.ltc1
  lightInfiniteHalfVector := a.lightInfiniteHalfVector
  lightInfiniteDirection := a.lightInfiniteDirection
  lightLocalPosition := a.lightLocalPosition
  lightLocalAttenuation := a.lightLocalAttenuation
  specularParams := a.specularParams
  specularPower := a.specularPower
  specularParamsBack := a.specularParamsBack
  specularPowerBack := a.specularPowerBack
  pointParams := a.pointParams
  textureMatrixEnable := a.textureMatrixEnable
  vertexStateShaderV0 := a.vertexStateShaderV0
  vertexAttributes := a.vertexAttributes
  compressedAttrs := a.compressedAttrs
  renderer := f a.renderer

structure Draw (σ : Type) where
  control : Control
  vertices : Vertices
  aux : Aux σ

/-- The state of a renderer that keeps its draws. `rest` is the state of PGRAPH that only the methods
outside this development change. -/
structure Recorder (σ : Type) where
  rest : σ
  draws : List (Draw σ)

def record (c : Control) (v : Vertices) (a : Aux (Recorder σ)) : Aux (Recorder σ) :=
  { a with renderer := { a.renderer with
    draws := a.renderer.draws ++ [⟨c, v.seen, (a.map Recorder.rest).seen⟩] } }

def recording : Renderer (Recorder σ) where
  drawBegin _ _ a := a
  drawEnd c v a := if c.isNopDraw then a else record c v a
  flushDraw := record

theorem record_blind (c : Control) : Blind (record (σ := σ) c) := blind_of_seen fun _ _ => rfl

theorem drawEnd_blind (c : Control) : Blind ((recording (σ := σ)).drawEnd c) := by
  intro v v' a a' hv ha
  change Aux.seen (ite _ _ _) = Aux.seen (ite _ _ _)
  split
  · exact ha
  · exact record_blind c v v' a a' hv ha

/-- What is around the device, with a renderer that keeps its draws. The other methods do not depend
on marks. -/
structure Surroundings (σ ν : Type) extends Env (Recorder σ) ν where
  records : ∀ instanceAddr, (gpu instanceAddr).toRenderer = recording
  blind : ∀ instanceAddr cls method w c, Blind ((gpu instanceAddr).otherAux cls method w c)

theorem Surroundings.gpu_isBlind (S : Surroundings σ ν) (instanceAddr : Word) : (S.gpu instanceAddr).IsBlind where
  drawBegin c := by
    rw [S.records instanceAddr]
    exact blind_of_seen fun _ _ => rfl
  drawEnd c := by
    rw [S.records instanceAddr]
    exact drawEnd_blind c
  flushDraw c := by
    rw [S.records instanceAddr]
    exact record_blind c
  otherAux := S.blind instanceAddr

structure Observation (σ : Type) where
  word : Option Word
  irq : Bool
  draws : List (Draw σ)

namespace Device

variable {d d' : Device (Recorder σ) ν}

def observation (word : Option Word) (d : Device (Recorder σ) ν) : Observation σ :=
  ⟨word, d.irq, d.pgraph.aux.renderer.draws⟩

def watch (i : Surroundings σ ν × DeviceEvent) (d : Device (Recorder σ) ν) :
    Option (Observation σ × Device (Recorder σ) ν) :=
  (d.step i.1.toEnv i.2).map fun r => (r.2.observation r.1, r.2)

theorem watch_shows (i : Surroundings σ ν × DeviceEvent) (d : Device (Recorder σ) ν) :
    Shows (Prod.map id seen) (d.watch i) (d.seen.watch i) :=
  (step_shows d i.1.gpu_isBlind i.2).map fun _ _ hab => congrArg (fun r => (r.2.observation r.1, r.2)) hab

theorem observe_seen (h : d.seen = d'.seen) (inputs : List (Surroundings σ ν × DeviceEvent)) :
    observe watch inputs d = observe watch inputs d' :=
  observe_congr (fun i _ _ => Shows.of_view (watch_shows i)) inputs h

def watched (d : Device (Recorder σ) ν) (i : Surroundings σ ν × DeviceEvent) :
    Option (Device (Recorder σ) ν) :=
  (d.watch i).map Prod.snd

def forgetDraws (d : Device (Recorder σ) ν) : Device (Recorder σ) ν :=
  { d with pgraph := { d.pgraph with aux := { d.pgraph.aux with
    renderer := ⟨d.pgraph.aux.renderer.rest, []⟩ } } }

def bufferSurroundings (words : List Word) : Surroundings σ Unit where
  vga := nopEnv.vga
  pciVendor := nopEnv.pciVendor
  pciClass := nopEnv.pciClass
  pciWritable := nopEnv.pciWritable
  vramSize := nopEnv.vramSize
  clock := nopEnv.clock
  ramin := nopEnv.ramin
  raminSize := nopEnv.raminSize
  gpu := fun _ => {
    recording with
    mem := (bufferGpu words).mem
    dmaLen := (bufferGpu words).dmaLen
    ramht := (bufferGpu words).ramht
    ramin := (bufferGpu words).ramin
    raminSize := (bufferGpu words).raminSize
    other := (bufferGpu words).other
    otherAux := fun _ _ _ _ _ a => a }
  squash := false
  records _ := rfl
  blind _ _ _ _ _ := blind_of_seen fun _ _ => rfl

def newDevice (rest : σ) : Device (Recorder σ) Unit :=
  initial {
    control := newPgraph.control
    vertices := newPgraph.vertices
    aux := newPgraph.aux.map fun _ => ⟨rest, []⟩
    calls := [] } ()

end Device

end XogMobile.Nv2a
