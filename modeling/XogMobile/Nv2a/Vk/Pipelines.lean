import XogMobile.Nv2a.Vk.ShaderState

/-!
# The shader binding and the pipeline

Before a draw is recorded, `create_pipeline` binds the shaders and a pipeline. Neither is chosen again as
long as the checks find nothing that has changed. A clear binds a pipeline of its own. The caches are
modelled by their keys, and a method or a write of a register by the changes it makes.
-/

namespace XogMobile.Nv2a.Vk.Pipeline

open Lib Function

/-- The `VkFormat` of an attribute, by the type and the number of its elements. -/
inductive VertexFormat where
  | undefined
  | unorm8 (count : Nat)
  | snorm16 (count : Nat)
  | sscaled16 (count : Nat)
  | sfloat32 (count : Nat)
  | sint32
  deriving DecidableEq

/-- `get_size_and_count_for_format`. -/
def VertexFormat.sizeAndCount : VertexFormat → Nat × Nat
  | .undefined => (0, 0)
  | .unorm8 count => (1, count)
  | .snorm16 count => (2, count)
  | .sscaled16 count => (2, count)
  | .sfloat32 count => (4, count)
  | .sint32 => (4, 1)

def typeUbD3d : Nat := 0
def typeS1 : Nat := 1
def typeF : Nat := 2
def typeUbOgl : Nat := 4
def typeS32k : Nat := 5
def typeCmp : Nat := 6

def Attribute.vkFormat (a : Attribute) : Option VertexFormat :=
  if a.format = typeUbD3d then if a.count = 4 then some (.unorm8 a.count) else none
  else if a.format = typeUbOgl then if a.count ≤ 4 then some (.unorm8 a.count) else none
  else if a.format = typeS1 then if a.count ≤ 4 then some (.snorm16 a.count) else none
  else if a.format = typeF then if a.count ≤ 4 then some (.sfloat32 a.count) else none
  else if a.format = typeS32k then if a.count ≤ 4 then some (.sscaled16 a.count) else none
  else if a.format = typeCmp then if a.count = 1 then some .sint32 else none
  else none

structure BindingDescription where
  (binding stride : Nat)
  deriving DecidableEq

structure AttributeDescription where
  (location binding : Nat)
  format : VertexFormat
  deriving DecidableEq

structure VertexBindings where
  (uniformAttrs swizzleAttrs compressedAttrs : List Nat)
  bindingDescriptions : List BindingDescription
  attributeDescriptions : List AttributeDescription

namespace VertexBindings

def empty : VertexBindings := ⟨[], [], [], [], []⟩

def uniform (b : VertexBindings) (i : Nat) : VertexBindings :=
  { b with uniformAttrs := b.uniformAttrs ++ [i] }

def active (b : VertexBindings) (i stride : Nat) (format : VertexFormat) : VertexBindings :=
  { b with
    bindingDescriptions := b.bindingDescriptions ++ [⟨b.bindingDescriptions.length, stride⟩]
    attributeDescriptions :=
      b.attributeDescriptions ++ [⟨i, b.bindingDescriptions.length, format⟩] }

def mark (b : VertexBindings) (i : Nat) (swizzle compressed : Bool) : VertexBindings :=
  { b with
    swizzleAttrs := if swizzle then b.swizzleAttrs ++ [i] else b.swizzleAttrs
    compressedAttrs := if compressed then b.compressedAttrs ++ [i] else b.compressedAttrs }

end VertexBindings

variable (attrs : Nat → Attribute)

/-- One attribute of `pgraph_vk_bind_vertex_attributes`. -/
def bindAttribute (strideOf : Attribute → Nat) (b : VertexBindings) (i : Nat) :
    Option VertexBindings :=
  let a := attrs i
  if a.count = 0 then some (b.uniform i)
  else
    a.vkFormat.map fun format =>
      if strideOf a = 0 then b.uniform i
      else (b.active i (strideOf a) format).mark i (a.format == typeUbD3d) (a.format == typeCmp)

def bindVertexAttributes (strideOf : Attribute → Nat) : Option VertexBindings :=
  (List.range 16).foldlM (bindAttribute attrs strideOf) .empty

def bindVertexAttributesInline : VertexBindings :=
  (List.range 16).foldl (fun b i =>
    if (attrs i).inlineBufferPopulated then b.active i 16 (.sfloat32 4) else b.uniform i) .empty

/-- `remap_unaligned_attributes`: elements that are not aligned are copied, and packed. -/
def remapStride (addr : Nat → Nat) (d : BindingDescription) (a : AttributeDescription) :
    BindingDescription :=
  let (size, count) := a.format.sizeAndCount
  if addr a.location % size = 0 ∧ d.stride % size = 0 then d else { d with stride := size * count }

def remapUnaligned (addr : Nat → Nat) (b : VertexBindings) : VertexBindings :=
  { b with
    bindingDescriptions := b.bindingDescriptions.zipWith (remapStride addr) b.attributeDescriptions }

def vertexSize : Nat :=
  (List.range 16).foldl (fun offset i =>
    let a := attrs i
    let roundUp n := (n + a.size - 1) / a.size * a.size
    if a.count = 0 then offset else roundUp (roundUp offset + a.size * a.count)) 0

inductive Batch where
  | ram (addr : Nat → Nat)
  | inlineBuffer
  | inlineArray

def bindBatch : Batch → Option VertexBindings
  | .ram addr => (bindVertexAttributes attrs (·.stride)).map (remapUnaligned addr)
  | .inlineBuffer => some (bindVertexAttributesInline attrs)
  | .inlineArray =>
    let size := vertexSize attrs
    if size = 0 then none else bindVertexAttributes attrs fun _ => size

/-- `none` is `VK_FORMAT_UNDEFINED`. -/
structure RenderPassState where
  (colorFormat zetaFormat : Option Nat)
  deriving DecidableEq

/-- A clear has zeros for the shader state, which is `none` here. -/
structure PipelineKey where
  clear : Bool
  renderPassState : RenderPassState
  shaderState : Option ShaderState
  regs : List Word
  bindingDescriptions : List BindingDescription
  attributeDescriptions : List AttributeDescription
  deriving DecidableEq

def pad {α : Type} (zero : α) (l : List α) : List α := l ++ List.replicate (16 - l.length) zero

def BindingDescription.zero : BindingDescription := ⟨0, 0⟩

def AttributeDescription.zero : AttributeDescription := ⟨0, 0, .undefined⟩

def pipelineRegs : List Nat :=
  [blend, blendColor, control0, control1, control2, control3, setupRaster, zOffsetBias, zOffsetFactor]

structure DrawRecord where
  shader : Option ShaderState
  pipeline : Option PipelineKey
  currentShader : Option ShaderState
  currentPipeline : Option PipelineKey
  deriving DecidableEq

/-- PGRAPH and the renderer. `commandPipeline` is bound in the command buffer. -/
structure State where
  pg : Pg
  bindingDescriptions : List BindingDescription
  attributeDescriptions : List AttributeDescription
  (colorBinding zetaBinding : Option Nat)
  texturesBound : Bool
  shaderBinding : Option ShaderState
  pipelineBinding : Option PipelineKey
  pipelineBindingChanged : Bool
  renderPass : Option RenderPassState
  inRenderPass : Bool
  commandPipeline : Option PipelineKey
  draws : List DrawRecord

namespace State

variable (host : Host) (x : State)

def renderPassState : RenderPassState := ⟨x.colorBinding, x.zetaBinding⟩

/-- `init_pipeline_key`, for a shader state. -/
def pipelineKey (shader : ShaderState) : PipelineKey where
  clear := false
  renderPassState := x.renderPassState
  shaderState := some shader
  regs := pipelineRegs.map x.pg.reg
  bindingDescriptions := pad .zero x.bindingDescriptions
  attributeDescriptions := pad .zero x.attributeDescriptions

def clearKey (parameter : Word) : PipelineKey where
  clear := true
  renderPassState := x.renderPassState
  shaderState := none
  regs := parameter :: List.replicate 8 0
  bindingDescriptions := pad .zero []
  attributeDescriptions := pad .zero []

def bindVertices (b : VertexBindings) (x : State) : State :=
  { x with
    pg := { x.pg with
      uniformAttrs := b.uniformAttrs
      swizzleAttrs := b.swizzleAttrs
      compressedAttrs := b.compressedAttrs }
    bindingDescriptions := b.bindingDescriptions
    attributeDescriptions := b.attributeDescriptions }

def checkTexturesDirty : Bool := !x.texturesBound || (List.range 4).any x.pg.textureDirty

/-- `pgraph_vk_bind_textures`. The mark of a texture that is not enabled stays. -/
def bindTextures : State :=
  if x.checkTexturesDirty then
    { x with
      texturesBound := true
      pg := { x.pg with
        textureDirty := fun i => x.pg.textureDirty i && !bit (x.pg.reg (texCtl0 + i * 4)) 0x40000000 } }
  else x

def shaderClean : Bool :=
  match x.shaderBinding with
  | some b => !checkShaderStateDirty x.pg b
  | none => false

def bindShaders : Option State :=
  if x.shaderClean then some x
  else
    (getShaderState host x.pg).map fun s =>
      { x with pg := { x.pg with programDataDirty := false }, shaderBinding := some s }

def checkPipelineDirty (bindingsChanged : Bool) : Bool :=
  match x.pipelineBinding with
  | none => true
  | some key =>
    bindingsChanged ||
    x.renderPassState != key.renderPassState ||
    pipelineRegs.any x.pg.regs.dirty ||
    (key.attributeDescriptions.take x.attributeDescriptions.length != x.attributeDescriptions ||
      key.bindingDescriptions.take x.bindingDescriptions.length != x.bindingDescriptions)

def bindPipeline (key : PipelineKey) (x : State) : State :=
  { x with
    pipelineBindingChanged := decide (x.pipelineBinding ≠ some key)
    pipelineBinding := some key }

def cleanRegs : State := { x with pg := { x.pg with regs := x.pg.regs.clean } }

def createPipeline : Option State := do
  let texturesChanged := x.checkTexturesDirty
  let y ← x.bindTextures.bindShaders host
  let shader ← y.shaderBinding
  let shaderChanged := decide (x.shaderBinding ≠ some shader)
  if y.checkPipelineDirty (shaderChanged || texturesChanged) then
    some (y.bindPipeline (y.pipelineKey shader)).cleanRegs
  else some y.cleanRegs

/-- The rest of `begin_pre_draw`: a render pass that does not fit the pipeline is ended. -/
def fitRenderPass : State :=
  let pass := x.pipelineBinding.map (·.renderPassState)
  { x with renderPass := pass, inRenderPass := x.inRenderPass && decide (x.renderPass = pass) }

def beginDraw : State :=
  { x with
    commandPipeline :=
      if x.pipelineBindingChanged || !x.inRenderPass then x.pipelineBinding else x.commandPipeline
    inRenderPass := true }

def record : State :=
  { x with draws := x.draws ++ [{
      shader := x.shaderBinding
      pipeline := x.commandPipeline
      currentShader := getShaderState host x.pg
      currentPipeline := (getShaderState host x.pg).map x.pipelineKey }] }

def consume (batch : Batch) (x : State) : State :=
  match batch with
  | .inlineBuffer =>
    { x with pg := { x.pg with
      vertexAttributes := fun i => { x.pg.vertexAttributes i with inlineBufferPopulated := false } } }
  | _ => x

def withBatch (batch : Batch) (x : State) : Option State :=
  (bindBatch x.pg.vertexAttributes batch).map fun b => (x.bindVertices b).consume batch

def hasSurface : Bool := x.colorBinding.isSome || x.zetaBinding.isSome

def flushDraw (batch : Batch) (x : State) : Option State :=
  if x.hasSurface then do
    let y ← x.withBatch batch
    let z ← y.createPipeline host
    some (z.fitRenderPass.beginDraw.record host)
  else some x

def isNopDraw : Bool :=
  !(bit (x.pg.reg control0) 0x3C000000 || bit (x.pg.reg control0) 0x00004000 ||
    bit (x.pg.reg control1) 0x00000001)

def drawEnd (batch : Batch) (x : State) : Option State :=
  if x.isNopDraw then some x else x.flushDraw host batch

/-- `pgraph_vk_clear_surface`. It ends the render pass before and after. -/
def clearSurface (parameter : Word) (x : State) : State :=
  if x.hasSurface then
    let y := (x.bindPipeline (x.clearKey parameter)).fitRenderPass
    { { y with inRenderPass := false }.beginDraw with inRenderPass := false }
  else x

/-- `pgraph_vk_flush`, which a reset and a load ask for. -/
def flush : State :=
  { x with
    pg := { x.pg with textureDirty := fun _ => true }
    colorBinding := none
    zetaBinding := none
    inRenderPass := false }

def reset : State :=
  let x := x.flush
  { x with pg := { x.pg with regs := { x.pg.regs with value := fun _ => 0 } } }

end State

/-- What a snapshot has of this state; the list of the vertex attributes' fields is empty. -/
structure Saved where
  regs : Nat → Word
  programData : Nat → Nat → Word
  (primitiveMode zetaFormat : Word)

def State.load (s : Saved) (x : State) : State :=
  { x with pg := { x.pg with
      regs := { x.pg.regs with value := s.regs }
      programData := s.programData
      primitiveMode := s.primitiveMode
      zetaFormat := s.zetaFormat } }.flush

inductive Change where
  | reg (r : Nat) (v : Word)
  | program (row col : Nat) (v : Word)
  | vertexAttribute (i : Nat) (a : Attribute)
  | primitiveMode (v : Word)
  | surfaceScaleFactor (n : Nat)
  | zetaFormat (v : Word)
  | textureMatrixEnable (i : Nat) (b : Bool)
  | textureDirty (i : Nat)
  | specularPower (v : Word)
  | specularPowerBack (v : Word)
  | pointParam (i : Nat) (v : Word)

def Pg.change (pg : Pg) : Change → Pg
  | .reg r v => { pg with regs := pg.regs.write r v }
  | .program row col v =>
    { pg with
      programData := update pg.programData row (update (pg.programData row) col v)
      programDataDirty := true }
  | .vertexAttribute i a => { pg with vertexAttributes := update pg.vertexAttributes i a }
  | .primitiveMode v => { pg with primitiveMode := v }
  | .surfaceScaleFactor n => { pg with surfaceScaleFactor := n }
  | .zetaFormat v => { pg with zetaFormat := v }
  | .textureMatrixEnable i b =>
    { pg with textureMatrixEnable := update pg.textureMatrixEnable i b }
  | .textureDirty i => { pg with textureDirty := update pg.textureDirty i true }
  | .specularPower v => { pg with specularPower := v }
  | .specularPowerBack v => { pg with specularPowerBack := v }
  | .pointParam i v => { pg with pointParams := update pg.pointParams i v }

inductive Event where
  | method (changes : List Change)
  | surfaces (color zeta : Option Nat)
  | endRenderPass
  | drawEnd (batch : Batch)
  | flushDraw (batch : Batch)
  | clear (parameter : Word)
  | reset
  | load (s : Saved)

def step (host : Host) (x : State) : Event → Option State
  | .method changes => some { x with pg := changes.foldl Pg.change x.pg }
  | .surfaces color zeta => some { x with colorBinding := color, zetaBinding := zeta }
  | .endRenderPass => some { x with inRenderPass := false }
  | .drawEnd batch => x.drawEnd host batch
  | .flushDraw batch => x.flushDraw host batch
  | .clear parameter => some (x.clearSurface parameter)
  | .reset => some x.reset
  | .load s => some (x.load s)

/-- After the reset at power-on, whose flush has marked the textures. -/
def State.initial : State where
  pg := {
    regs := ⟨fun _ => 0, fun _ => false⟩
    programData := fun _ _ => 0
    programDataDirty := false
    vertexAttributes := fun _ => ⟨typeUbD3d, 0, 0, 0, false⟩
    uniformAttrs := []
    swizzleAttrs := []
    compressedAttrs := []
    primitiveMode := 0
    surfaceScaleFactor := 1
    zetaFormat := 0
    textureMatrixEnable := fun _ => false
    textureDirty := fun _ => true
    specularPower := 0
    specularPowerBack := 0
    pointParams := fun _ => 0 }
  bindingDescriptions := []
  attributeDescriptions := []
  colorBinding := none
  zetaBinding := none
  texturesBound := false
  shaderBinding := none
  pipelineBinding := none
  pipelineBindingChanged := false
  renderPass := none
  inRenderPass := false
  commandPipeline := none
  draws := []

end XogMobile.Nv2a.Vk.Pipeline
