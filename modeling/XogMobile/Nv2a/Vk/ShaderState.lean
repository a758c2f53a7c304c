import XogMobile.Lib.Marked
import XogMobile.Nv2a.Pgraph

/-!
# The state of the shaders

`pgraph_glsl_get_shader_state` collects what the three shaders are made from. It is not called for each
draw: `pgraph_glsl_check_shader_state_dirty` looks at the marks of the registers and at some of the other
fields first. Floats are modelled by their bits.
-/

namespace XogMobile.Nv2a.Vk.Pipeline

open Lib

def csv0D : Nat := 0x0FB4
def csv0C : Nat := 0x0FB8
def csv1B : Nat := 0x0FBC
def csv1A : Nat := 0x0FC0
def blend : Nat := 0x1804
def blendColor : Nat := 0x1808
def combineAlphaI0 : Nat := 0x18C0
def combineAlphaO0 : Nat := 0x18E0
def combineColorI0 : Nat := 0x1900
def combineColorO0 : Nat := 0x1920
def combineCtl : Nat := 0x1940
def combineSpecFog0 : Nat := 0x1944
def combineSpecFog1 : Nat := 0x1948
def control2 : Nat := 0x1954
def control3 : Nat := 0x1958
def pointSize : Nat := 0x198C
def setupRaster : Nat := 0x1990
def shaderClipMode : Nat := 0x1994
def shaderCtl : Nat := 0x1998
def shaderProg : Nat := 0x199C
def shadowCtl : Nat := 0x19A4
def texCtl0 : Nat := 0x19CC
def texFilter0 : Nat := 0x19F4
def texFmt0 : Nat := 0x1A04
def zCompressOcclude : Nat := 0x1A84
def zOffsetBias : Nat := 0x1AA4
def zOffsetFactor : Nat := 0x1AA8

def bit (v mask : Word) : Bool := v &&& mask != 0

/-- `VertexAttribute`, as far as the bindings depend on it. -/
structure Attribute where
  (format count size stride : Nat)
  inlineBufferPopulated : Bool

structure Pg where
  regs : Marked Nat Word
  programData : Nat → Nat → Word
  programDataDirty : Bool
  vertexAttributes : Nat → Attribute
  (uniformAttrs swizzleAttrs compressedAttrs : List Nat)
  primitiveMode : Word
  surfaceScaleFactor : Nat
  zetaFormat : Word
  (textureMatrixEnable textureDirty : Nat → Bool)
  (specularPower specularPowerBack : Word)
  pointParams : Nat → Word

variable (pg : Pg)

/-- `pgraph_reg_r`. -/
def Pg.reg (r : Nat) : Word := pg.regs.value r

structure Winding where
  (tri triStrip0 triStrip1 triFan : Nat)

/-- What does not change: `get_gpu_properties`, if the renderer has it, and the bits of `v / 8.0f`. -/
structure Host where
  winding : Option Winding
  eighth : Word → Word

structure FixedFunctionVshState where
  normalization : Bool
  textureMatrixEnable : List Bool
  texgen : List (List Word)
  (foggen skinning : Word)
  lighting : Bool
  light : List Word
  (emissionSrc ambientSrc diffuseSrc specularSrc : Word)
  localEye : Bool
  deriving DecidableEq

def FixedFunctionVshState.zero : FixedFunctionVshState where
  normalization := false
  textureMatrixEnable := List.replicate 4 false
  texgen := List.replicate 4 (List.replicate 4 0)
  foggen := 0
  skinning := 0
  lighting := false
  light := List.replicate 8 0
  emissionSrc := 0
  ambientSrc := 0
  diffuseSrc := 0
  specularSrc := 0
  localEye := false

/-- The masks of `S`, `T`, `R` and `Q` for a texture. -/
def texgenMasks (i : Nat) : List Word :=
  if i % 2 = 1 then [0x00700000, 0x03800000, 0x1C000000, 0xE0000000]
  else [0x00000070, 0x00000380, 0x00001C00, 0x0000E000]

def setFixedFunctionVshState : FixedFunctionVshState where
  skinning := getMask (pg.reg csv0D) 0x1C000000
  normalization := bit (pg.reg csv0C) 0x08000000
  localEye := bit (pg.reg csv0C) 0x40000000
  emissionSrc := getMask (pg.reg csv0C) 0x06000000
  ambientSrc := getMask (pg.reg csv0C) 0x01800000
  diffuseSrc := getMask (pg.reg csv0C) 0x00600000
  specularSrc := getMask (pg.reg csv0C) 0x00180000
  textureMatrixEnable := (List.range 4).map pg.textureMatrixEnable
  texgen := (List.range 4).map fun i => (texgenMasks i).map fun mask =>
    getMask (if i < 2 then pg.reg csv1A else pg.reg csv1B) mask
  lighting := bit (pg.reg csv0C) 0x80000000
  light :=
    if bit (pg.reg csv0C) 0x80000000 then
      (List.range 8).map fun i => getMask (pg.reg csv0D) (0x00000003 <<< (i * 2))
    else List.replicate 8 0
  foggen := if bit (pg.reg control3) 0x00000100 then getMask (pg.reg csv0D) 0x01C00000 else 0

def copyProgram (data : Nat → Nat → Word) : Nat → Nat → List (List Word)
  | _, 0 => []
  | i, n + 1 =>
    (List.range 4).map (data i) :: if bit (data i 3) 1 then [] else copyProgram data (i + 1) n

/-- `set_programmable_vsh_state`. The length of the program is that of the list. -/
def setProgrammableVshState : List (List Word) :=
  let start := (getMask (pg.reg csv0C) 0x0000FF00).toNat
  copyProgram pg.programData start (136 - start)

structure VshState where
  surfaceScaleFactor : Nat
  (compressedAttrs uniformAttrs swizzleAttrs : List Nat)
  fogEnable : Bool
  fogMode : Word
  (specularEnable separateSpecular ignoreSpecularAlpha : Bool)
  (specularPower specularPowerBack : Word)
  pointParamsEnable : Bool
  pointSize : Word
  pointParams : List Word
  (smoothShading zPerspective isFixedFunction : Bool)
  fixedFunction : FixedFunctionVshState
  programmable : List (List Word)
  deriving DecidableEq

def Pg.vertexMode : Word := getMask (pg.reg csv0D) 0xC0000000

def Pg.pointParamsEnable : Bool := bit (pg.reg csv0D) 0x02000000

def setVshState (host : Host) (pg : Pg) : Option VshState :=
  if pg.vertexMode = 2 ∨ pg.vertexMode = 0 then
    some {
      surfaceScaleFactor := pg.surfaceScaleFactor
      compressedAttrs := pg.compressedAttrs
      uniformAttrs := pg.uniformAttrs
      swizzleAttrs := pg.swizzleAttrs
      specularEnable := bit (pg.reg csv0C) 0x00010000
      separateSpecular := bit (pg.reg csv0C) 0x00040000
      ignoreSpecularAlpha := !bit (pg.reg csv0C) 0x00020000
      specularPower := pg.specularPower
      specularPowerBack := pg.specularPowerBack
      zPerspective := bit (pg.reg control0) 0x00800000
      pointParamsEnable := pg.pointParamsEnable
      pointSize := host.eighth (pg.reg pointSize)
      pointParams :=
        if pg.pointParamsEnable then (List.range 8).map pg.pointParams else List.replicate 8 0
      smoothShading := bit (pg.reg control3) 0x00000080
      fogEnable := bit (pg.reg control3) 0x00000100
      fogMode := if bit (pg.reg control3) 0x00000100 then getMask (pg.reg control3) 0x00070000 else 0
      isFixedFunction := decide (pg.vertexMode = 0)
      fixedFunction := if pg.vertexMode = 0 then setFixedFunctionVshState pg else .zero
      programmable := if pg.vertexMode = 0 then [] else setProgrammableVshState pg }
  else none

structure GeomState where
  (primitiveMode polygonFrontMode polygonBackMode : Word)
  (smoothShading firstVertexIsProvoking zPerspective : Bool)
  (triRot0 triRot1 : Nat)
  deriving DecidableEq

def triRot (winding : Option Winding) (primitiveMode : Word) : Nat × Nat :=
  match winding with
  | none => (0, 0)
  | some w =>
    if primitiveMode = 5 then (w.tri, w.tri)
    else if primitiveMode = 6 then (w.triStrip0, w.triStrip1)
    else if primitiveMode = 7 ∨ primitiveMode = 10 then (w.triFan, w.triFan)
    else (0, 0)

def setGeomState (host : Host) (pg : Pg) : GeomState where
  primitiveMode := pg.primitiveMode
  polygonFrontMode := getMask (pg.reg setupRaster) 0x00000003
  polygonBackMode := getMask (pg.reg setupRaster) 0x0000000C
  smoothShading := bit (pg.reg control3) 0x00000080
  firstVertexIsProvoking := bit (pg.reg control3) 0x00000001
  zPerspective := bit (pg.reg control0) 0x00800000
  triRot0 := (triRot host.winding pg.primitiveMode).1
  triRot1 := (triRot host.winding pg.primitiveMode).2

structure Combiner where
  (rgbInput rgbOutput alphaInput alphaOutput : Word)
  deriving DecidableEq

/-- What the fragment shader knows of a texture. `borderInvRealSize` has the denominators. -/
structure TextureState where
  alphakill : Bool
  (colorkeyMode dimTex : Word)
  (rectTex texX8y24 texCubemap : Bool)
  (borderLogicalSize borderInvRealSize : List Nat)
  shadowMap : Bool
  convTex : Word
  deriving DecidableEq

def TextureState.zero : TextureState where
  alphakill := false
  colorkeyMode := 0
  dimTex := 0
  rectTex := false
  texX8y24 := false
  texCubemap := false
  borderLogicalSize := [0, 0, 0]
  borderInvRealSize := [0, 0, 0]
  shadowMap := false
  convTex := 0

/-- The linear formats of `kelvin_color_format_info_map`. -/
def linearFormats : List Nat :=
  [0x10, 0x11, 0x12, 0x13, 0x17, 0x1B, 0x1C, 0x1D, 0x1E, 0x1F, 0x20, 0x24, 0x25, 0x2E, 0x2F, 0x30, 0x31,
   0x35, 0x3F, 0x40, 0x41]

def depthFormats : List Nat := [0x2C, 0x2E, 0x2F, 0x30, 0x31]

def Pg.textureStageActive (stage : Nat) : Bool :=
  let mode := (pg.reg shaderProg >>> (stage * 5)) &&& 0x1F
  mode != 0 && mode != 4

/-- The part of `pgraph_glsl_set_psh_state` for a texture that is enabled. -/
def setEnabledTexture (ctl0 fmt filter : Word) : Option TextureState :=
  let colorFormat := (getMask fmt 0x00007F00).toNat
  let linear := linearFormats.contains colorFormat
  let cubemap := bit fmt 0x00000004
  let sizes := [0x00F00000, 0x0F000000, 0xF0000000].map fun mask => 1 <<< (getMask fmt mask).toNat
  let bordered := !bit fmt 0x00000008 && !linear && !cubemap
  let convolution := getMask filter 0x003F0000 == 7
  let kernel := getMask filter 0x0000E000
  if 66 ≤ colorFormat ∨ (convolution = true ∧ kernel ≠ 1 ∧ kernel ≠ 2) then none
  else
    some {
      alphakill := bit ctl0 0x00000004
      colorkeyMode := ctl0 &&& 0x00000003
      dimTex := getMask fmt 0x000000C0
      rectTex := linear
      texX8y24 := colorFormat == 0x2E || colorFormat == 0x2F
      texCubemap := cubemap
      borderLogicalSize := if bordered then sizes else [0, 0, 0]
      borderInvRealSize :=
        if bordered then sizes.map fun size => if size < 8 then 16 else size * 2 else [0, 0, 0]
      shadowMap := depthFormats.contains colorFormat
      convTex := if convolution then kernel else 0 }

def setTexture (i : Nat) : Option TextureState :=
  if pg.textureStageActive i && bit (pg.reg (texCtl0 + i * 4)) 0x40000000 then
    setEnabledTexture (pg.reg (texCtl0 + i * 4)) (pg.reg (texFmt0 + i * 4))
      (pg.reg (texFilter0 + i * 4))
  else some .zero

inductive DepthFormat where
  | d24
  | d16
  | f24
  | f16
  deriving DecidableEq

def setDepthFormat (zetaFormat raster : Word) : Option DepthFormat :=
  let float := bit raster 0x20000000
  if zetaFormat = 1 then some (if float then .f16 else .d16)
  else if zetaFormat = 2 then some (if float then .f24 else .d24)
  else none

structure PshState where
  (combinerControl shaderStageProgram otherStageInput finalInputs0 finalInputs1 : Word)
  combiners : List Combiner
  pointSprite : Bool
  compareMode : List (List Bool)
  textures : List TextureState
  shadowDepthFunc : Word
  alphaTest : Bool
  alphaFunc : Word
  (windowClipExclusive smoothShading depthClipping zPerspective : Bool)
  surfaceZetaFormat : Word
  depthFormat : DepthFormat
  deriving DecidableEq

def Pg.numStages : Nat := (pg.reg combineCtl &&& 0xFF).toNat

def setCombiner (i : Nat) : Combiner where
  rgbInput := pg.reg (combineColorI0 + i * 4)
  rgbOutput := pg.reg (combineColorO0 + i * 4)
  alphaInput := pg.reg (combineAlphaI0 + i * 4)
  alphaOutput := pg.reg (combineAlphaO0 + i * 4)

/-- `pgraph_glsl_set_psh_state`. There is room for eight stages. -/
def setPshState : Option PshState := do
  let textures ← (List.range 4).mapM (setTexture pg)
  let depthFormat ← setDepthFormat pg.zetaFormat (pg.reg setupRaster)
  if 8 < pg.numStages then none
  else
    some {
      windowClipExclusive := bit (pg.reg setupRaster) 0x80000000
      combinerControl := pg.reg combineCtl
      shaderStageProgram := pg.reg shaderProg
      otherStageInput := pg.reg shaderCtl
      finalInputs0 := pg.reg combineSpecFog0
      finalInputs1 := pg.reg combineSpecFog1
      alphaTest := bit (pg.reg control0) 0x00001000
      alphaFunc := getMask (pg.reg control0) 0x00000F00
      pointSprite := bit (pg.reg setupRaster) 0x00000200
      shadowDepthFunc := getMask (pg.reg shadowCtl) 0x00000007
      zPerspective := bit (pg.reg control0) 0x00800000
      smoothShading := bit (pg.reg control3) 0x00000080
      depthClipping := !bit (pg.reg zCompressOcclude) 0x00000010
      combiners := (List.range pg.numStages).map (setCombiner pg)
      compareMode := (List.range 4).map fun i => (List.range 4).map fun j =>
        bit (pg.reg shaderClipMode >>> (4 * i + j)) 1
      textures := textures
      surfaceZetaFormat := pg.zetaFormat
      depthFormat := depthFormat }

structure ShaderState where
  vsh : VshState
  geom : GeomState
  psh : PshState
  deriving DecidableEq

def getShaderState (host : Host) (pg : Pg) : Option ShaderState := do
  let vsh ← setVshState host pg
  let psh ← setPshState pg
  some { vsh := vsh, geom := setGeomState host pg, psh := psh }

def shaderRegs : List Nat :=
  [combineCtl, combineSpecFog0, combineSpecFog1, control0, control3, csv0C, csv0D, csv1A, csv1B, pointSize,
   setupRaster, shaderClipMode, shaderCtl, shaderProg, shadowCtl, zCompressOcclude]

def stageRegs (i : Nat) : List Nat :=
  [combineAlphaI0 + i * 4, combineAlphaO0 + i * 4, combineColorI0 + i * 4, combineColorO0 + i * 4]

def textureRegs (i : Nat) : List Nat := [texCtl0 + i * 4, texFilter0 + i * 4, texFmt0 + i * 4]

def checkShaderStateDirty (state : ShaderState) : Bool :=
  pg.programDataDirty ||
  shaderRegs.any pg.regs.dirty ||
  ((List.range pg.numStages).any fun i => (stageRegs i).any pg.regs.dirty) ||
  (pg.uniformAttrs != state.vsh.uniformAttrs || pg.swizzleAttrs != state.vsh.swizzleAttrs ||
    pg.compressedAttrs != state.vsh.compressedAttrs || pg.primitiveMode != state.geom.primitiveMode ||
    pg.surfaceScaleFactor != state.vsh.surfaceScaleFactor ||
    pg.zetaFormat != state.psh.surfaceZetaFormat) ||
  (List.range 4).any fun i => (textureRegs i).any pg.regs.dirty ||
    pg.textureMatrixEnable i != state.vsh.fixedFunction.textureMatrixEnable.getD i false

end XogMobile.Nv2a.Vk.Pipeline
