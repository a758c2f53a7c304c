import XogMobile.Nv2a.Pgraph

/-!
# The batched Kelvin methods

The methods that may take several words in one call, under their names in the method table. A method
has a range of addresses, and what one word does at a slot of it comes in three parts: the register
writes, the effect on the vertices and the effect on the rest. An assertion that fails is `none`. The
registers a batched method writes are its own: not the ones below `0x800`, which select the channel
and the context, and not the two control registers that decide whether a draw writes anything.
-/

namespace XogMobile.Nv2a

open Lib Function List

variable {ρ : Type}

def BatchWritable (addr : Nat) : Prop := 0x800 ≤ addr ∧ addr ≠ control0 ∧ addr ≠ control1

structure KelvinMethod (ρ : Type) where
  (base words : Nat)
  /-- Batched when the command does not increase the method, and not when it does. -/
  nonInc : Bool := false
  writes : Nat → Word → (Nat → Word) → Option (List (Nat × Word)) := fun _ _ _ => some []
  /-- `none` for a handler that does not touch the vertices. -/
  vertices : Option (Nat → Word → Vertices → Option Vertices) := none
  aux : Nat → Word → Control → Vertices → Aux ρ → Aux ρ := fun _ _ _ _ a => a
  writable : ∀ slot w regs ws, slot < words → writes slot w regs = some ws →
    ∀ write ∈ ws, BatchWritable write.1 := by
      intro _ _ _ _ _ h; cases h; exact nofun

namespace KelvinMethod

def register (base words addr : Nat) (h : ∀ slot < words, BatchWritable (addr + slot * 4)) :
    KelvinMethod ρ where
  base := base
  words := words
  writes slot w _ := some [(addr + slot * 4, w)]
  writable := by
    rintro slot w regs ws hslot ⟨⟩ write hwrite
    rw [List.mem_singleton.mp hwrite]
    exact h slot hslot

def registersFrom (base addr : Nat) (h : ∀ slot < 8, BatchWritable (addr + slot * 4)) :
    KelvinMethod ρ where
  base := base
  words := 8
  writes slot w _ := some ((List.range' slot (8 - slot)).map fun s => (addr + s * 4, w))
  writable := by
    rintro slot w regs ws hslot ⟨⟩ write hwrite
    obtain ⟨s, hs, rfl⟩ := List.mem_map.mp hwrite
    have hlt := (List.mem_range'_1.mp hs).2
    exact h s (by omega)

def store (base words : Nat) (f : Nat → Word → Aux ρ → Aux ρ) : KelvinMethod ρ where
  base := base
  words := words
  aux slot w _ _ := f slot w

/-- The same, where `none` is a failed assertion. -/
def storeChecked (base words : Nat) (f : Nat → Word → Option (Aux ρ → Aux ρ)) : KelvinMethod ρ where
  base := base
  words := words
  writes slot w _ := (f slot w).map fun _ => []
  aux slot w _ _ := (f slot w).getD id
  writable := by
    intro slot w regs ws _ h write hwrite
    obtain ⟨_, -, rfl⟩ := Option.map_eq_some_iff.mp h
    exact nomatch hwrite

/-- A word of a matrix, from `row` of the constants on. -/
def constant (base words : Nat) (row col : Nat → Nat) : KelvinMethod ρ :=
  store base words fun slot w a => { a with vshConstants := a.vshConstants.set (row slot) (col slot) w }

def matrices (base words row : Nat) : KelvinMethod ρ :=
  constant base words (fun slot => row + slot / 16 * 8 + slot % 16 / 4) fun slot => slot % 16 % 4

def lightContext (base words row : Nat) : KelvinMethod ρ :=
  store base words fun slot w a => { a with ltctxa := a.ltctxa.set row slot w }

def allocateInlineBufferVertices (v : Vertices) (attr : VertexAttribute) : VertexAttribute :=
  if attr.inlineBufferPopulated ∨ v.inlineBufferLength = 0 then attr
  else { attr with
    inlineBufferPopulated := true
    inlineBuffer := fun i =>
      if i < v.inlineBufferLength then attr.inlineValue else attr.inlineBuffer i }

/-- The copy `pgraph_finish_inline_buffer_vertex` makes of an attribute. -/
def copyInlineValue (v : Vertices) (attr : VertexAttribute) : VertexAttribute :=
  if attr.inlineBufferPopulated then
    { attr with
      inlineBuffer := update attr.inlineBuffer v.inlineBufferLength attr.inlineValue }
  else attr

/-- Set components of the inline value of an attribute. `finish` says at which slots the vertex
ends. -/
def inlineValue (base words : Nat) (index : Nat → Nat) (values : Nat → Word → List (Nat × Flt))
    (finish : Option (Nat → Bool) := none) : KelvinMethod ρ where
  base := base
  words := words
  vertices := finish.map fun ends slot _ v =>
    if ends slot then v.finishInlineBufferVertex else some v
  aux slot w _ v a :=
    let attr := allocateInlineBufferVertices v (a.vertexAttributes (index slot))
    let value := (values slot w).foldl (fun f c => update f c.1 c.2) attr.inlineValue
    let attrs := update a.vertexAttributes (index slot) { attr with inlineValue := value }
    { a with
      vertexAttributes :=
        if finish.elim false fun ends => ends slot then fun i => copyInlineValue v (attrs i)
        else attrs }

/-- `*(float *)&parameter` in component `slot`, and fixed values in others. -/
def floatAt (fixed : List (Nat × Flt)) (slot : Nat) (w : Word) : List (Nat × Flt) :=
  (slot, .bits w) :: fixed

/-- Two signed 16-bit values, from component `first` on. -/
def shortsAt (first : Nat) (fixed : List (Nat × Flt)) (w : Word) : List (Nat × Flt) :=
  (first, .ofInt16 (w.setWidth 16)) :: (first + 1, .ofInt16 ((w >>> 16).setWidth 16)) :: fixed

def bytesAt (f : BitVec 8 → Flt) (w : Word) : List (Nat × Flt) :=
  [(0, f (w.setWidth 8)), (1, f ((w >>> 8).setWidth 8)), (2, f ((w >>> 16).setWidth 8)),
    (3, f ((w >>> 24).setWidth 8))]

end KelvinMethod

instance (addr : Nat) : Decidable (BatchWritable addr) := inferInstanceAs (Decidable (_ ∧ _))

open KelvinMethod

def setCombinerAlphaIcw : KelvinMethod ρ := register 0x0260 8 0x18C0 (by decide)
def setCombinerAlphaOcw : KelvinMethod ρ := register 0x0AA0 8 0x18E0 (by decide)
def setCombinerColorIcw : KelvinMethod ρ := register 0x0AC0 8 0x1900 (by decide)
def setCombinerColorOcw : KelvinMethod ρ := register 0x1E40 8 0x1920 (by decide)
def setCombinerFactor0 : KelvinMethod ρ := register 0x0A60 8 0x1880 (by decide)
def setCombinerFactor1 : KelvinMethod ρ := register 0x0A80 8 0x18A0 (by decide)
def setColorKeyColor : KelvinMethod ρ := register 0x0AE0 4 0x1870 (by decide)
def setEyeVector : KelvinMethod ρ := register 0x181C 3 0x1AAC (by decide)
def setSpecularFogFactor : KelvinMethod ρ := register 0x1E20 2 0x19AC (by decide)

def setWindowClipHorizontal : KelvinMethod ρ := registersFrom 0x02C0 0x1A44 (by decide)
def setWindowClipVertical : KelvinMethod ρ := registersFrom 0x02E0 0x1A64 (by decide)

def setFogParams : KelvinMethod ρ where
  base := 0x09C0
  words := 3
  writes slot w _ := some (if slot < 2 then [(0x1984 + slot * 4, w)] else [])
  aux slot w _ _ a := { a with ltctxa := a.ltctxa.set 0x15 slot w }
  writable := by
    rintro slot w regs ws hslot ⟨⟩ write hwrite
    split at hwrite
    · rw [List.mem_singleton.mp hwrite]
      have : ∀ slot < 3, BatchWritable (0x1984 + slot * 4) := by decide
      exact this slot hslot
    · exact nomatch hwrite

def setProjectionMatrix : KelvinMethod ρ := constant 0x0440 16 (fun slot => 4 + slot / 4) (· % 4)
def setCompositeMatrix : KelvinMethod ρ := constant 0x0680 16 (fun slot => slot / 4) (· % 4)
def setModelViewMatrix : KelvinMethod ρ := matrices 0x0480 64 0x08
def setInverseModelViewMatrix : KelvinMethod ρ := matrices 0x0580 64 0x0C
def setTextureMatrix : KelvinMethod ρ := matrices 0x06C0 64 0x44
def setTexgenPlaneS : KelvinMethod ρ := matrices 0x0840 64 0x40

def setFogPlane : KelvinMethod ρ := constant 0x09D0 4 (fun _ => 0x39) id
def setViewportOffset : KelvinMethod ρ := constant 0x0A20 4 (fun _ => 0x3B) id
def setEyePosition : KelvinMethod ρ := constant 0x0A50 4 (fun _ => 0x38) id
def setViewportScale : KelvinMethod ρ := constant 0x0AF0 4 (fun _ => 0x3A) id

def setMaterialEmission : KelvinMethod ρ := lightContext 0x03A8 3 0x13
def setSceneAmbientColor : KelvinMethod ρ := lightContext 0x0A10 3 0x11
def setEyeDirection : KelvinMethod ρ := lightContext 0x17E0 3 0x10

def setTextureMatrixEnable : KelvinMethod ρ := store 0x0420 4 fun slot w a =>
  { a with textureMatrixEnable := update a.textureMatrixEnable slot (w != 0) }

def setPointParams : KelvinMethod ρ := store 0x0A30 8 fun slot w a =>
  { a with pointParams := update a.pointParams slot (.bits w) }

def setTransformData : KelvinMethod ρ := store 0x1E80 4 fun slot w a =>
  { a with vertexStateShaderV0 := update a.vertexStateShaderV0 slot w }

def setSpecularParams : KelvinMethod ρ := store 0x09E0 6 fun slot w a =>
  let params := update a.specularParams slot (.bits w)
  { a with
    specularParams := params
    specularPower := if slot = 5 then .specularPower params else a.specularPower }

def setSpecularParamsBack : KelvinMethod ρ := store 0x1E28 6 fun slot w a =>
  let params := update a.specularParamsBack slot (.bits w)
  { a with
    specularParamsBack := params
    specularPowerBack := if slot = 5 then .specularPower params else a.specularPowerBack }

/-- `NV_PGRAPH_CHEOPS_OFFSET`, with the load pointers of programs and constants. -/
def cheopsOffset : Nat := 0xFC4

def loadPointer (mask : Word) (limit slot : Nat) (regs : Nat → Word) : Option (List (Nat × Word)) :=
  let load := getMask (regs cheopsOffset) mask
  if load.toNat < limit then
    some (if slot % 4 = 3 then [(cheopsOffset, setMask (regs cheopsOffset) mask (load + 1))] else [])
  else none

theorem loadPointer_writable {mask : Word} {limit slot : Nat} {regs : Nat → Word}
    {ws : List (Nat × Word)} (h : loadPointer mask limit slot regs = some ws) :
    ∀ write ∈ ws, BatchWritable write.1 := by
  intro write hwrite
  obtain ⟨-, ⟨⟩⟩ := Option.ite_none_right_eq_some.mp h
  split at hwrite
  · rw [mem_singleton.mp hwrite]
    exact (by decide : BatchWritable cheopsOffset)
  · exact nomatch hwrite

def setTransformProgram : KelvinMethod ρ where
  base := 0x0B00
  words := 32
  writes slot _ regs := loadPointer 0xFF 136 slot regs
  aux slot w control _ a :=
    let load := (getMask (control.regs cheopsOffset) 0xFF).toNat
    { a with
      programData := update a.programData load
        (update (a.programData load) (slot % 4) w)
      programDataDirty := true }
  writable _ _ _ _ _ h := loadPointer_writable h

def setTransformConstant : KelvinMethod ρ where
  base := 0x0B80
  words := 32
  writes slot _ regs := loadPointer 0xFF00 192 slot regs
  aux slot w control _ a :=
    let load := (getMask (control.regs cheopsOffset) 0xFF00).toNat
    let old := a.vshConstants
    { a with
      vshConstants := {
        entry := (old.set load (slot % 4) w).entry
        dirty := update old.dirty load
          (old.dirty load || w != old.entry load (slot % 4)) } }
  writable _ _ _ _ _ h := loadPointer_writable h

def backLightField (light part : Nat) (w : Word) : Option (Aux ρ → Aux ρ) :=
  let color (row first : Nat) : Option (Aux ρ → Aux ρ) :=
    some fun a => { a with ltctxb := a.ltctxb.set (row + light * 6) (part - first) w }
  if part ≤ 2 then color 3 0
  else if part ≤ 5 then color 4 3
  else if part ≤ 8 then color 5 6
  else none

def setBackLightAmbientColor : KelvinMethod ρ :=
  storeChecked 0x0C00 128 fun slot w => backLightField (slot / 16) (slot % 16) w

def setVector (vectors : Nat → Nat → Flt) (light part : Nat) (w : Word) : Nat → Nat → Flt :=
  update vectors light (update (vectors light) part (.bits w))

def lightField (light part : Nat) (w : Word) : Option (Aux ρ → Aux ρ) :=
  let color (row first : Nat) : Option (Aux ρ → Aux ρ) :=
    some fun a => { a with ltctxb := a.ltctxb.set (row + light * 6) (part - first) w }
  if part ≤ 2 then color 0 0
  else if part ≤ 5 then color 1 3
  else if part ≤ 8 then color 2 6
  else if part = 9 then some fun a => { a with ltc1 := a.ltc1.set (4 + light) 0 w }
  else if part ≤ 12 then some fun a =>
    { a with lightInfiniteHalfVector := setVector a.lightInfiniteHalfVector light (part - 10) w }
  else if part ≤ 15 then some fun a =>
    { a with lightInfiniteDirection := setVector a.lightInfiniteDirection light (part - 13) w }
  else if part ≤ 18 then some fun a =>
    { a with ltctxa := a.ltctxa.set (0 + light * 2) (part - 16) w }
  else if part ≤ 22 then some fun a =>
    { a with ltctxa := a.ltctxa.set (1 + light * 2) (part - 19) w }
  else if part ≤ 25 then some fun a =>
    { a with lightLocalPosition := setVector a.lightLocalPosition light (part - 23) w }
  else if part ≤ 28 then some fun a =>
    { a with lightLocalAttenuation := setVector a.lightLocalAttenuation light (part - 26) w }
  else none

def setLightAmbientColor : KelvinMethod ρ :=
  storeChecked 0x1000 256 fun slot w => lightField (slot / 32) (slot % 32) w

def textureAttr (i : Nat) : Nat := 9 + i

def zeroOne : List (Nat × Flt) := [(2, .zero), (3, .one)]

def setVertex3f : KelvinMethod ρ :=
  inlineValue 0x1500 3 (fun _ => 0) (floatAt [(3, .one)]) (some (· == 2))
def setVertex4f : KelvinMethod ρ := inlineValue 0x1518 4 (fun _ => 0) (floatAt []) (some (· == 3))
def setNormal3f : KelvinMethod ρ := inlineValue 0x1530 3 (fun _ => 2) (floatAt [])

def setNormal3s : KelvinMethod ρ := inlineValue 0x1540 3 (fun _ => 2) fun slot w =>
  [(slot % 2 * 2, .unitInt16 (w.setWidth 16)), (slot % 2 * 2 + 1, .unitInt16 ((w >>> 16).setWidth 16))]

def setDiffuseColor4f : KelvinMethod ρ := inlineValue 0x1550 4 (fun _ => 3) (floatAt [])
def setDiffuseColor3f : KelvinMethod ρ := inlineValue 0x1560 3 (fun _ => 3) (floatAt [(3, .one)])
def setDiffuseColor4ub : KelvinMethod ρ :=
  inlineValue 0x156C 1 (fun _ => 3) fun _ => bytesAt .unitByte
def setSpecularColor4f : KelvinMethod ρ := inlineValue 0x1570 4 (fun _ => 4) (floatAt [])
def setSpecularColor3f : KelvinMethod ρ := inlineValue 0x1580 3 (fun _ => 4) (floatAt [(3, .one)])
def setSpecularColor4ub : KelvinMethod ρ :=
  inlineValue 0x158C 1 (fun _ => 4) fun _ => bytesAt .unitByte

def texcoord2f (base unit : Nat) : KelvinMethod ρ :=
  inlineValue base 2 (fun _ => textureAttr unit) (floatAt zeroOne)
def texcoord2s (base unit : Nat) : KelvinMethod ρ :=
  inlineValue base 1 (fun _ => textureAttr unit) fun _ => shortsAt 0 zeroOne
def texcoord4f (base unit : Nat) : KelvinMethod ρ :=
  inlineValue base 4 (fun _ => textureAttr unit) (floatAt [])
def texcoord4s (base unit : Nat) : KelvinMethod ρ :=
  inlineValue base 2 (fun _ => textureAttr unit) fun slot => shortsAt (slot % 2 * 2) []

def setTexcoord0_2f : KelvinMethod ρ := texcoord2f 0x1590 0
def setTexcoord0_2s : KelvinMethod ρ := texcoord2s 0x1598 0
def setTexcoord0_4f : KelvinMethod ρ := texcoord4f 0x15A0 0
def setTexcoord0_4s : KelvinMethod ρ := texcoord4s 0x15B0 0
def setTexcoord1_2f : KelvinMethod ρ := texcoord2f 0x15B8 1
def setTexcoord1_2s : KelvinMethod ρ := texcoord2s 0x15C0 1
def setTexcoord1_4f : KelvinMethod ρ := texcoord4f 0x15C8 1
def setTexcoord1_4s : KelvinMethod ρ := texcoord4s 0x15D8 1
def setTexcoord2_2f : KelvinMethod ρ := texcoord2f 0x15E0 2
def setTexcoord2_2s : KelvinMethod ρ := texcoord2s 0x15E8 2
def setTexcoord2_4f : KelvinMethod ρ := texcoord4f 0x15F0 2
def setTexcoord2_4s : KelvinMethod ρ := texcoord4s 0x1600 2
def setTexcoord3_2f : KelvinMethod ρ := texcoord2f 0x1608 3
def setTexcoord3_2s : KelvinMethod ρ := texcoord2s 0x1610 3
def setTexcoord3_4f : KelvinMethod ρ := texcoord4f 0x1620 3
def setTexcoord3_4s : KelvinMethod ρ := texcoord4s 0x1630 3

def setWeight2f : KelvinMethod ρ := inlineValue 0x16A0 2 (fun _ => 1) (floatAt zeroOne)
def setWeight3f : KelvinMethod ρ := inlineValue 0x16B0 3 (fun _ => 1) (floatAt [(3, .one)])
def setWeight4f : KelvinMethod ρ := inlineValue 0x16C0 4 (fun _ => 1) (floatAt [])

def setVertexData2fM : KelvinMethod ρ := inlineValue 0x1880 32 (fun slot => slot / 2)
  (fun slot => floatAt zeroOne (slot % 2)) (some fun slot => slot / 2 == 0 && slot % 2 == 1)
def setVertexData2s : KelvinMethod ρ :=
  inlineValue 0x1900 16 id (fun _ => shortsAt 0 zeroOne) (some (· == 0))
def setVertexData4ub : KelvinMethod ρ :=
  inlineValue 0x1940 16 id (fun _ => bytesAt .unitByteDouble) (some (· == 0))
def setVertexData4sM : KelvinMethod ρ := inlineValue 0x1980 32 (fun slot => slot / 2)
  (fun slot => shortsAt (slot % 2 * 2) []) (some fun slot => slot / 2 == 0 && slot % 2 == 1)
def setVertexData4fM : KelvinMethod ρ := inlineValue 0x1A00 64 (fun slot => slot / 4)
  (fun slot => floatAt [] (slot % 4)) (some fun slot => slot / 4 == 0 && slot % 4 == 3)

def setVertexDataArrayOffset : KelvinMethod ρ := store 0x1720 16 fun slot w a =>
  { a with vertexAttributes := update a.vertexAttributes slot { a.vertexAttributes slot with
      dmaSelect := w &&& 0x80000000 != 0
      offset := w &&& 0x7FFFFFFF } }

def formatSize (format count : Word) : Option Word :=
  if format = 0 then if count = 4 then some 1 else none  -- `UB_D3D`
  else if format = 4 then some 1  -- `UB_OGL`
  else if format = 1 then some 2  -- `S1`
  else if format = 2 then some 4  -- `F`
  else if format = 5 then some 2  -- `S32K`
  else if format = 6 then if count = 1 then some 4 else none  -- `CMP`
  else none

def setVertexDataArrayFormat : KelvinMethod ρ := storeChecked 0x1760 16 fun slot w =>
  let format := getMask w 0x0000000F
  let count := getMask w 0x000000F0
  let bit : BitVec 16 := 1#16 <<< slot
  (formatSize format count).map fun size a => { a with
    vertexAttributes := update a.vertexAttributes slot { a.vertexAttributes slot with
      format := format
      count := count
      size := size
      stride := getMask w 0xFFFFFF00 }
    compressedAttrs :=
      if format = 6 then a.compressedAttrs ||| bit else a.compressedAttrs &&& ~~~bit }

def expandFlush (R : Renderer ρ) (control : Control) (v : Vertices) (a : Aux ρ) : Aux ρ :=
  if 1 < v.drawArrays.length then R.flushDraw control v a else a

def arrayElement16 (R : Renderer ρ) : KelvinMethod ρ where
  base := 0x1800
  words := 1
  nonInc := true
  vertices := some fun _ w v => v.arrayElement16 w
  aux _ _ := expandFlush R

def arrayElement32 (R : Renderer ρ) : KelvinMethod ρ where
  base := 0x1808
  words := 1
  nonInc := true
  vertices := some fun _ w v => v.arrayElement32 w
  aux _ _ := expandFlush R

def inlineArray : KelvinMethod ρ where
  base := 0x1818
  words := 1
  nonInc := true
  vertices := some fun _ w v => v.inlineArrayMethod w

/-- The batched methods of `pgraph_kelvin_methods`, in the order of their addresses. -/
def batchedMethods (R : Renderer ρ) : List (KelvinMethod ρ) := [
  setCombinerAlphaIcw, setWindowClipHorizontal, setWindowClipVertical, setMaterialEmission,
  setTextureMatrixEnable, setProjectionMatrix, setModelViewMatrix, setInverseModelViewMatrix,
  setCompositeMatrix, setTextureMatrix, setTexgenPlaneS, setFogParams, setFogPlane,
  setSpecularParams, setSceneAmbientColor, setViewportOffset, setPointParams, setEyePosition,
  setCombinerFactor0, setCombinerFactor1, setCombinerAlphaOcw, setCombinerColorIcw,
  setColorKeyColor, setViewportScale, setTransformProgram, setTransformConstant,
  setBackLightAmbientColor, setLightAmbientColor, setVertex3f, setVertex4f, setNormal3f,
  setNormal3s, setDiffuseColor4f, setDiffuseColor3f, setDiffuseColor4ub, setSpecularColor4f,
  setSpecularColor3f, setSpecularColor4ub, setTexcoord0_2f, setTexcoord0_2s, setTexcoord0_4f,
  setTexcoord0_4s, setTexcoord1_2f, setTexcoord1_2s, setTexcoord1_4f, setTexcoord1_4s,
  setTexcoord2_2f, setTexcoord2_2s, setTexcoord2_4f, setTexcoord2_4s, setTexcoord3_2f,
  setTexcoord3_2s, setTexcoord3_4f, setTexcoord3_4s, setWeight2f, setWeight3f, setWeight4f,
  setVertexDataArrayOffset, setVertexDataArrayFormat, setEyeDirection, arrayElement16 R,
  arrayElement32 R, inlineArray, setEyeVector, setVertexData2fM, setVertexData2s,
  setVertexData4ub, setVertexData4sM, setVertexData4fM, setSpecularFogFactor,
  setSpecularParamsBack, setCombinerColorOcw, setTransformData]

namespace KelvinMethod

/-- `METHOD_RANGE_END_NAME`. -/
def rangeEnd (m : KelvinMethod ρ) : Nat := m.base + 4 * m.words

def Covers (m : KelvinMethod ρ) (method : Nat) : Prop := m.base ≤ method ∧ method < m.rangeEnd

instance (m : KelvinMethod ρ) (method : Nat) : Decidable (m.Covers method) :=
  inferInstanceAs (Decidable (_ ∧ _))

end KelvinMethod

variable {m : KelvinMethod ρ} {R : Renderer ρ}

theorem find_covers {methods : List (KelvinMethod ρ)} {method : Nat}
    (hdisjoint : methods.Pairwise fun m m' => m.rangeEnd ≤ m'.base) (hm : m ∈ methods)
    (hcovers : m.Covers method) : methods.find? (fun m => decide (m.Covers method)) = some m := by
  induction hdisjoint with
  | nil => cases hm
  | @cons first rest hfirst _ ih =>
    obtain rfl | hrest := mem_cons.mp hm
    · exact find?_cons_of_pos (by simpa using hcovers)
    · have hnot : ¬first.Covers method := by
        intro h
        have hle := hfirst m hrest
        exact absurd (h.2.trans_le (hle.trans hcovers.1)) (lt_irrefl _)
      rw [find?_cons_of_neg (by simpa using hnot)]
      exact ih hrest

def batchedRanges : List (Nat × Nat) :=
  (batchedMethods (ρ := Unit) ⟨fun _ _ a => a, fun _ _ a => a, fun _ _ a => a⟩).map
    fun m => (m.base, m.rangeEnd)

set_option maxRecDepth 2000 in
theorem map_batchedMethods (R : Renderer ρ) :
    ((batchedMethods R).map fun m => (m.base, m.rangeEnd)) = batchedRanges := rfl

theorem batchedMethods_disjoint (R : Renderer ρ) : (batchedMethods R).Pairwise fun m m' => m.rangeEnd ≤ m'.base := by
  have hsorted : batchedRanges.Pairwise fun r r' => r.2 ≤ r'.1 := by decide +kernel
  rw [← map_batchedMethods R] at hsorted
  exact pairwise_map.mp hsorted

theorem batchedMethods_bounds (hm : m ∈ batchedMethods R) : 0x200 ≤ m.base ∧ m.rangeEnd ≤ 0x2000 ∧ 4 ∣ m.base := by
  have hall : ∀ r ∈ batchedRanges, 0x200 ≤ r.1 ∧ r.2 ≤ 0x2000 ∧ 4 ∣ r.1 := by decide +kernel
  rw [← map_batchedMethods R] at hall
  exact hall _ (mem_map_of_mem hm)

def finishAt (ends : Nat → Bool) (slot : Nat) (_ : Word) (v : Vertices) : Option Vertices :=
  if ends slot then v.finishInlineBufferVertex else some v

set_option maxRecDepth 2000 in
theorem filterMap_vertices (R : Renderer ρ) : ((batchedMethods R).filterMap fun m => m.vertices.map (m.base, ·)) = [
      (0x1500, finishAt (· == 2)), (0x1518, finishAt (· == 3)),
      (0x1800, fun _ w v => v.arrayElement16 w), (0x1808, fun _ w v => v.arrayElement32 w),
      (0x1818, fun _ w v => v.inlineArrayMethod w),
      (0x1880, finishAt fun slot => slot / 2 == 0 && slot % 2 == 1), (0x1900, finishAt (· == 0)),
      (0x1940, finishAt (· == 0)), (0x1980, finishAt fun slot => slot / 2 == 0 && slot % 2 == 1),
      (0x1A00, finishAt fun slot => slot / 4 == 0 && slot % 4 == 3)] := rfl

theorem vertices_cases (hm : m ∈ batchedMethods R) : m.vertices = none ∨ (∃ ends, m.vertices = some (finishAt ends)) ∨
      m.vertices = some (fun _ w v => v.inlineArrayMethod w) ∨
      (m.base = 0x1800 ∧ m.vertices = some fun _ w v => v.arrayElement16 w) ∨
      (m.base = 0x1808 ∧ m.vertices = some fun _ w v => v.arrayElement32 w) := by
  cases hv : m.vertices with
  | none => exact .inl rfl
  | some f =>
    have hmem : (m.base, f) ∈ (batchedMethods R).filterMap fun m => m.vertices.map (m.base, ·) :=
      mem_filterMap.mpr ⟨m, hm, by rw [hv]; rfl⟩
    rw [filterMap_vertices] at hmem
    simp only [mem_cons, not_mem_nil, or_false, Prod.mk.injEq] at hmem
    obtain ⟨-, rfl⟩ | ⟨-, rfl⟩ | h | h | ⟨-, rfl⟩ | ⟨-, rfl⟩ | ⟨-, rfl⟩ | ⟨-, rfl⟩ | ⟨-, rfl⟩ |
      ⟨-, rfl⟩ := hmem
    · exact .inr (.inl ⟨_, rfl⟩)
    · exact .inr (.inl ⟨_, rfl⟩)
    · exact .inr (.inr (.inr (.inl ⟨h.1, congrArg some h.2⟩)))
    · exact .inr (.inr (.inr (.inr ⟨h.1, congrArg some h.2⟩)))
    · exact .inr (.inr (.inl rfl))
    all_goals exact .inr (.inl ⟨_, rfl⟩)

end XogMobile.Nv2a
