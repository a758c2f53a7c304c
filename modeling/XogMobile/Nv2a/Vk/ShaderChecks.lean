import XogMobile.Lib.Lists
import XogMobile.Nv2a.Vk.ShaderState

/-!
# The check of the shader state

The shader state depends on the registers that the check looks at, on the fields that it compares with the
bound state and on the vertex program, and on the specular powers and the point parameters, which it does
not look at. If it finds nothing and those are as in the bound state, the bound state is the current one.
-/

namespace XogMobile.Nv2a.Vk.Pipeline

open Lib List

variable {host : Host} {pg pg' : Pg}

def SameProgram (data data' : Nat → Nat → Word) : Prop :=
  ∀ row < 136, ∀ col < 4, data row col = data' row col

instance (data data' : Nat → Nat → Word) : Decidable (SameProgram data data') :=
  inferInstanceAs (Decidable (∀ row < 136, ∀ col < 4, _))

theorem SameProgram.copyProgram {data data' : Nat → Nat → Word} (h : SameProgram data data')
    {i n : Nat} (hn : i + n ≤ 136) : copyProgram data i n = copyProgram data' i n := by
  induction n generalizing i with
  | zero => rfl
  | succ n ih =>
    have htoken : (range 4).map (data i) = (range 4).map (data' i) :=
      map_congr_left fun col hcol => h i (by omega) col (mem_range.mp hcol)
    rw [Pipeline.copyProgram, Pipeline.copyProgram, htoken, h i (by omega) 3 (by decide), ih (by omega)]

structure SameInputs (pg pg' : Pg) : Prop where
  regs : ∀ r ∈ shaderRegs, pg.reg r = pg'.reg r
  stages : ∀ i < pg'.numStages, ∀ r ∈ stageRegs i, pg.reg r = pg'.reg r
  textures : ∀ i < 4, ∀ r ∈ textureRegs i, pg.reg r = pg'.reg r
  programData : SameProgram pg.programData pg'.programData
  uniformAttrs : pg.uniformAttrs = pg'.uniformAttrs
  swizzleAttrs : pg.swizzleAttrs = pg'.swizzleAttrs
  compressedAttrs : pg.compressedAttrs = pg'.compressedAttrs
  primitiveMode : pg.primitiveMode = pg'.primitiveMode
  surfaceScaleFactor : pg.surfaceScaleFactor = pg'.surfaceScaleFactor
  zetaFormat : pg.zetaFormat = pg'.zetaFormat
  textureMatrix : pg'.vertexMode = 0 → ∀ i < 4, pg.textureMatrixEnable i = pg'.textureMatrixEnable i
  specularPower : pg.specularPower = pg'.specularPower
  specularPowerBack : pg.specularPowerBack = pg'.specularPowerBack
  pointParams : pg'.pointParamsEnable = true → ∀ i < 8, pg.pointParams i = pg'.pointParams i

namespace SameInputs

section

variable (h : SameInputs pg pg')
include h

theorem vertexMode : pg.vertexMode = pg'.vertexMode := by
  rw [Pg.vertexMode, Pg.vertexMode, h.regs csv0D (by decide)]

theorem pointParamsEnable : pg.pointParamsEnable = pg'.pointParamsEnable := by
  rw [Pg.pointParamsEnable, Pg.pointParamsEnable, h.regs csv0D (by decide)]

theorem numStages : pg.numStages = pg'.numStages := by
  rw [Pg.numStages, Pg.numStages, h.regs combineCtl (by decide)]

theorem fixedFunction (hmode : pg'.vertexMode = 0) : setFixedFunctionVshState pg = setFixedFunctionVshState pg' := by
  have hmatrix : (range 4).map pg.textureMatrixEnable = (range 4).map pg'.textureMatrixEnable :=
    map_congr_left fun i hi => h.textureMatrix hmode i (mem_range.mp hi)
  simp only [setFixedFunctionVshState, hmatrix, h.regs csv0C (by decide), h.regs csv0D (by decide),
    h.regs csv1A (by decide), h.regs csv1B (by decide), h.regs control3 (by decide)]

theorem programmable : setProgrammableVshState pg = setProgrammableVshState pg' := by
  rw [setProgrammableVshState, setProgrammableVshState, h.regs csv0C (by decide)]
  by_cases hstart : (getMask (pg'.reg csv0C) 0x0000FF00).toNat ≤ 136
  · exact h.programData.copyProgram (by omega)
  · rw [Nat.sub_eq_zero_of_le (Nat.le_of_not_le hstart)]
    rfl

theorem vsh : setVshState host pg = setVshState host pg' := by
  have hfixed : (if pg'.vertexMode = 0 then setFixedFunctionVshState pg else .zero) =
      if pg'.vertexMode = 0 then setFixedFunctionVshState pg' else .zero :=
    ite_congr rfl h.fixedFunction fun _ => rfl
  have hpoint : (if pg'.pointParamsEnable then (range 8).map pg.pointParams
      else replicate 8 0) = if pg'.pointParamsEnable then (range 8).map pg'.pointParams
      else replicate 8 0 :=
    ite_congr rfl (fun hen => map_congr_left fun i hi => h.pointParams hen i (mem_range.mp hi)) fun _ => rfl
  simp only [setVshState, h.vertexMode, h.pointParamsEnable, hfixed, hpoint, h.programmable,
    h.surfaceScaleFactor, h.compressedAttrs, h.uniformAttrs, h.swizzleAttrs, h.specularPower,
    h.specularPowerBack, h.regs csv0C (by decide), h.regs control0 (by decide),
    h.regs control3 (by decide), h.regs Pipeline.pointSize (by decide)]

theorem geom : setGeomState host pg = setGeomState host pg' := by
  simp only [setGeomState, h.primitiveMode, h.regs setupRaster (by decide),
    h.regs control0 (by decide), h.regs control3 (by decide)]

theorem texture {i : Nat} (hi : i < 4) : setTexture pg i = setTexture pg' i := by
  obtain ⟨hctl, hrest⟩ := forall_mem_cons.mp (h.textures i hi)
  obtain ⟨hfilter, hfmt⟩ := forall_mem_cons.mp hrest
  have hactive : pg.textureStageActive i = pg'.textureStageActive i := by
    rw [Pg.textureStageActive, Pg.textureStageActive, h.regs shaderProg (by decide)]
  rw [setTexture, setTexture, hactive, hctl, hfilter, forall_mem_singleton.mp hfmt]

theorem combiner {i : Nat} (hi : i < pg'.numStages) : setCombiner pg i = setCombiner pg' i := by
  have hregs := h.stages i hi
  simp only [stageRegs, forall_mem_cons] at hregs
  simp only [setCombiner, hregs]

theorem psh : setPshState pg = setPshState pg' := by
  have htextures : (range 4).mapM (setTexture pg) = (range 4).mapM (setTexture pg') :=
    mapM_congr fun i hi => h.texture (mem_range.mp hi)
  have hcombiners : (range pg'.numStages).map (setCombiner pg) =
      (range pg'.numStages).map (setCombiner pg') :=
    map_congr_left fun i hi => h.combiner (mem_range.mp hi)
  simp only [setPshState, htextures, hcombiners, h.numStages, h.zetaFormat,
    h.regs combineCtl (by decide), h.regs combineSpecFog0 (by decide),
    h.regs combineSpecFog1 (by decide), h.regs control0 (by decide), h.regs control3 (by decide),
    h.regs setupRaster (by decide), h.regs shaderClipMode (by decide), h.regs shaderCtl (by decide),
    h.regs shaderProg (by decide), h.regs shadowCtl (by decide), h.regs zCompressOcclude (by decide)]

theorem getShaderState : getShaderState host pg = getShaderState host pg' := by
  rw [Pipeline.getShaderState, Pipeline.getShaderState, h.vsh, h.geom, h.psh]

end

end SameInputs

def watchedRegs : List Nat :=
  shaderRegs ++ (List.range 8).flatMap stageRegs ++ (List.range 4).flatMap textureRegs

structure MadeFrom (pg : Pg) (b : ShaderState) : Prop where
  uniformAttrs : b.vsh.uniformAttrs = pg.uniformAttrs
  swizzleAttrs : b.vsh.swizzleAttrs = pg.swizzleAttrs
  compressedAttrs : b.vsh.compressedAttrs = pg.compressedAttrs
  primitiveMode : b.geom.primitiveMode = pg.primitiveMode
  surfaceScaleFactor : b.vsh.surfaceScaleFactor = pg.surfaceScaleFactor
  zetaFormat : b.psh.surfaceZetaFormat = pg.zetaFormat
  textureMatrix : pg.vertexMode = 0 →
    b.vsh.fixedFunction.textureMatrixEnable = (List.range 4).map pg.textureMatrixEnable
  specularPower : b.vsh.specularPower = pg.specularPower
  specularPowerBack : b.vsh.specularPowerBack = pg.specularPowerBack
  pointParamsEnable : b.vsh.pointParamsEnable = pg.pointParamsEnable
  pointParams : pg.pointParamsEnable = true → b.vsh.pointParams = (List.range 8).map pg.pointParams
  stages : pg.numStages ≤ 8

variable {b : ShaderState}

theorem madeFrom_of_eq_some (h : getShaderState host pg = some b) : MadeFrom pg b := by
  simp only [getShaderState, Option.bind_eq_bind, Option.bind_eq_some_iff, Option.some.injEq] at h
  obtain ⟨vsh, hvsh, psh, hpsh, rfl⟩ := h
  simp only [setPshState, Option.bind_eq_bind, Option.bind_eq_some_iff] at hpsh
  obtain ⟨textures, -, depthFormat, -, hpsh⟩ := hpsh
  unfold setVshState at hvsh
  split at hvsh
  · cases hvsh
    split at hpsh
    · cases hpsh
    case isFalse hstages =>
      cases hpsh
      exact {
        uniformAttrs := rfl
        swizzleAttrs := rfl
        compressedAttrs := rfl
        primitiveMode := rfl
        surfaceScaleFactor := rfl
        zetaFormat := rfl
        textureMatrix := fun hmode => by
          rw [if_pos hmode, setFixedFunctionVshState]
        specularPower := rfl
        specularPowerBack := rfl
        pointParamsEnable := rfl
        pointParams := fun hen => if_pos hen
        stages := Nat.le_of_not_lt hstages }
  · cases hvsh

def MarkedSince (host : Host) (pg : Pg) (b : ShaderState) : Prop :=
  ∃ old : Pg, getShaderState host old = some b ∧ pg.regs.Since old.reg watchedRegs ∧
    (pg.programDataDirty = false → SameProgram pg.programData old.programData)

def UncheckedSame (pg : Pg) (b : ShaderState) : Prop :=
  pg.specularPower = b.vsh.specularPower ∧ pg.specularPowerBack = b.vsh.specularPowerBack ∧
    (b.vsh.pointParamsEnable = true → (List.range 8).map pg.pointParams = b.vsh.pointParams)

instance (pg : Pg) (b : ShaderState) : Decidable (UncheckedSame pg b) :=
  inferInstanceAs (Decidable (_ ∧ _ ∧ (_ → _)))

theorem getShaderState_of_not_dirty (hsince : MarkedSince host pg b)
    (hclean : checkShaderStateDirty pg b = false) (hsame : UncheckedSame pg b) :
    getShaderState host pg = some b := by
  obtain ⟨old, hold, hregs, hprogram⟩ := hsince
  have hmade := madeFrom_of_eq_some hold
  simp only [checkShaderStateDirty, Bool.or_eq_false_iff, any_eq_false, Bool.not_eq_true,
    bne_eq_false_iff_eq, mem_range] at hclean
  obtain ⟨⟨⟨⟨hprogram', hshader⟩, hstage⟩, ⟨⟨⟨⟨huniform, hswizzle⟩, hcompressed⟩, hprimitive⟩, hscale⟩,
    hzeta⟩, htexture⟩ := hclean
  have hread {r : Nat} (hr : r ∈ watchedRegs) (hdirty : pg.regs.dirty r = false) :
      pg.reg r = old.reg r := hregs r hr hdirty
  have hcombine : pg.reg combineCtl = old.reg combineCtl := hread (by decide) (hshader combineCtl (by decide))
  have hstages : old.numStages = pg.numStages := by rw [Pg.numStages, Pg.numStages, hcombine]
  refine Eq.trans (SameInputs.getShaderState ?_) hold
  exact {
    regs := fun r hr => hread (mem_append_left _ (mem_append_left _ hr)) (hshader r hr)
    stages := fun i hi r hr => by
      refine hread (mem_append_left _ (mem_append_right _ ?_)) ?_
      · exact mem_flatMap.mpr ⟨i, mem_range.mpr (Nat.lt_of_lt_of_le hi hmade.stages), hr⟩
      · exact hstage i (hstages ▸ hi) r hr
    textures := fun i hi r hr => by
      refine hread (mem_append_right _ ?_) ((htexture i hi).1 r hr)
      exact mem_flatMap.mpr ⟨i, mem_range.mpr hi, hr⟩
    programData := hprogram hprogram'
    uniformAttrs := huniform.trans hmade.uniformAttrs
    swizzleAttrs := hswizzle.trans hmade.swizzleAttrs
    compressedAttrs := hcompressed.trans hmade.compressedAttrs
    primitiveMode := hprimitive.trans hmade.primitiveMode
    surfaceScaleFactor := hscale.trans hmade.surfaceScaleFactor
    zetaFormat := hzeta.trans hmade.zetaFormat
    textureMatrix := fun hfixed i hi => by
      rw [(htexture i hi).2, hmade.textureMatrix hfixed]
      simp [hi]
    specularPower := hsame.1.trans hmade.specularPower
    specularPowerBack := hsame.2.1.trans hmade.specularPowerBack
    pointParams := fun hen i hi => by
      have hparams := hsame.2.2 (hmade.pointParamsEnable.trans hen)
      rw [hmade.pointParams hen] at hparams
      exact map_inj_left.mp hparams i (mem_range.mpr hi) }

end XogMobile.Nv2a.Vk.Pipeline
