import XogMobile.Nv2a.Vk.ShaderChecks
import XogMobile.Nv2a.Vk.Pipelines

/-!
# The pipeline of a draw

A draw is recorded with the shaders and the pipeline that would be chosen for it anew, as long as a reset or
a load overwrites no register without a mark that differs, the specular powers and the point parameters
change together with something that is checked, and the first draw after a clear has an active attribute.
The code does not see to any of these.
-/

namespace XogMobile.Nv2a.Vk.Pipeline

open Lib Option List

variable {host : Host} {x y : State}

structure VertexBindings.Good (n : Nat) (b : VertexBindings) : Prop where
  bindings : b.uniformAttrs.length + b.bindingDescriptions.length = n
  attributes : b.uniformAttrs.length + b.attributeDescriptions.length = n
  formats : ∀ d ∈ b.attributeDescriptions, d.format ≠ .undefined

namespace VertexBindings.Good

variable {n i : Nat} {b : VertexBindings}

theorem uniform (h : b.Good n) : (b.uniform i).Good (n + 1) where
  bindings := by
    simp only [VertexBindings.uniform, length_append, length_singleton, ← h.bindings]
    omega
  attributes := by
    simp only [VertexBindings.uniform, length_append, length_singleton, ← h.attributes]
    omega
  formats := h.formats

theorem active (h : b.Good n) {stride : Nat} {format : VertexFormat} (hformat : format ≠ .undefined) :
    (b.active i stride format).Good (n + 1) where
  bindings := by
    simp only [VertexBindings.active, length_append, length_singleton, ← h.bindings]
    omega
  attributes := by
    simp only [VertexBindings.active, length_append, length_singleton, ← h.attributes]
    omega
  formats d hd := by
    obtain hd | hd := mem_append.mp hd
    · exact h.formats d hd
    · rw [mem_singleton.mp hd]
      exact hformat

theorem remapUnaligned (h : b.Good n) (addr : Nat → Nat) : (remapUnaligned addr b).Good n where
  bindings := by
    have hb := h.bindings
    have ha := h.attributes
    simp only [Pipeline.remapUnaligned, length_zipWith]
    omega
  __ := h

end VertexBindings.Good

theorem Attribute.vkFormat_ne_undefined {a : Attribute} {format : VertexFormat}
    (h : a.vkFormat = some format) : format ≠ .undefined := by
  unfold vkFormat at h
  repeat' split at h
  all_goals first
    | (cases h; nofun)
    | cases h

variable {attrs : Nat → Attribute} {strideOf : Attribute → Nat} {n : Nat} {b b' : VertexBindings}
  {l : List Nat} {batch : Batch} {pg pg' : Pg}

theorem bindAttribute_good {i : Nat} (hb : b.Good n)
    (h : bindAttribute attrs strideOf b i = some b') : b'.Good (n + 1) := by
  unfold bindAttribute at h
  dsimp only at h
  split at h
  · cases h
    exact hb.uniform
  · obtain ⟨format, hformat, rfl⟩ := map_eq_some_iff.mp h
    split
    · exact hb.uniform
    · have hactive : (b.active i (strideOf (attrs i)) format).Good (n + 1) :=
        hb.active (Attribute.vkFormat_ne_undefined hformat)
      exact { hactive with }

theorem foldlM_good (hb : b.Good n) (h : l.foldlM (bindAttribute attrs strideOf) b = some b') :
    b'.Good (n + l.length) := by
  induction l generalizing n b with
  | nil =>
    cases h
    exact hb
  | cons i l ih =>
    obtain ⟨c, hc, h⟩ := bind_eq_some_iff.mp h
    have hgood := ih (bindAttribute_good hb hc) h
    rwa [Nat.add_assoc, Nat.add_comm 1] at hgood

theorem foldl_good (hb : b.Good n) : (l.foldl (fun b i =>
      if (attrs i).inlineBufferPopulated then b.active i 16 (.sfloat32 4) else b.uniform i) b).Good
      (n + l.length) := by
  induction l generalizing n b with
  | nil => exact hb
  | cons i l ih =>
    rw [foldl_cons, length_cons, Nat.add_comm l.length, ← Nat.add_assoc]
    apply ih
    split
    · exact hb.active nofun
    · exact hb.uniform

theorem empty_good : VertexBindings.empty.Good 0 := ⟨rfl, rfl, nofun⟩

theorem bindBatch_good (h : bindBatch attrs batch = some b) : b.Good 16 := by
  cases batch with
  | ram addr =>
    obtain ⟨c, hc, rfl⟩ := map_eq_some_iff.mp h
    exact (foldlM_good empty_good hc).remapUnaligned addr
  | inlineBuffer =>
    cases h
    exact foldl_good (l := range 16) empty_good
  | inlineArray =>
    simp only [bindBatch] at h
    split at h
    · cases h
    · exact foldlM_good empty_good h

theorem take_pad {α : Type} (zero : α) (l : List α) : (pad zero l).take l.length = l := take_left

/-- The draw used the shader and the pipeline of its own state. -/
def DrawRecord.Current (d : DrawRecord) : Prop :=
  d.currentShader.isSome = true ∧ d.shader = d.currentShader ∧ d.pipeline = d.currentPipeline

def Chosen (x : State) (key : PipelineKey) : Prop :=
  ∃ (b : ShaderState) (old : State), x.shaderBinding = some b ∧ key = old.pipelineKey b ∧
    x.pg.regs.Since old.pg.reg pipelineRegs ∧
    b.vsh.uniformAttrs.length + old.bindingDescriptions.length = 16 ∧
    b.vsh.uniformAttrs.length + old.attributeDescriptions.length = 16

/-- Bindings are current but for what is marked dirty. -/
structure Inv (host : Host) (x : State) : Prop where
  shader : ∀ b ∈ x.shaderBinding, MarkedSince host x.pg b
  pipeline : ∀ key ∈ x.pipelineBinding,
    key.clear = true ∧ key.attributeDescriptions = pad .zero [] ∨ Chosen x key
  command : x.inRenderPass = true → x.commandPipeline = x.pipelineBinding
  draws : ∀ d ∈ x.draws, d.Current

theorem MarkedSince.of_eq {b : ShaderState} (h : MarkedSince host pg b)
    (hregs : pg'.regs = pg.regs) (hdirty : pg'.programDataDirty = pg.programDataDirty)
    (hprogram : pg'.programData = pg.programData) : MarkedSince host pg' b := by
  obtain ⟨old, hold, hsince, hsame⟩ := h
  refine ⟨old, hold, ?_, ?_⟩
  · rw [hregs]
    exact hsince
  · rw [hdirty, hprogram]
    exact hsame

theorem Inv.withPg (hinv : Inv host x)
    (hshader : ∀ b ∈ x.shaderBinding, MarkedSince host x.pg b → MarkedSince host pg b)
    (hregs : x.shaderBinding.isSome = true → ∀ old, x.pg.regs.Since old pipelineRegs → pg.regs.Since old pipelineRegs) :
    Inv host { x with pg := pg } where
  shader b hb := hshader b hb (hinv.shader b hb)
  pipeline key hkey := by
    obtain hclear | ⟨b, old, hb, heq, hsince, hlengths⟩ := hinv.pipeline key hkey
    · exact .inl hclear
    · exact .inr ⟨b, old, hb, heq, hregs (hb ▸ rfl) _ hsince, hlengths⟩
  __ := hinv

theorem MarkedSince.change {b : ShaderState} (h : MarkedSince host pg b) (c : Change) :
    MarkedSince host (pg.change c) b := by
  cases c with
  | reg r v =>
    obtain ⟨old, hold, hsince, hsame⟩ := h
    exact ⟨old, hold, hsince.write r v, hsame⟩
  | program row col v =>
    obtain ⟨old, hold, hsince, -⟩ := h
    exact ⟨old, hold, hsince, nofun⟩
  | _ => exact h.of_eq rfl rfl rfl

theorem since_change {old : Nat → Word} (h : pg.regs.Since old pipelineRegs) (c : Change) :
    (pg.change c).regs.Since old pipelineRegs := by
  cases c with
  | reg r v => exact h.write r v
  | _ => exact h

theorem Inv.method (hinv : Inv host x) (changes : List Change) :
    Inv host { x with pg := changes.foldl Pg.change x.pg } := by
  induction changes generalizing x with
  | nil => exact hinv
  | cons c changes ih =>
    have hfirst : Inv host { x with pg := x.pg.change c } :=
      hinv.withPg (fun b _ h => h.change c) fun _ old h => since_change h c
    exact ih hfirst

theorem getShaderState_marks (pg : Pg) (regs : Marked Nat Word) (hregs : regs.value = pg.regs.value)
    (program : Bool) (textures : Nat → Bool) :
    getShaderState host { pg with regs := regs, programDataDirty := program, textureDirty := textures } =
      getShaderState host pg := by
  have hreg (r : Nat) : regs.value r = pg.reg r := congrFun hregs r
  exact SameInputs.getShaderState {
    regs := fun r _ => hreg r
    stages := fun _ _ r _ => hreg r
    textures := fun _ _ r _ => hreg r
    programData := fun _ _ _ _ => rfl
    uniformAttrs := rfl
    swizzleAttrs := rfl
    compressedAttrs := rfl
    primitiveMode := rfl
    surfaceScaleFactor := rfl
    zetaFormat := rfl
    textureMatrix := fun _ _ _ => rfl
    specularPower := rfl
    specularPowerBack := rfl
    pointParams := fun _ _ _ => rfl }

/-- The bindings of the vertices fit the set of attributes without any. -/
structure Fits (x : State) : Prop where
  bindings : x.pg.uniformAttrs.length + x.bindingDescriptions.length = 16
  attributes : x.pg.uniformAttrs.length + x.attributeDescriptions.length = 16
  formats : ∀ d ∈ x.attributeDescriptions, d.format ≠ .undefined

/-- The checks see every change, and no pipeline of a clear is kept. -/
def BindOk (x : State) : Prop :=
  (∀ b ∈ x.shaderBinding, checkShaderStateDirty x.pg b = true ∨ UncheckedSame x.pg b) ∧
    ∀ key ∈ x.pipelineBinding, key.clear = true → x.attributeDescriptions ≠ []

instance (x : State) : Decidable (BindOk x) := inferInstanceAs (Decidable (_ ∧ _))

structure Bound (host : Host) (x y : State) : Prop where
  chosen : ∃ s, getShaderState host y.pg = some s ∧ y.shaderBinding = some s ∧
    y.pipelineBinding = some (y.pipelineKey s)
  fits : Fits y
  command : y.pipelineBindingChanged = true ∨
    (y.inRenderPass = true → y.commandPipeline = y.pipelineBinding)
  draws : y.draws = x.draws

theorem bindTextures_eq (x : State) : ∃ bound textures, x.bindTextures =
    { x with texturesBound := bound, pg := { x.pg with textureDirty := textures } } := by
  unfold State.bindTextures
  split
  · exact ⟨_, _, rfl⟩
  · exact ⟨x.texturesBound, x.pg.textureDirty, rfl⟩

theorem bindShaders_spec (hinv : Inv host x) (hok : BindOk x) (h : x.bindShaders host = some y) :
    ∃ s program, getShaderState host x.pg = some s ∧
      y = { x with pg := { x.pg with programDataDirty := program }, shaderBinding := some s } := by
  unfold State.bindShaders at h
  split at h
  case isTrue hclean =>
    cases h
    unfold State.shaderClean at hclean
    split at hclean
    · next b hb =>
        have hnot : checkShaderStateDirty x.pg b = false := by simpa using hclean
        have hsame := (hok.1 b hb).resolve_left (ne_true_of_eq_false hnot)
        refine ⟨b, x.pg.programDataDirty, ?_, ?_⟩
        · exact getShaderState_of_not_dirty (hinv.shader b hb) hnot hsame
        · rw [← hb]
    · cases hclean
  case isFalse hdirty =>
    obtain ⟨s, hs, rfl⟩ := map_eq_some_iff.mp h
    exact ⟨s, false, hs, rfl⟩

theorem pipelineKey_of_not_dirty {s : ShaderState} {key : PipelineKey} {changed : Bool}
    (hkey : x.pipelineBinding = some key)
    (hchosen : key.clear = true ∧ key.attributeDescriptions = pad .zero [] ∨ Chosen x key)
    (hclear : key.clear = true → x.attributeDescriptions ≠ []) (hfits : Fits x)
    (hs : x.shaderBinding = some s) (hattrs : s.vsh.uniformAttrs = x.pg.uniformAttrs)
    (hclean : x.checkPipelineDirty changed = false) : key = x.pipelineKey s := by
  simp only [State.checkPipelineDirty, hkey, Bool.or_eq_false_iff, bne_eq_false_iff_eq,
    List.any_eq_false, Bool.not_eq_true] at hclean
  obtain ⟨⟨⟨-, hpass⟩, hregs⟩, hattributes, hbindings⟩ := hclean
  obtain ⟨hclear', hzero⟩ | ⟨b, old, hb, rfl, hsince, hlength, hlength'⟩ := hchosen
  · -- the entries of a clear are zero, and have no format
    exfalso
    obtain ⟨d, l, hd⟩ := exists_cons_of_ne_nil (hclear hclear')
    have hmem : d ∈ key.attributeDescriptions := by
      refine mem_of_mem_take (i := x.attributeDescriptions.length) ?_
      rw [hattributes, hd]
      exact mem_cons_self
    rw [hzero] at hmem
    have hformat := hfits.formats d (hd ▸ mem_cons_self)
    rw [eq_of_mem_replicate hmem] at hformat
    exact hformat rfl
  · rw [hs] at hb
    cases hb
    have hsame : x.attributeDescriptions.length = old.attributeDescriptions.length := by
      have := hfits.attributes
      rw [hattrs] at hlength'
      omega
    have hsame' : x.bindingDescriptions.length = old.bindingDescriptions.length := by
      have := hfits.bindings
      rw [hattrs] at hlength
      omega
    have hattributes' : old.attributeDescriptions = x.attributeDescriptions := by
      rw [← hattributes, hsame]
      exact (take_pad .zero old.attributeDescriptions).symm
    have hbindings' : old.bindingDescriptions = x.bindingDescriptions := by
      rw [← hbindings, hsame']
      exact (take_pad .zero old.bindingDescriptions).symm
    have hvalues : pipelineRegs.map old.pg.reg = pipelineRegs.map x.pg.reg :=
      map_congr_left fun r hr => (hsince r hr (hregs r hr)).symm
    have hpass' : old.renderPassState = x.renderPassState := hpass.symm
    simp only [State.pipelineKey, hattributes', hbindings', hvalues, hpass']

theorem createPipeline_spec (hinv : Inv host x) (hok : BindOk x) (hfits : Fits x)
    (h : x.createPipeline host = some y) : Bound host x y := by
  simp only [State.createPipeline, bind_eq_bind, bind_eq_some_iff] at h
  obtain ⟨z, hz, shader, hshader, h⟩ := h
  obtain ⟨bound, textures, htextures⟩ := bindTextures_eq x
  rw [htextures] at hz
  have hinv' : Inv host
      { x with texturesBound := bound, pg := { x.pg with textureDirty := textures } } := {
    hinv with shader := fun b hb => (hinv.shader b hb).of_eq rfl rfl rfl }
  obtain ⟨s, program, hs, hzeq⟩ := bindShaders_spec hinv' hok hz
  have hs' : getShaderState host x.pg = some s :=
    (getShaderState_marks x.pg x.pg.regs rfl x.pg.programDataDirty textures).symm.trans hs
  have hmarks := (getShaderState_marks x.pg x.pg.regs.clean rfl program textures).trans hs'
  have hattrs := (madeFrom_of_eq_some hs').uniformAttrs
  obtain rfl : s = shader := by
    rw [hzeq] at hshader
    exact some.inj hshader
  split at h
  case isTrue hdirty =>
    subst hzeq
    cases h
    refine ⟨⟨s, hmarks, rfl, rfl⟩, { hfits with }, ?_, rfl⟩
    by_cases hsame : x.pipelineBinding = some (x.pipelineKey s)
    · exact .inr fun hpass => (hinv.command hpass).trans hsame
    · exact .inl (decide_eq_true hsame)
  case isFalse hclean =>
    have hclean := eq_false_of_ne_true hclean
    have hbinding : z.pipelineBinding = x.pipelineBinding := by rw [hzeq]
    -- a pipeline is bound, and the shaders did not change
    obtain ⟨key, hkey⟩ : ∃ key, x.pipelineBinding = some key := by
      cases hkey : x.pipelineBinding with
      | some key => exact ⟨key, rfl⟩
      | none => simp [State.checkPipelineDirty, hbinding, hkey] at hclean
    have hunchanged : x.shaderBinding = some s := by
      by_contra hchanged
      simp [State.checkPipelineDirty, hbinding, hkey, hchanged] at hclean
    have hkeyeq : key = z.pipelineKey s := by
      refine pipelineKey_of_not_dirty (hbinding.trans hkey) ?_ ?_ ?_ hshader ?_ hclean <;> subst hzeq
      · obtain hcase | ⟨b, old, hb, hrest⟩ := hinv.pipeline key hkey
        · exact .inl hcase
        · exact .inr ⟨b, old, hunchanged ▸ hb, hrest⟩
      · exact hok.2 key hkey
      · exact { hfits with }
      · exact hattrs
    subst hzeq
    cases h
    refine ⟨⟨s, hmarks, rfl, ?_⟩, { hfits with }, ?_, rfl⟩
    · exact hkey.trans (congrArg some hkeyeq)
    · exact .inr hinv.command

theorem withBatch_spec (hinv : Inv host x) (h : x.withBatch batch = some y) : Inv host y ∧ Fits y := by
  obtain ⟨b, hb, rfl⟩ := map_eq_some_iff.mp h
  have hgood := bindBatch_good hb
  have hinv' : Inv host (x.bindVertices b) := {
    hinv with shader := fun s hs => (hinv.shader s hs).of_eq rfl rfl rfl }
  have hfits : Fits (x.bindVertices b) := { hgood with }
  cases batch with
  | ram addr => exact ⟨hinv', hfits⟩
  | inlineArray => exact ⟨hinv', hfits⟩
  | inlineBuffer =>
    refine ⟨hinv'.withPg (fun _ _ h => h.of_eq rfl rfl rfl) fun _ _ h => h, ?_⟩
    exact { hfits with }

theorem Bound.record (hinv : Inv host x) (hbound : Bound host x y) :
    Inv host (y.fitRenderPass.beginDraw.record host) := by
  obtain ⟨⟨s, hs, hshader, hpipeline⟩, hfits, hcommand, hdraws⟩ := hbound
  have hattrs := (madeFrom_of_eq_some hs).uniformAttrs
  -- the pipeline is bound in the command buffer now, or was before
  have hbegin : y.fitRenderPass.beginDraw.commandPipeline = y.pipelineBinding := by
    change (if (y.pipelineBindingChanged || !y.fitRenderPass.inRenderPass) = true then y.pipelineBinding
      else y.commandPipeline) = y.pipelineBinding
    split
    · rfl
    · next hkept =>
        obtain ⟨hunchanged, hpass⟩ := Bool.or_eq_false_iff.mp (eq_false_of_ne_true hkept)
        have hpass : y.fitRenderPass.inRenderPass = true := by simpa using hpass
        exact hcommand.resolve_left (ne_true_of_eq_false hunchanged) (Bool.and_eq_true_iff.mp hpass).1
  constructor
  case shader =>
    intro b hb
    rw [show b = s from some.inj (hb.symm.trans hshader)]
    exact ⟨y.pg, hs, fun _ _ _ => rfl, fun _ _ _ _ _ => rfl⟩
  case pipeline =>
    intro key hkey
    rw [show key = y.pipelineKey s from some.inj (hkey.symm.trans hpipeline)]
    refine .inr ⟨s, y, hshader, rfl, fun _ _ _ => rfl, ?_, ?_⟩
    · rw [hattrs]
      exact hfits.bindings
    · rw [hattrs]
      exact hfits.attributes
  case command => exact fun _ => hbegin
  case draws =>
    intro d hd
    obtain hd | hd := mem_append.mp hd
    · exact hinv.draws d (hdraws ▸ hd)
    · rw [mem_singleton.mp hd]
      have hcurrent : getShaderState host y.fitRenderPass.beginDraw.pg = some s := hs
      refine ⟨?_, ?_, ?_⟩
      · rw [hcurrent]
        rfl
      · exact hshader.trans hcurrent.symm
      · rw [hcurrent]
        exact hbegin.trans hpipeline

def DrawOk (x : State) (batch : Batch) : Prop := x.hasSurface = true → ∀ y ∈ x.withBatch batch, BindOk y

instance (x : State) (batch : Batch) : Decidable (DrawOk x batch) :=
  inferInstanceAs (Decidable (_ → _))

theorem Inv.flushDraw (hinv : Inv host x) (hok : DrawOk x batch)
    (h : x.flushDraw host batch = some y) : Inv host y := by
  unfold State.flushDraw at h
  split at h
  case isTrue hsurface =>
    simp only [bind_eq_bind, bind_eq_some_iff, some.injEq] at h
    obtain ⟨z, hz, w, hw, rfl⟩ := h
    obtain ⟨hinv', hfits⟩ := withBatch_spec hinv hz
    exact (createPipeline_spec hinv' (hok hsurface z hz) hfits hw).record hinv'
  case isFalse =>
    cases h
    exact hinv

theorem Inv.clearSurface (hinv : Inv host x) (parameter : Word) : Inv host (x.clearSurface parameter) := by
  unfold State.clearSurface
  split
  · exact { hinv with
      pipeline := fun key hkey => by
        cases hkey
        exact .inl ⟨rfl, rfl⟩
      command := nofun }
  · exact hinv

def inputRegs : List Nat := watchedRegs ++ pipelineRegs

def KeepsUnmarked (pg : Pg) (values : Nat → Word) : Prop :=
  ∀ r ∈ inputRegs, pg.regs.dirty r = true ∨ values r = pg.reg r

instance (pg : Pg) (values : Nat → Word) : Decidable (KeepsUnmarked pg values) :=
  inferInstanceAs (Decidable (∀ r ∈ inputRegs, _ ∨ _))

theorem MarkedSince.overwrite {b : ShaderState} (h : MarkedSince host pg b) {values : Nat → Word}
    (hkeeps : KeepsUnmarked pg values) (hregs : pg'.regs = { pg.regs with value := values })
    (hdirty : pg'.programDataDirty = pg.programDataDirty)
    (hprogram : pg.programDataDirty = true ∨ SameProgram pg'.programData pg.programData) :
    MarkedSince host pg' b := by
  obtain ⟨old, hold, hsince, hsame⟩ := h
  refine ⟨old, hold, ?_, fun hclean row hrow col hcol => ?_⟩
  · rw [hregs]
    exact hsince.overwrite fun r hr => hkeeps r (mem_append_left _ hr)
  · rw [hdirty] at hclean
    have hkept := hprogram.resolve_left (ne_true_of_eq_false hclean)
    exact (hkept row hrow col hcol).trans (hsame hclean row hrow col hcol)

theorem Inv.flush (hinv : Inv host x) : Inv host x.flush where
  __ := hinv
  shader b hb := (hinv.shader b hb).of_eq rfl rfl rfl
  command := nofun

def ResetOk (x : State) : Prop := x.shaderBinding = none ∨ KeepsUnmarked x.pg fun _ => 0

def LoadOk (s : Saved) (x : State) : Prop :=
  x.shaderBinding = none ∨ KeepsUnmarked x.pg s.regs ∧
    (x.pg.programDataDirty = true ∨ SameProgram s.programData x.pg.programData)

theorem isSome_of_mem {b : ShaderState} (hb : b ∈ x.shaderBinding) : x.shaderBinding ≠ none := by
  rw [mem_def.mp hb]
  nofun

theorem Inv.reset (hinv : Inv host x) (hok : ResetOk x) : Inv host x.reset := by
  refine hinv.flush.withPg (fun b hb h => ?_) fun hsome old h => ?_
  · exact h.overwrite (hok.resolve_left (isSome_of_mem hb)) rfl rfl (.inr fun _ _ _ _ => rfl)
  · have hkeeps := hok.resolve_left (isSome_iff_ne_none.mp hsome)
    exact h.overwrite fun r hr => hkeeps r (mem_append_right _ hr)

theorem Inv.load (hinv : Inv host x) {s : Saved} (hok : LoadOk s x) : Inv host (x.load s) := by
  refine Inv.flush (hinv.withPg (fun b hb h => ?_) fun hsome old h => ?_)
  · obtain ⟨hkeeps, hprogram⟩ := hok.resolve_left (isSome_of_mem hb)
    exact h.overwrite hkeeps rfl rfl hprogram
  · obtain ⟨hkeeps, -⟩ := hok.resolve_left (isSome_iff_ne_none.mp hsome)
    exact h.overwrite fun r hr => hkeeps r (mem_append_right _ hr)

/-- The condition on a step under which draws stay current. -/
def stepOk (x : State) : Event → Prop
  | .drawEnd batch => x.isNopDraw = true ∨ DrawOk x batch
  | .flushDraw batch => DrawOk x batch
  | .reset => ResetOk x
  | .load s => LoadOk s x
  | _ => True

instance (e : Event) : Decidable (stepOk x e) :=
  match e with
  | .drawEnd _ => inferInstanceAs (Decidable (_ ∨ _))
  | .flushDraw _ => inferInstanceAs (Decidable (DrawOk ..))
  | .reset => inferInstanceAs (Decidable (_ ∨ _))
  | .load _ => inferInstanceAs (Decidable (_ ∨ _ ∧ (_ ∨ _)))
  | .method _ | .surfaces _ _ | .endRenderPass | .clear _ => .isTrue trivial

theorem Inv.step {e : Event} (hinv : Inv host x) (hok : stepOk x e) (h : step host x e = some y) : Inv host y := by
  cases e with
  | method changes =>
    cases h
    exact hinv.method changes
  | surfaces color zeta =>
    cases h
    exact { hinv with }
  | endRenderPass =>
    cases h
    exact { hinv with command := nofun }
  | drawEnd batch =>
    simp only [Pipeline.step, State.drawEnd] at h
    split at h
    · cases h
      exact hinv
    · next hdraw => exact hinv.flushDraw (hok.resolve_left hdraw) h
  | flushDraw batch => exact hinv.flushDraw hok h
  | clear parameter =>
    cases h
    exact hinv.clearSurface parameter
  | reset =>
    cases h
    exact hinv.reset hok
  | load s =>
    cases h
    exact hinv.load hok

theorem initial_inv : Inv host State.initial where
  shader _ hb := nomatch hb
  pipeline _ hkey := nomatch hkey
  command := nofun
  draws _ hd := nomatch hd

/-- In a run whose steps all meet the condition, each draw is recorded with the shaders and the pipeline
that would be chosen for it anew. -/
theorem draws_current {events : List Event} (hmeets : Meets (step host) stepOk State.initial events)
    (hrun : run (step host) State.initial events = some x) : ∀ d ∈ x.draws, d.Current := by
  have hinv : Inv host x := run_invariant_of_meets (Inv host)
    (fun _ _ _ hinv hok hstep => hinv.step hok hstep) initial_inv hmeets hrun
  exact hinv.draws

def plainHost : Host := ⟨none, id⟩

def setUp : List Event :=
  [.surfaces (some 1) none,
   .method [.reg control0 0x3C000000, .reg shaderCtl 7, .zetaFormat 2, .primitiveMode 5]]

def positions : Event := .method [.vertexAttribute 0 ⟨typeF, 3, 4, 12, false⟩]

def drawRam : Event := .drawEnd (.ram fun _ => 0)

def orderlyDraws : List Event :=
  setUp ++ [positions, drawRam, .method [.reg blend 1], drawRam, .clear 0xF0, drawRam]

theorem draws_current_orderly : ∃ x : State,
    run (step plainHost) State.initial orderlyDraws = some x ∧ x.draws.length = 3 ∧
      ∀ d ∈ x.draws, d.Current := by
  refine exists_some_and (by decide +kernel) fun x hrun _ => ?_
  exact draws_current (by decide +kernel) hrun

def specularDraws : List Event :=
  setUp ++ [positions, drawRam, .method [.specularPower 0x3F800000], drawRam]

/-- A clear binds a surface also where no writes are enabled. -/
def resetDraws : List Event :=
  setUp ++ [positions, drawRam, .reset, .surfaces (some 1) none, .clear 0xF0, .method [.reg control1 1], drawRam]

def otherCtl : Saved where
  regs r := if r = control0 then 0x3C000000 else 0
  programData _ _ := 0
  primitiveMode := 5
  zetaFormat := 2

def loadDraws : List Event :=
  setUp ++ [positions, drawRam, .load otherCtl, .surfaces (some 1) none, drawRam]

/-- The marks of the textures are gone once all four have been bound. -/
def clearDraws : List Event :=
  setUp ++ [.method ((List.range 4).map fun i => .reg (texCtl0 + i * 4) 0x40000000), drawRam, .clear 0xF0, drawRam]

def staleAfter (events : List Event) : Option (Bool × Bool) :=
  (run (step plainHost) State.initial events).bind fun x => x.draws.getLast?.map fun d =>
    (decide (d.shader = d.currentShader), decide (d.pipeline = d.currentPipeline))

/-- The specular power is not checked, and a reset or load marks nothing: the shaders stay as they were, and
with them the pipeline. Without attributes the pipeline of a clear is taken for the next draw. -/
theorem draws_stale :
    staleAfter specularDraws = some (false, false) ∧ staleAfter resetDraws = some (false, false) ∧
      staleAfter loadDraws = some (false, false) ∧ staleAfter clearDraws = some (true, false) := by
  decide +kernel

end XogMobile.Nv2a.Vk.Pipeline
