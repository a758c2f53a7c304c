import XogMobile.Lib.Align
import XogMobile.Nv2a.Vertices

/-!
# Staging buffers

Indices, inline vertices and uniforms are appended to staging buffers, which start over when the command
buffer is submitted. Before a draw is recorded the code makes sure that there is room for its data, and
submits if there is not; when it appends the data it asserts the same. Between the two there may be
more submissions. Two reservations are for less than is appended: the one for the uniforms leaves out
the padding between the two blocks, and the one for attributes that are copied rounds to 16 bytes where
the copy asserts room from the next multiple of 256 on.
-/

namespace XogMobile.Nv2a.Vk

open Lib Function Nat List Bool

inductive Buffer where
  | index
  | vertexInline
  | uniform
  deriving DecidableEq

def Buffer.size : Buffer → Nat
  | .index => maxBatchLength * 4 * 100
  | .vertexInline => 16 * maxBatchLength * 4 * 4 * 10
  | .uniform => 8 * 1024 * 1024

/-- `ARRAY_SIZE(r->descriptor_sets)`. -/
def maxDescriptorSets : Nat := 1024

structure Staging where
  offset : Buffer → Nat
  inCommandBuffer : Bool
  descriptorSetIndex : Nat

structure Uniforms where
  (changed bindingsChanged : Bool)
  (vsh psh : Nat)
  deriving DecidableEq

structure RemapAttribute where
  (offset stride size count : Nat)
  deriving DecidableEq

def RemapAttribute.remapped (a : RemapAttribute) : Bool :=
  a.offset % a.size != 0 || a.stride % a.size != 0

def RemapAttribute.next (numVertices output : Nat) (a : RemapAttribute) : Nat :=
  if a.remapped then alignUp output a.size + a.size * a.count * numVertices else output

/-- `VertexBufferRemap`: whether attributes are copied, and the space that takes. -/
structure Remap where
  any : Bool
  required : Nat
  deriving DecidableEq

/-- The loop of `remap_unaligned_attributes`. -/
def remapOf (attributes : List RemapAttribute) (numVertices : Nat) : Remap where
  any := attributes.any RemapAttribute.remapped
  required := attributes.foldl (RemapAttribute.next numVertices) 0

namespace Staging

def initial : Staging := ⟨fun _ => 0, false, 0⟩

def setOffset (s : Staging) (b : Buffer) (n : Nat) : Staging :=
  { s with offset := update s.offset b n }

def finish (s : Staging) : Staging := if s.inCommandBuffer then initial else s

def hasSpaceFor (s : Staging) (b : Buffer) (n alignment : Nat) : Bool :=
  decide (alignUp (s.offset b) alignment + n ≤ b.size)

def ensureBufferSpace (s : Staging) (b : Buffer) (n : Nat) : Staging :=
  if s.hasSpaceFor b n 1 then s else s.finish

def appendToBuffer (s : Staging) (b : Buffer) (sizes : List Nat) (alignment : Nat) :
    Option Staging :=
  if s.hasSpaceFor b sizes.sum alignment then
    some (sizes.foldl (fun s n => s.setOffset b (alignUp (s.offset b) alignment + n)) s)
  else none

/-- `pgraph_vk_update_descriptor_sets`. The uniforms are written if they have changed or if the buffer is
empty, and the command buffer is finished first where there is no room for them or for another set. -/
def updateDescriptorSets (alignment : Nat) (s : Staging) (u : Uniforms) : Option Staging :=
  let needUniformWrite := u.changed || s.offset .uniform == 0
  if !(u.bindingsChanged || s.descriptorSetIndex == 0 || needUniformWrite) then some s
  else
    let needReset := (u.changed && !s.hasSpaceFor .uniform (u.vsh + u.psh) alignment) ||
      decide (maxDescriptorSets ≤ s.descriptorSetIndex)
    let s := if needReset then s.finish else s
    if s.descriptorSetIndex < maxDescriptorSets then
      (if needUniformWrite || needReset then
          (s.appendToBuffer .uniform [u.vsh] alignment).bind fun s =>
            s.appendToBuffer .uniform [u.psh] alignment
        else some s).map fun s => { s with descriptorSetIndex := s.descriptorSetIndex + 1 }
    else none

def reserveRemap (s : Staging) (remap : Remap) : Staging :=
  if remap.any then
    let start := alignUp (s.offset .vertexInline) 16
    let s := s.ensureBufferSpace .vertexInline ((start - s.offset .vertexInline) + remap.required)
    s.setOffset .vertexInline (alignUp (s.offset .vertexInline) 16)
  else s

/-- `copy_remapped_attributes_to_inline_buffer`. -/
def copyRemapped (s : Staging) (remap : Remap) : Option Staging :=
  if remap.any then
    if s.hasSpaceFor .vertexInline remap.required 256 then
      some (s.setOffset .vertexInline (s.offset .vertexInline + remap.required))
    else none
  else some s

end Staging

/-- The steps of the renderer. An interruption submits the command buffer, or begins one. `preDraw` is
the part of `begin_pre_draw` from the update of the descriptor sets on, which a clear leaves out. -/
inductive StagingEvent where
  | interrupt (submits : Bool)
  | reserve (b : Buffer) (n : Nat)
  | reserveRemap (remap : Remap)
  | preDraw (uniforms : Option Uniforms)
  | copyRemapped (remap : Remap)
  | append (b : Buffer) (sizes : List Nat)

/-- The four kinds of draws: ranges and indices with vertices in memory, inline vertices with a buffer
for each attribute, and an inline array. -/
inductive DrawData where
  | arrays (attributes : List RemapAttribute) (numVertices : Nat)
  | elements (length : Nat) (attributes : List RemapAttribute) (numVertices : Nat)
  | buffer (attributes vertices : Nat)
  | array (length : Nat)

/-- What the renderer is asked to do. `syncs` are the interruptions while vertices are synchronized and
`binds` those while pipeline, textures and framebuffer are bound. -/
inductive StagingCommand where
  | interrupt (submits : Bool)
  | clear (binds : List Bool)
  | draw (syncs binds : List Bool) (uniforms : Uniforms) (data : DrawData)

/-- `pgraph_vk_flush_draw` and the other commands, step by step. -/
def StagingCommand.events : StagingCommand → List StagingEvent
  | .interrupt submits => [.interrupt submits]
  | .clear binds => binds.map .interrupt ++ [.preDraw none]
  | .draw syncs binds uniforms (.arrays attributes numVertices) =>
    let remap := remapOf attributes numVertices
    syncs.map .interrupt ++ .reserveRemap remap :: (binds.map .interrupt ++
      [.preDraw (some uniforms), .copyRemapped remap])
  | .draw syncs binds uniforms (.elements length attributes numVertices) =>
    let remap := remapOf attributes numVertices
    .reserve .index (length * 4) :: (syncs.map .interrupt ++ .reserveRemap remap ::
      (binds.map .interrupt ++
        [.preDraw (some uniforms), .copyRemapped remap, .append .index [length * 4]]))
  | .draw _ binds uniforms (.buffer attributes vertices) =>
    let sizes := List.replicate attributes (vertices * 4 * 4)
    .reserve .vertexInline sizes.sum :: (binds.map .interrupt ++
      [.preDraw (some uniforms), .append .vertexInline sizes])
  | .draw _ binds uniforms (.array length) =>
    .reserve .vertexInline (length * 4) :: (binds.map .interrupt ++
      [.preDraw (some uniforms), .append .vertexInline [length * 4]])

def DrawData.Fits : DrawData → Prop
  | .arrays attributes numVertices =>
    (remapOf attributes numVertices).required ≤ Buffer.size .vertexInline
  | .elements length attributes numVertices =>
    length * 4 ≤ Buffer.size .index ∧
      (remapOf attributes numVertices).required ≤ Buffer.size .vertexInline
  | .buffer attributes vertices => attributes * (vertices * 4 * 4) ≤ Buffer.size .vertexInline
  | .array length => length * 4 ≤ Buffer.size .vertexInline

def StagingCommand.Fits : StagingCommand → Prop
  | .draw _ _ uniforms data => uniforms.vsh + uniforms.psh ≤ Buffer.size .uniform ∧ data.Fits
  | _ => True

namespace Staging

def updateUniforms (alignment : Nat) (s : Staging) : Option Uniforms → Option Staging
  | none => some s
  | some u => s.updateDescriptorSets alignment u

def step (alignment : Nat) (s : Staging) : StagingEvent → Option Staging
  | .interrupt submits =>
    if submits then some s.finish else some { s with inCommandBuffer := true }
  | .reserve b n => some (s.ensureBufferSpace b n)
  | .reserveRemap remap => some (s.reserveRemap remap)
  | .preDraw uniforms =>
    (s.updateUniforms alignment uniforms).map fun s => { s with inCommandBuffer := true }
  | .copyRemapped remap => s.copyRemapped remap
  | .append b sizes => s.appendToBuffer b sizes 1

/-- From this offset on the blocks of the uniforms fit, but only without the padding between them. -/
def TightUniforms (alignment : Nat) (u : Uniforms) (offset : Nat) : Prop :=
  alignUp offset alignment + (u.vsh + u.psh) ≤ Buffer.size .uniform ∧
    Buffer.size .uniform < alignUp (alignUp offset alignment + u.vsh) alignment + u.psh

/-- From this offset on the attributes fit behind the next multiple of 16, but not behind the next
multiple of 256. -/
def TightRemap (remap : Remap) (offset : Nat) : Prop :=
  alignUp offset 16 + remap.required ≤ Buffer.size .vertexInline ∧
    Buffer.size .vertexInline < alignUp (alignUp offset 16) 256 + remap.required

/-- The blocks that the step writes are not in the gap. Uniforms are written behind the last ones, or at
the start of the buffer after a finish, which changed ones and exhausted descriptor sets ask for. -/
def NotTight (alignment : Nat) (s : Staging) : StagingEvent → Prop
  | .reserveRemap remap => remap.any = true → ¬TightRemap remap (s.offset .vertexInline)
  | .preDraw (some u) =>
    ((u.changed = true ∨ s.offset .uniform = 0) → ¬TightUniforms alignment u (s.offset .uniform)) ∧
      ((u.changed = true ∨ maxDescriptorSets ≤ s.descriptorSetIndex) → ¬TightUniforms alignment u 0)
  | _ => True

instance (alignment : Nat) (u : Uniforms) (offset : Nat) :
    Decidable (TightUniforms alignment u offset) := inferInstanceAs (Decidable (_ ∧ _))

instance (remap : Remap) (offset : Nat) : Decidable (TightRemap remap offset) :=
  inferInstanceAs (Decidable (_ ∧ _))

instance (alignment : Nat) (s : Staging) : ∀ e, Decidable (NotTight alignment s e)
  | .interrupt _ => isTrue trivial
  | .reserve _ _ => isTrue trivial
  | .reserveRemap _ => inferInstanceAs (Decidable (_ → _))
  | .preDraw none => isTrue trivial
  | .preDraw (some _) => inferInstanceAs (Decidable (_ ∧ _))
  | .copyRemapped _ => isTrue trivial
  | .append _ _ => isTrue trivial

/-- Offsets are inside their buffers. -/
structure Sound (s : Staging) : Prop where
  within : ∀ b, s.offset b ≤ b.size
  idle : s.inCommandBuffer = false → s = initial
  sets : s.descriptorSetIndex ≤ maxDescriptorSets

def Room (s : Staging) (b : Buffer) (n alignment : Nat) : Prop :=
  alignUp (s.offset b) alignment + n ≤ b.size

def Keeps (s t : Staging) (b : Buffer) : Prop := t.offset b = s.offset b ∨ t.offset b = 0

variable {s t m : Staging} {b : Buffer} {n alignment : Nat}

theorem hasSpaceFor_iff : s.hasSpaceFor b n alignment = true ↔ s.Room b n alignment := decide_eq_true_iff

theorem sound_initial : initial.Sound := ⟨fun _ => zero_le _, fun _ => rfl, zero_le _⟩

theorem room_initial (halign : 0 < alignment) (hn : n ≤ b.size) : initial.Room b n alignment := by
  rw [Room, initial, alignUp_zero halign, zero_add]
  exact hn

theorem Keeps.refl (s : Staging) (b : Buffer) : Keeps s s b := .inl rfl

theorem Keeps.initial (s : Staging) (b : Buffer) : Keeps s initial b := .inr rfl

theorem Keeps.trans (h : Keeps s t b) (h' : Keeps t m b) : Keeps s m b := by
  rcases h' with h' | h'
  · rw [Keeps, h']
    exact h
  · exact .inr h'

theorem Room.keep (h : s.Room b n alignment) (halign : 0 < alignment) (hn : n ≤ b.size)
    (hkeeps : Keeps s t b) : t.Room b n alignment := by
  rcases hkeeps with hsame | hzero
  · rw [Room, hsame]
    exact h
  · rw [Room, hzero, alignUp_zero halign, zero_add]
    exact hn

theorem Sound.finish_eq (h : s.Sound) : s.finish = initial := by
  unfold finish
  split
  · rfl
  · next hidle => exact h.idle (not_eq_true _ ▸ hidle)

theorem Sound.begin (h : s.Sound) : Sound { s with inCommandBuffer := true } := ⟨h.within, by rintro ⟨⟩, h.sets⟩

theorem interrupt_spec (alignment : Nat) (submits : Bool) (h : s.Sound) :
    ∃ t, step alignment s (.interrupt submits) = some t ∧ t.Sound ∧ ∀ b, Keeps s t b := by
  cases submits with
  | true =>
    refine ⟨initial, ?_, sound_initial, Keeps.initial s⟩
    rw [step, if_pos rfl, h.finish_eq]
  | false => exact ⟨_, rfl, h.begin, Keeps.refl s⟩

theorem interrupts_spec (alignment : Nat) (interrupts : List Bool) (h : s.Sound) :
    ∃ t, run (step alignment) s (interrupts.map .interrupt) = some t ∧ t.Sound ∧ ∀ b, Keeps s t b := by
  induction interrupts generalizing s with
  | nil => exact ⟨s, rfl, h, Keeps.refl s⟩
  | cons submits interrupts ih =>
    obtain ⟨m, hm, hsound, hkeeps⟩ := interrupt_spec alignment submits h
    obtain ⟨t, ht, hsound', hkeeps'⟩ := ih hsound
    exact ⟨t, run_cons_eq_some.mpr ⟨m, hm, ht⟩, hsound', fun b => (hkeeps b).trans (hkeeps' b)⟩

theorem ensureBufferSpace_spec (h : s.Sound) (hn : n ≤ b.size) :
    (s.ensureBufferSpace b n).Sound ∧ (∀ c, Keeps s (s.ensureBufferSpace b n) c) ∧
      (s.ensureBufferSpace b n).Room b n 1 := by
  unfold ensureBufferSpace
  split
  · next hspace => exact ⟨h, Keeps.refl s, hasSpaceFor_iff.mp hspace⟩
  · rw [h.finish_eq]
    exact ⟨sound_initial, Keeps.initial s, room_initial one_pos hn⟩

@[simp] theorem setOffset_self (s : Staging) (b : Buffer) (n : Nat) : (s.setOffset b n).offset b = n :=
  update_self ..

theorem setOffset_of_ne {c : Buffer} (hne : c ≠ b) : (s.setOffset b n).offset c = s.offset c := update_of_ne hne ..

theorem setOffset_within (h : ∀ c, s.offset c ≤ c.size) (hn : n ≤ b.size) (c : Buffer) :
    (s.setOffset b n).offset c ≤ c.size := by
  by_cases hc : c = b
  · subst hc
    rw [setOffset_self]
    exact hn
  · rw [setOffset_of_ne hc]
    exact h c

theorem Sound.setOffset (h : s.Sound) (hn : n ≤ b.size)
    (hidle : s.inCommandBuffer = false → n = s.offset b) : (s.setOffset b n).Sound := by
  refine ⟨setOffset_within h.within hn, ?_, h.sets⟩
  intro hcommand
  rw [Staging.setOffset, hidle hcommand, update_eq_self]
  exact h.idle hcommand

theorem Sound.alignUp_offset (h : s.Sound) (halign : 0 < alignment)
    (hcommand : s.inCommandBuffer = false) : alignUp (s.offset b) alignment = s.offset b := by
  rw [h.idle hcommand]
  exact alignUp_zero halign

variable {remap : Remap} {u : Uniforms} {sizes : List Nat} {binds : List Bool}

theorem reserveRemap_spec (h : s.Sound) (hfits : remap.required ≤ Buffer.size .vertexInline)
    (htight : remap.any = true → ¬TightRemap remap (s.offset .vertexInline)) :
    (s.reserveRemap remap).Sound ∧ Keeps s (s.reserveRemap remap) .index ∧
      (remap.any = true → (s.reserveRemap remap).Room .vertexInline remap.required 256) := by
  unfold reserveRemap
  split
  · next hany =>
    dsimp only
    unfold ensureBufferSpace
    split
    · next hspace =>
      rw [hasSpaceFor_iff, Room, alignUp_one] at hspace
      have hroom : alignUp (s.offset .vertexInline) 16 + remap.required
          ≤ Buffer.size .vertexInline := by omega
      refine ⟨h.setOffset (by omega) (h.alignUp_offset (by decide)), .inl rfl, fun _ => ?_⟩
      exact Nat.le_of_not_lt fun hlt => htight hany ⟨hroom, hlt⟩
    · rw [h.finish_eq]
      have hzero : alignUp (initial.offset .vertexInline) 16 = 0 := alignUp_zero (by decide)
      rw [hzero]
      refine ⟨sound_initial.setOffset (zero_le _) fun _ => rfl, .inr rfl, fun _ => ?_⟩
      rw [Room, setOffset_self, alignUp_zero (by decide), zero_add]
      exact hfits
  · next hany => exact ⟨h, Keeps.refl s _, fun hany' => absurd hany' hany⟩

theorem appendToBuffer_one (h : s.Room b n alignment) : s.appendToBuffer b [n] alignment
      = some (s.setOffset b (alignUp (s.offset b) alignment + n)) := by
  rw [appendToBuffer, sum_singleton, if_pos (hasSpaceFor_iff.mpr h)]
  rfl

theorem append_uniforms (hroom : s.Room .uniform (u.vsh + u.psh) alignment)
    (htight : ¬TightUniforms alignment u (s.offset .uniform)) :
    ∃ n ≤ Buffer.size .uniform, ((s.appendToBuffer .uniform [u.vsh] alignment).bind fun s =>
        s.appendToBuffer .uniform [u.psh] alignment) = some (s.setOffset .uniform n) := by
  have hpadded : alignUp (alignUp (s.offset .uniform) alignment + u.vsh) alignment + u.psh
      ≤ Buffer.size .uniform := Nat.le_of_not_lt fun hlt => htight ⟨hroom, hlt⟩
  have hfirst : s.Room .uniform u.vsh alignment := by
    rw [Room] at hroom ⊢
    omega
  have hsecond : (s.setOffset .uniform (alignUp (s.offset .uniform) alignment + u.vsh)).Room .uniform
      u.psh alignment := by
    exact hpadded
  refine ⟨_, hpadded, ?_⟩
  rw [appendToBuffer_one hfirst, Option.bind_some, appendToBuffer_one hsecond, setOffset, setOffset, update_idem]
  rfl

theorem updateDescriptorSets_spec (halign : 0 < alignment) (h : s.Sound) (hfits : u.vsh + u.psh ≤ Buffer.size .uniform)
    (htight : (u.changed = true ∨ s.offset .uniform = 0) → ¬TightUniforms alignment u (s.offset .uniform))
    (htight0 : (u.changed = true ∨ maxDescriptorSets ≤ s.descriptorSetIndex) → ¬TightUniforms alignment u 0) :
    ∃ t, s.updateDescriptorSets alignment u = some t ∧ (∀ b, t.offset b ≤ b.size) ∧
      t.descriptorSetIndex ≤ maxDescriptorSets ∧ Keeps s t .index ∧ Keeps s t .vertexInline := by
  unfold updateDescriptorSets
  dsimp only
  split
  · exact ⟨s, rfl, h.within, h.sets, Keeps.refl s _, Keeps.refl s _⟩
  by_cases hreset : ((u.changed && !s.hasSpaceFor .uniform (u.vsh + u.psh) alignment) ||
      decide (maxDescriptorSets ≤ s.descriptorSetIndex)) = true
  · have hasks : u.changed = true ∨ maxDescriptorSets ≤ s.descriptorSetIndex := by
      rw [or_eq_true, and_eq_true, decide_eq_true_eq] at hreset
      exact hreset.imp_left And.left
    obtain ⟨n, hn, happend⟩ := append_uniforms (room_initial halign hfits) (htight0 hasks)
    rw [hreset, if_pos rfl, h.finish_eq, Bool.or_true, happend]
    exact ⟨_, rfl, setOffset_within sound_initial.within hn, succ_le_succ (zero_le 1023), .inr rfl, .inr rfl⟩
  · rw [not_eq_true] at hreset
    rw [hreset, if_neg Bool.false_ne_true, Bool.or_false]
    rw [or_eq_false_iff, decide_eq_false_iff_not, not_le] at hreset
    obtain ⟨hspace, hsets⟩ := hreset
    rw [if_pos hsets]
    split
    · next hwrite =>
      rw [or_eq_true, beq_iff_eq] at hwrite
      have hroom : s.Room .uniform (u.vsh + u.psh) alignment := by
        rcases hwrite with hchanged | hzero
        · rw [hchanged, Bool.true_and, not_eq_false'] at hspace
          exact hasSpaceFor_iff.mp hspace
        · rw [Room, hzero, alignUp_zero halign, zero_add]
          exact hfits
      obtain ⟨n, hn, happend⟩ := append_uniforms hroom (htight hwrite)
      rw [happend]
      exact ⟨_, rfl, setOffset_within h.within hn, hsets, .inl rfl, .inl rfl⟩
    · exact ⟨_, rfl, h.within, hsets, .inl rfl, .inl rfl⟩

theorem preDraw_spec (halign : 0 < alignment) (h : s.Sound) (hfits : u.vsh + u.psh ≤ Buffer.size .uniform)
    (htight : NotTight alignment s (.preDraw (some u))) :
    ∃ t, step alignment s (.preDraw (some u)) = some t ∧ t.Sound ∧ t.inCommandBuffer = true ∧
      Keeps s t .index ∧ Keeps s t .vertexInline := by
  obtain ⟨t, ht, hwithin, hsets, hindex, hvertex⟩ := updateDescriptorSets_spec halign h hfits htight.1 htight.2
  refine ⟨{ t with inCommandBuffer := true }, ?_, ⟨hwithin, by rintro ⟨⟩, hsets⟩, rfl, hindex, hvertex⟩
  rw [step, updateUniforms, ht]
  rfl

theorem Sound.setOffset_begun (h : s.Sound) (hbegun : s.inCommandBuffer = true) (hn : n ≤ b.size) :
    (s.setOffset b n).Sound :=
  h.setOffset hn fun hcommand => absurd hcommand (hbegun ▸ Bool.noConfusion)

theorem copyRemapped_spec (h : s.Sound) (hbegun : s.inCommandBuffer = true)
    (hroom : remap.any = true → s.Room .vertexInline remap.required 256) :
    ∃ t, step alignment s (.copyRemapped remap) = some t ∧ t.Sound ∧ t.inCommandBuffer = true ∧
      t.offset .index = s.offset .index := by
  rw [step, copyRemapped]
  split
  · next hany =>
    have hroom := hroom hany
    have hle := le_alignUp (n := s.offset .vertexInline) (d := 256) (by decide)
    rw [if_pos (hasSpaceFor_iff.mpr hroom)]
    rw [Room] at hroom
    exact ⟨_, rfl, h.setOffset_begun hbegun (by omega), hbegun, rfl⟩
  · exact ⟨s, rfl, h, hbegun, rfl⟩

theorem foldl_setOffset_one (s : Staging) (b : Buffer) (sizes : List Nat) :
    sizes.foldl (fun s n => s.setOffset b (alignUp (s.offset b) 1 + n)) s
      = s.setOffset b (s.offset b + sizes.sum) := by
  induction sizes generalizing s with
  | nil => rw [foldl_nil, sum_nil, add_zero, setOffset, update_eq_self]
  | cons n sizes ih =>
    rw [foldl_cons, ih, setOffset_self, alignUp_one, add_assoc, setOffset, setOffset, update_idem]
    rfl

theorem append_spec (h : s.Sound) (hbegun : s.inCommandBuffer = true) (hroom : s.Room b sizes.sum 1) :
    ∃ t, step alignment s (.append b sizes) = some t ∧ t.Sound := by
  refine ⟨_, if_pos (hasSpaceFor_iff.mpr hroom), ?_⟩
  rw [foldl_setOffset_one]
  rw [Room, alignUp_one] at hroom
  exact h.setOffset_begun hbegun hroom

/-- If every step meets the condition, the assertions pass, and `Q` holds at the end. -/
def Passes (alignment : Nat) (s : Staging) (es : List StagingEvent) (Q : Staging → Prop) : Prop :=
  Meets (step alignment) (NotTight alignment) s es → ∃ t, run (step alignment) s es = some t ∧ Q t

variable {es es' : List StagingEvent} {e : StagingEvent} {Q : Staging → Prop}

theorem Passes.nil (h : Q s) : Passes alignment s [] Q := fun _ => ⟨s, rfl, h⟩

theorem Passes.cons (h : NotTight alignment s e → ∃ m, step alignment s e = some m ∧ Passes alignment m es Q) :
    Passes alignment s (e :: es) Q := by
  rintro ⟨htight, hrest⟩
  obtain ⟨m, hm, hpasses⟩ := h htight
  obtain ⟨t, ht, hQ⟩ := hpasses (hrest m hm)
  exact ⟨t, run_cons_eq_some.mpr ⟨m, hm, ht⟩, hQ⟩

theorem Passes.append {P : Staging → Prop} (h : Passes alignment s es P)
    (hrest : ∀ m, P m → Passes alignment m es' Q) : Passes alignment s (es ++ es') Q := by
  intro hmeets
  obtain ⟨hfirst, hsecond⟩ := meets_append.mp hmeets
  obtain ⟨m, hm, hP⟩ := h hfirst
  obtain ⟨t, ht, hQ⟩ := hrest m hP (hsecond m hm)
  exact ⟨t, run_append_of_eq_some hm ht, hQ⟩

theorem Passes.interrupts {interrupts : List Bool} (h : s.Sound)
    (hrest : ∀ m : Staging, m.Sound → (∀ b, Keeps s m b) → Passes alignment m es Q) :
    Passes alignment s (interrupts.map .interrupt ++ es) Q := by
  have hpasses : Passes alignment s (interrupts.map .interrupt) fun m => m.Sound ∧ ∀ b, Keeps s m b :=
    fun _ => interrupts_spec alignment interrupts h
  exact hpasses.append fun m hm => hrest m hm.1 hm.2

section

variable (halign : 0 < alignment)
include halign

section

variable (h : s.Sound)
include h

section

variable (hfits : u.vsh + u.psh ≤ Buffer.size .uniform)
include hfits

theorem Passes.preDraw (hrest : ∀ m : Staging, m.Sound → m.inCommandBuffer = true → Keeps s m .index →
      Keeps s m .vertexInline → Passes alignment m es Q) :
    Passes alignment s (binds.map .interrupt ++ .preDraw (some u) :: es) Q := by
  refine Passes.interrupts h fun m hm hkeeps => Passes.cons fun htight => ?_
  obtain ⟨t, ht, hsound, hbegun, hindex, hvertex⟩ := preDraw_spec halign hm hfits htight
  exact ⟨t, ht, hrest t hsound hbegun ((hkeeps _).trans hindex) ((hkeeps _).trans hvertex)⟩

theorem Passes.inline (hsizes : sizes.sum ≤ Buffer.size .vertexInline) :
    Passes alignment s (.reserve .vertexInline sizes.sum :: (binds.map .interrupt ++
      [.preDraw (some u), .append .vertexInline sizes])) Sound := by
  refine Passes.cons fun _ => ⟨_, rfl, ?_⟩
  obtain ⟨hsound, -, hroom⟩ := ensureBufferSpace_spec h hsizes
  refine Passes.preDraw halign hsound hfits fun m hm hbegun _ hvertex => ?_
  refine Passes.cons fun _ => ?_
  obtain ⟨t, ht, ht'⟩ := append_spec hm hbegun (hroom.keep one_pos hsizes hvertex)
  exact ⟨t, ht, Passes.nil ht'⟩

theorem Passes.remapped {syncs : List Bool} (hremap : remap.required ≤ Buffer.size .vertexInline)
    (hrest : ∀ m : Staging, m.Sound → m.inCommandBuffer = true → Keeps s m .index → Passes alignment m es Q) :
    Passes alignment s (syncs.map .interrupt ++ .reserveRemap remap :: (binds.map .interrupt ++
      .preDraw (some u) :: .copyRemapped remap :: es)) Q := by
  refine Passes.interrupts h fun m hm hkeeps => Passes.cons fun htight => ⟨_, rfl, ?_⟩
  obtain ⟨hsound, hindex, hroom⟩ := reserveRemap_spec hm hremap htight
  refine Passes.preDraw halign hsound hfits fun m' hm' hbegun hindex' hvertex => ?_
  refine Passes.cons fun _ => ?_
  obtain ⟨t, ht, hsound', hbegun', hindex''⟩ := copyRemapped_spec hm' hbegun
    fun hany => (hroom hany).keep (by decide) hremap hvertex
  refine ⟨t, ht, hrest t hsound' hbegun' ?_⟩
  exact (((hkeeps _).trans hindex).trans hindex').trans (.inl hindex'')

end

theorem command_spec {c : StagingCommand} (hfits : c.Fits) : Passes alignment s c.events Sound := by
  cases c with
  | interrupt submits =>
    obtain ⟨t, ht, hsound, -⟩ := interrupt_spec alignment submits h
    exact Passes.cons fun _ => ⟨t, ht, Passes.nil hsound⟩
  | clear binds =>
    refine Passes.interrupts h fun m hm _ => Passes.cons fun _ => ⟨_, rfl, Passes.nil ?_⟩
    exact hm.begin
  | draw syncs binds uniforms data =>
    obtain ⟨huniforms, hdata⟩ := hfits
    cases data with
    | arrays attributes numVertices => exact Passes.remapped halign h huniforms hdata fun m hm _ _ => Passes.nil hm
    | elements length attributes numVertices =>
      refine Passes.cons fun _ => ⟨_, rfl, ?_⟩
      obtain ⟨hsound, -, hroom⟩ := ensureBufferSpace_spec h hdata.1
      refine Passes.remapped halign hsound huniforms hdata.2 fun m hm hbegun hindex => ?_
      refine Passes.cons fun _ => ?_
      have hroom' : m.Room .index [length * 4].sum 1 := by
        exact hroom.keep one_pos hdata.1 hindex
      obtain ⟨t, ht, ht'⟩ := append_spec hm hbegun hroom'
      exact ⟨t, ht, Passes.nil ht'⟩
    | buffer attributes vertices =>
      apply Passes.inline halign h huniforms
      rw [sum_replicate_nat]
      exact hdata
    | array length =>
      have hsum : [length * 4].sum = length * 4 := sum_singleton
      rw [StagingCommand.events, ← hsum]
      apply Passes.inline halign h huniforms
      exact hdata

theorem commands_spec {cs : List StagingCommand}
    (hfits : ∀ c ∈ cs, c.Fits) : Passes alignment s (cs.flatMap StagingCommand.events) Sound := by
  induction cs generalizing s with
  | nil => exact Passes.nil h
  | cons c cs ih =>
    refine (command_spec halign h (hfits c mem_cons_self)).append fun m hm => ?_
    exact ih hm fun c' hc' => hfits c' (.tail c hc')

end

end

/-- Whatever is drawn and whenever the command buffer is submitted: as long as the data of each draw fits
an empty buffer and no reservation is tight, all assertions pass and no offset is past its buffer. -/
theorem staging_reservations_cover (alignment : Nat) (halign : ∃ k, alignment = 2 ^ k)
    (cs : List StagingCommand) (hfits : ∀ c ∈ cs, c.Fits)
    (hmeets : Meets (step alignment) (NotTight alignment) initial (cs.flatMap StagingCommand.events)) :
    ∃ t, run (step alignment) initial (cs.flatMap StagingCommand.events) = some t ∧
      ∀ b, t.offset b ≤ b.size := by
  have hpos : 0 < alignment := by
    obtain ⟨k, rfl⟩ := halign
    exact Nat.two_pow_pos k
  obtain ⟨t, ht, hsound⟩ := commands_spec hpos sound_initial hfits hmeets
  exact ⟨t, ht, hsound.within⟩

theorem staging_reservations_cover_three :
    let cs : List StagingCommand :=
      [.draw [true] [false] ⟨true, true, 5632, 1024⟩ (.elements 3 [⟨0, 13, 4, 3⟩] 3),
        .interrupt true, .draw [] [] ⟨false, false, 5632, 1024⟩ (.array 9)]
    (∀ c ∈ cs, c.Fits) ∧
    Meets (step 256) (NotTight 256) initial (cs.flatMap StagingCommand.events) ∧
    ∃ t, run (step 256) initial (cs.flatMap StagingCommand.events) = some t ∧
      ∀ b, t.offset b ≤ b.size := by
  intro cs
  have hfits : ∀ c ∈ cs, c.Fits := by
    simp only [cs, forall_mem_cons]
    refine ⟨⟨by decide, by decide, by decide⟩, trivial, ⟨by decide, ?_⟩, by rintro _ ⟨⟩⟩
    change 9 * 4 ≤ Buffer.size .vertexInline
    decide
  have hmeets : Meets (step 256) (NotTight 256) initial (cs.flatMap StagingCommand.events) := by
    decide +kernel
  exact ⟨hfits, hmeets, staging_reservations_cover 256 ⟨8, rfl⟩ cs hfits hmeets⟩

/-- A draw with 15 attributes that are copied fits behind the first 16 bytes, but not behind the first
256. And the blocks of uniforms fit at the end of the buffer, but not with the padding between them. -/
theorem staging_reservations_tight :
    let attr : RemapAttribute := ⟨0, 1, 4, 4⟩
    let copied : List StagingCommand :=
      [.draw [] [] ⟨true, true, 5632, 1024⟩ (.arrays [attr] 1),
        .draw [] [] ⟨false, false, 5632, 1024⟩ (.arrays (replicate 15 attr) 5592394)]
    let padded : List StagingCommand :=
      [.draw [] [] ⟨true, true, 2 ^ 23 - 1024, 256⟩ (.array 1),
        .draw [] [] ⟨true, false, 300, 400⟩ (.array 1)]
    (∀ c ∈ copied, c.Fits) ∧
    (run (step 256) initial (copied.flatMap StagingCommand.events)).isNone ∧
    (∀ c ∈ padded, c.Fits) ∧
    (run (step 256) initial (padded.flatMap StagingCommand.events)).isNone := by
  intro attr copied padded
  refine ⟨?_, by decide +kernel, ?_, by decide +kernel⟩
  · simp only [copied, forall_mem_cons]
    refine ⟨⟨by decide, ?_⟩, ⟨by decide, ?_⟩, by rintro _ ⟨⟩⟩
    · change (remapOf [attr] 1).required ≤ _
      decide +kernel
    · change (remapOf (replicate 15 attr) 5592394).required ≤ _
      decide +kernel
  · simp only [padded, forall_mem_cons]
    refine ⟨⟨by decide +kernel, ?_⟩, ⟨by decide +kernel, ?_⟩, by rintro _ ⟨⟩⟩
    · change 1 * 4 ≤ Buffer.size .vertexInline
      decide
    · change 1 * 4 ≤ Buffer.size .vertexInline
      decide

end Staging

end XogMobile.Nv2a.Vk
