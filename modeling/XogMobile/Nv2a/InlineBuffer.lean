import XogMobile.Nv2a.Pfifo

/-!
# Inline vertex attributes

Inside a block the guest sets attributes one at a time, and setting the position ends a vertex. An
attribute that does not change is kept as one value, and only when it changes after some vertices are
there is its buffer filled with the old value for all of them. Flags of earlier blocks may be left set:
then the buffer is kept from the first vertex on. Either way a step leaves the values of all finished
vertices alone, and gives the vertex it finishes the values of that moment.
-/

namespace XogMobile.Nv2a

open Lib KelvinMethod Function

variable {ρ : Type}

def setFogCoord : KelvinMethod ρ := inlineValue 0x1698 1 (fun _ => 5) fun _ w =>
  [(0, .bits w), (1, .bits w), (2, .bits w), (3, .bits w)]

def setWeight1f : KelvinMethod ρ := inlineValue 0x169C 1 (fun _ => 1) fun _ w =>
  [(0, .bits w), (1, .zero), (2, .zero), (3, .one)]

def inlineMethods : List (KelvinMethod ρ) := [
  setVertex3f, setVertex4f, setNormal3f, setNormal3s, setDiffuseColor4f, setDiffuseColor3f,
  setDiffuseColor4ub, setSpecularColor4f, setSpecularColor3f, setSpecularColor4ub,
  setTexcoord0_2f, setTexcoord0_2s, setTexcoord0_4f, setTexcoord0_4s, setTexcoord1_2f,
  setTexcoord1_2s, setTexcoord1_4f, setTexcoord1_4s, setTexcoord2_2f, setTexcoord2_2s,
  setTexcoord2_4f, setTexcoord2_4s, setTexcoord3_2f, setTexcoord3_2s, setTexcoord3_4f,
  setTexcoord3_4s, setFogCoord, setWeight1f, setWeight2f, setWeight3f, setWeight4f,
  setVertexData2fM, setVertexData2s, setVertexData4ub, setVertexData4sM, setVertexData4fM]

theorem inlineMethods_inlineValue {m : KelvinMethod ρ} (hm : m ∈ inlineMethods) :
    ∃ base words index values finish, m = inlineValue base words index values finish := by
  have hall : ∀ m ∈ (inlineMethods : List (KelvinMethod ρ)),
      ∃ base words index values finish, m = inlineValue base words index values finish := by
    simp only [inlineMethods, List.forall_mem_cons]
    and_intros <;> first | exact ⟨_, _, _, _, _, rfl⟩ | nofun
  exact hall m hm

namespace Pgraph

def callInline (p : Pgraph ρ) (call : Call) : Option (Pgraph ρ) :=
  (inlineMethods.find? fun m => decide (m.Covers call.method)).bind fun m => p.callBatched m call

end Pgraph

inductive AttributeSource where
  | buffer (data : Nat → Nat → Flt)
  | constant (value : Nat → Flt)

def AttributeSource.value : AttributeSource → Nat → Nat → Flt
  | .buffer data, j => data j
  | .constant value, _ => value

/-- An attribute in `flush_draw`: what the draw reads, and the attribute after it, which keeps the
value of the last vertex. -/
def bindInline (v : Vertices) (attr : VertexAttribute) : AttributeSource × VertexAttribute :=
  if attr.inlineBufferPopulated then
    (.buffer attr.inlineBuffer, { attr with
      inlineValue := attr.inlineBuffer (v.inlineBufferLength - 1)
      inlineBufferPopulated := false })
  else (.constant attr.inlineValue, attr)

namespace Pgraph

def drawValue (p : Pgraph ρ) (a j : Nat) : Nat → Flt :=
  (bindInline p.vertices (p.aux.vertexAttributes a)).1.value j

def currentValue (p : Pgraph ρ) (a : Nat) : Nat → Flt := (p.aux.vertexAttributes a).inlineValue

/-- Vertex `j` was finished with the state `s`. -/
def FinishedAt (start : Pgraph ρ) (calls : List Call) (j : Nat) (s : Pgraph ρ) : Prop :=
  ∃ before call rest s', calls = before ++ call :: rest ∧ run callInline start before = some s' ∧
    s'.callInline call = some s ∧ s'.vertices.inlineBufferLength = j ∧
    s.vertices.inlineBufferLength = j + 1

end Pgraph

def VertexAttribute.valueAt (attr : VertexAttribute) (j : Nat) : Nat → Flt :=
  if attr.inlineBufferPopulated then attr.inlineBuffer j else attr.inlineValue

theorem bindInline_value (v : Vertices) (attr : VertexAttribute) (j : Nat) :
    (bindInline v attr).1.value j = attr.valueAt j := by
  unfold bindInline VertexAttribute.valueAt
  split <;> rfl

variable {v : Vertices} {j : Nat} {p q : Pgraph ρ} {call : Call}

theorem allocateInlineBufferVertices_valueAt (attr : VertexAttribute) (hj : j < v.inlineBufferLength) :
    (allocateInlineBufferVertices v attr).valueAt j = attr.valueAt j := by
  unfold allocateInlineBufferVertices
  split
  · rfl
  · next h =>
    rw [not_or] at h
    simp [VertexAttribute.valueAt, h.1, hj]

theorem valueAt_of_allocated (attr : VertexAttribute) (value : Nat → Flt) (hj : j < v.inlineBufferLength) :
    { allocateInlineBufferVertices v attr with inlineValue := value }.valueAt j = attr.valueAt j := by
  have hpopulated : (allocateInlineBufferVertices v attr).inlineBufferPopulated = true := by
    unfold allocateInlineBufferVertices
    split
    · next h => exact h.resolve_right (by omega)
    · rfl
  rw [← allocateInlineBufferVertices_valueAt attr hj]
  simp [VertexAttribute.valueAt, hpopulated]

theorem copyInlineValue_valueAt (attr : VertexAttribute) (hj : j < v.inlineBufferLength) :
    (copyInlineValue v attr).valueAt j = attr.valueAt j := by
  unfold copyInlineValue
  split
  · next h =>
    have hne : j ≠ v.inlineBufferLength := Nat.ne_of_lt hj
    simp [VertexAttribute.valueAt, update_of_ne hne]
  · rfl

theorem copyInlineValue_valueAt_self (v : Vertices) (attr : VertexAttribute) :
    (copyInlineValue v attr).valueAt v.inlineBufferLength = attr.inlineValue := by
  unfold copyInlineValue
  split
  · next h => simp [VertexAttribute.valueAt]
  · next h => simp [VertexAttribute.valueAt, h]

theorem copyInlineValue_inlineValue (v : Vertices) (attr : VertexAttribute) :
    (copyInlineValue v attr).inlineValue = attr.inlineValue := by
  unfold copyInlineValue
  split <;> rfl

def setAttribute (v : Vertices) (attrs : Nat → VertexAttribute) (index : Nat) (value : Nat → Flt) :
    Nat → VertexAttribute :=
  update attrs index
    { allocateInlineBufferVertices v (attrs index) with inlineValue := value }

theorem setAttribute_valueAt (attrs : Nat → VertexAttribute) (index : Nat) (value : Nat → Flt)
    (a : Nat) (hj : j < v.inlineBufferLength) :
    (setAttribute v attrs index value a).valueAt j = (attrs a).valueAt j := by
  by_cases ha : a = index
  · subst ha
    rw [setAttribute, update_self]
    exact valueAt_of_allocated (attrs a) value hj
  · rw [setAttribute, update_of_ne ha]

/-- A vertex attribute is set, and it may end the vertex. -/
inductive InlineStep (p q : Pgraph ρ) : Prop where
  | set (index : Nat) (value : Nat → Flt) (hvertices : q.vertices = p.vertices)
      (hattrs : q.aux.vertexAttributes = setAttribute p.vertices p.aux.vertexAttributes index value)
  | finish (index : Nat) (value : Nat → Flt)
      (hvertices : q.vertices =
        { p.vertices with inlineBufferLength := p.vertices.inlineBufferLength + 1 })
      (hattrs : q.aux.vertexAttributes = fun a => copyInlineValue p.vertices
        (setAttribute p.vertices p.aux.vertexAttributes index value a))

def newValue (v : Vertices) (attr : VertexAttribute) (components : List (Nat × Flt)) : Nat → Flt :=
  components.foldl (fun f c => update f c.1 c.2)
    (allocateInlineBufferVertices v attr).inlineValue

theorem callBatched_inlineStep {base words : Nat} {index : Nat → Nat}
    {values : Nat → Word → List (Nat × Flt)} {finish : Option (Nat → Bool)}
    (h : p.callBatched (inlineValue base words index values finish) call = some q) :
    InlineStep p q := by
  obtain ⟨v, hv, rfl⟩ := Option.map_eq_some_iff.mp h
  let slot := (call.method - base) / 4
  let value := newValue p.vertices (p.aux.vertexAttributes (index slot)) (values slot call.parameter)
  cases finish with
  | none =>
    cases hv
    exact .set (index slot) value rfl rfl
  | some ends =>
    change (if ends slot then p.vertices.finishInlineBufferVertex else some p.vertices) = some v at hv
    by_cases hends : ends slot = true
    · rw [if_pos hends] at hv
      obtain ⟨-, ⟨⟩⟩ := Option.ite_none_right_eq_some.mp hv
      exact .finish (index slot) value rfl (if_pos hends)
    · rw [if_neg hends] at hv
      cases hv
      exact .set (index slot) value rfl (if_neg hends)

theorem callInline_inlineStep (h : p.callInline call = some q) : InlineStep p q := by
  obtain ⟨m, hfind, hcall⟩ := Option.bind_eq_some_iff.mp h
  obtain ⟨base, words, index, values, finish, rfl⟩ := inlineMethods_inlineValue (List.mem_of_find?_eq_some hfind)
  exact callBatched_inlineStep hcall

namespace InlineStep

variable {p q : Pgraph ρ}

theorem vertices (h : InlineStep p q) : q.vertices = p.vertices ∨ q.vertices =
        { p.vertices with inlineBufferLength := p.vertices.inlineBufferLength + 1 } := by
  cases h with
  | set index value hvertices hattrs => exact .inl hvertices
  | finish index value hvertices hattrs => exact .inr hvertices

theorem drawValue (h : InlineStep p q) (a : Nat) {j : Nat} (hj : j < p.vertices.inlineBufferLength) :
    q.drawValue a j = p.drawValue a j := by
  rw [Pgraph.drawValue, Pgraph.drawValue, bindInline_value, bindInline_value]
  cases h with
  | set index value hvertices hattrs =>
    rw [hattrs]
    exact setAttribute_valueAt _ index value a hj
  | finish index value hvertices hattrs =>
    rw [hattrs, copyInlineValue_valueAt _ hj]
    exact setAttribute_valueAt _ index value a hj

theorem drawValue_finished (h : InlineStep p q)
    (hlength : q.vertices.inlineBufferLength = p.vertices.inlineBufferLength + 1) (a : Nat) :
    q.drawValue a p.vertices.inlineBufferLength = q.currentValue a := by
  rw [Pgraph.drawValue, bindInline_value, Pgraph.currentValue]
  cases h with
  | set index value hvertices hattrs =>
    rw [hvertices] at hlength
    omega
  | finish index value hvertices hattrs => rw [hattrs, copyInlineValue_valueAt_self, copyInlineValue_inlineValue]

end InlineStep

namespace Pgraph

structure SameLists (p q : Pgraph ρ) : Prop where
  primitiveMode : q.vertices.primitiveMode = p.vertices.primitiveMode
  drawArrays : q.vertices.drawArrays = p.vertices.drawArrays
  inlineElements : q.vertices.inlineElements = p.vertices.inlineElements
  inlineArray : q.vertices.inlineArray = p.vertices.inlineArray

variable {p q : Pgraph ρ} {calls : List Call}

theorem run_sameLists (h : run callInline p calls = some q) : SameLists p q := by
  refine run_invariant (SameLists p) (fun s call s' hs hcall => ?_) ⟨rfl, rfl, rfl, rfl⟩ h
  obtain ⟨hmode, harrays, helements, harray⟩ := hs
  obtain hv | hv := (callInline_inlineStep hcall).vertices
  · exact ⟨hv ▸ hmode, hv ▸ harrays, hv ▸ helements, hv ▸ harray⟩
  · exact ⟨hv ▸ hmode, hv ▸ harrays, hv ▸ helements, hv ▸ harray⟩

theorem run_drawValue (h : run callInline p calls = some q) :
    p.vertices.inlineBufferLength ≤ q.vertices.inlineBufferLength ∧
      ∀ a, ∀ j < p.vertices.inlineBufferLength, q.drawValue a j = p.drawValue a j := by
  refine run_invariant (fun s => p.vertices.inlineBufferLength ≤ s.vertices.inlineBufferLength ∧
    ∀ a, ∀ j < p.vertices.inlineBufferLength, s.drawValue a j = p.drawValue a j)
    (fun s call s' hs hcall => ?_) ⟨le_refl _, fun _ _ _ => rfl⟩ h
  have hstep := callInline_inlineStep hcall
  refine ⟨?_, fun a j hj => ?_⟩
  · obtain hv | hv := hstep.vertices
    · rw [hv]
      exact hs.1
    · rw [hv]
      exact Nat.le_succ_of_le hs.1
  · rw [hstep.drawValue a (hj.trans_le hs.1)]
    exact hs.2 a j hj

theorem exists_finishedAt (h : run callInline p calls = some q) {j : Nat}
    (hstart : p.vertices.inlineBufferLength ≤ j) (hj : j < q.vertices.inlineBufferLength) :
    ∃ s, FinishedAt p calls j s := by
  induction calls generalizing p with
  | nil =>
    cases h
    omega
  | cons call calls ih =>
    obtain ⟨p', hcall, hrest⟩ := run_cons_eq_some.mp h
    by_cases hp' : p'.vertices.inlineBufferLength ≤ j
    · obtain ⟨s, before, last, rest, s', rfl, hbefore, hlast, hlength⟩ := ih hrest hp'
      exact ⟨s, call :: before, last, rest, s', rfl, run_cons_eq_some.mpr ⟨p', hcall, hbefore⟩, hlast, hlength⟩
    · obtain hv | hv := (callInline_inlineStep hcall).vertices
      · rw [hv] at hp'
        exact absurd hstart hp'
      · have hlength : p'.vertices.inlineBufferLength = p.vertices.inlineBufferLength + 1 := by
          rw [hv]
        exact ⟨p', [], call, calls, p, rfl, rfl, hcall, by omega, by omega⟩

theorem FinishedAt.drawValue {s : Pgraph ρ} {j : Nat} (h : FinishedAt p calls j s)
    (hrun : run callInline p calls = some q) (a : Nat) : q.drawValue a j = s.currentValue a := by
  obtain ⟨before, call, rest, s', rfl, hbefore, hcall, hj, hlength⟩ := h
  obtain ⟨t, ht, hrest⟩ := run_append_eq_some.mp hrun
  obtain ⟨t', ht', hrest⟩ := run_cons_eq_some.mp hrest
  cases ht.symm.trans hbefore
  cases ht'.symm.trans hcall
  rw [(run_drawValue hrest).2 a j (by omega), ← hj]
  exact (callInline_inlineStep hcall).drawValue_finished (by omega) a

theorem callSetBeginEnd_begin {R : Renderer ρ} {p' : Pgraph ρ} {call : Call}
    (h : p.callSetBeginEnd R call = some p') (hcall : call.parameter ≠ 0)
    (hmode : p.vertices.primitiveMode = primTypeInvalid) :
    p'.vertices = { p.vertices with primitiveMode := call.parameter }.resetInlineBuffers := by
  obtain ⟨v, hv, rfl⟩ := Option.map_eq_some_iff.mp h
  rw [Vertices.setBeginEnd, if_neg hcall, if_neg (not_not.mpr hmode)] at hv
  obtain ⟨-, ⟨⟩⟩ := Option.ite_none_right_eq_some.mp hv
  rfl

/-- In every block of inline attribute methods, from any state before it, the draw reads for each
attribute of each vertex the value the attribute had when the vertex was finished. -/
theorem inline_drawValue {R : Renderer ρ} {p start q : Pgraph ρ} {beginCall : Call} {calls : List Call}
    (hmode : p.vertices.primitiveMode = primTypeInvalid) (hparameter : beginCall.parameter ≠ 0)
    (hbegin : p.callSetBeginEnd R beginCall = some start) (hrun : run callInline start calls = some q) :
    (q.vertices.inlineBufferLength ≠ 0 → q.vertices.drawCall =
      some [.buffer beginCall.parameter q.vertices.inlineBufferLength]) ∧
    ∀ j < q.vertices.inlineBufferLength, (∃ s, FinishedAt start calls j s) ∧
      ∀ s, FinishedAt start calls j s → ∀ a, q.drawValue a j = s.currentValue a := by
  have hstart := callSetBeginEnd_begin hbegin hparameter hmode
  have hlists := run_sameLists hrun
  refine ⟨fun hlength => ?_, fun j hj => ⟨?_, fun s hs a => hs.drawValue hrun a⟩⟩
  · have harrays : q.vertices.drawArrays = [] := by rw [hlists.drawArrays, hstart]; rfl
    have helements : q.vertices.inlineElements = [] := by rw [hlists.inlineElements, hstart]; rfl
    have harray : q.vertices.inlineArray = [] := by rw [hlists.inlineArray, hstart]; rfl
    have hprim : q.vertices.primitiveMode = beginCall.parameter := by
      rw [hlists.primitiveMode, hstart]
      rfl
    simp [Vertices.drawCall, harrays, helements, harray, hprim, hlength]
  · have hzero : start.vertices.inlineBufferLength = 0 := by rw [hstart]; rfl
    exact exists_finishedAt hrun (hzero ▸ Nat.zero_le j) hj

def twoVertices : List Call :=
  [⟨0, 0x156C, 0x11⟩, ⟨0, 0x1500, 1⟩, ⟨0, 0x1504, 2⟩, ⟨0, 0x1508, 3⟩,
    ⟨0, 0x156C, 0x22⟩, ⟨0, 0x1500, 4⟩, ⟨0, 0x1504, 5⟩, ⟨0, 0x1508, 6⟩]

def staleNormals : Pgraph Unit :=
  let p := (bufferMachine []).pgraph
  { p with aux := { p.aux with
    vertexAttributes := update p.aux.vertexAttributes 2
      { p.aux.vertexAttributes 2 with inlineBufferPopulated := true } } }

theorem inline_drawValue_twoVertices : ∃ start q : Pgraph Unit,
    staleNormals.callSetBeginEnd (bufferGpu []).toRenderer ⟨0, setBeginEnd, 5⟩ = some start ∧
    run callInline start twoVertices = some q ∧ q.vertices.inlineBufferLength = 2 ∧
    q.vertices.drawCall = some [.buffer 5 2] ∧
    ∀ j < 2, ∃ s, FinishedAt start twoVertices j s ∧ ∀ a, q.drawValue a j = s.currentValue a := by
  obtain ⟨start, hbegin, q, hrun, hlength⟩ : ∃ start,
      staleNormals.callSetBeginEnd (bufferGpu []).toRenderer ⟨0, setBeginEnd, 5⟩ = some start ∧
      ∃ q, run callInline start twoVertices = some q ∧ q.vertices.inlineBufferLength = 2 := by
    decide +kernel
  obtain ⟨hdraw, hvalues⟩ := inline_drawValue (by decide +kernel) (by decide) hbegin hrun
  refine ⟨start, q, hbegin, hrun, hlength, ?_, fun j hj => ?_⟩
  · rw [hdraw (by omega), hlength]
  · obtain ⟨⟨s, hs⟩, hall⟩ := hvalues j (by omega)
    exact ⟨s, hs, hall s hs⟩

end Pgraph

end XogMobile.Nv2a
