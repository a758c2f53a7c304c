import XogMobile.Nv2a.Joined

/-!
# The capacity of the vertex arrays

The handlers append to arrays of a fixed size, each behind an assertion of its own. Here the handlers
do what they assert and no more: a store past the end of an array is recorded like any other. All of
them stay inside but `ARRAY_ELEMENT16`, which asserts that there is room for one index and stores two.
-/

namespace XogMobile.Nv2a

open Lib List Option Nat

inductive VertexArray where
  | inlineElements
  | inlineArray
  | inlineBuffer (attr : Fin 16)
  | drawArrays
  deriving DecidableEq

def VertexArray.capacity : VertexArray → Nat
  | .inlineElements => maxBatchLength
  | .inlineArray => maxBatchLength
  | .inlineBuffer _ => maxBatchLength
  | .drawArrays => maxDrawArrays

/-- The lists, and every store to the arrays behind them. -/
structure Stored where
  vertices : Vertices
  stores : List (VertexArray × Nat)
  deriving DecidableEq

/-- The methods, and the two parts of the methods that set an attribute: its buffer is filled for the
vertices so far, and a vertex is finished with the attributes that have a buffer. -/
inductive VertexEvent where
  | arrayElement16 (parameter : Word)
  | arrayElement32 (parameter : Word)
  | drawArrays (parameter : Word) (squashed : Bool)
  | inlineArray (parameter : Word)
  | fillBuffer (attr : Fin 16)
  | finishVertex (populated : List (Fin 16))
  | setBeginEnd (nopDraw : Bool) (parameter : Word)

namespace Stored

def initial : Stored := ⟨Vertices.initial, []⟩

variable (s : Stored)

def store (a : VertexArray) (index count : Nat) : Stored :=
  { s with stores := s.stores ++ (List.range' index count).map fun i => (a, i) }

def appendElements (indices : List Nat) : Stored :=
  { s with vertices := { s.vertices with inlineElements := s.vertices.inlineElements ++ indices } }.store
    .inlineElements s.vertices.inlineElements.length indices.length

def pushRange (start count : Nat) : Option Stored :=
  if s.vertices.inlineElements.length + count < maxBatchLength then
    some (s.appendElements (List.range' start count))
  else none

def expandDrawArrays : Option Stored :=
  s.vertices.drawArrays.getLast?.bind fun last =>
    (if 1 < s.vertices.drawArrays.length then
        s.vertices.flushDraw.map fun v => { s with vertices := v.resetInlineBuffers }
      else some s).bind fun s =>
      (s.pushRange last.1 last.2).map fun s => { s with vertices := s.vertices.resetDrawArrays }

/-- The ranges are turned into indices first. Then there has to be room for one index. -/
def pushElements (indices : List Nat) : Option Stored :=
  (if s.vertices.drawArrays ≠ [] then s.expandDrawArrays else some s).bind fun s =>
    if s.vertices.inlineElements.length < maxBatchLength then some (s.appendElements indices)
    else none

/-- `DRAW_ARRAYS`. A range that is connected changes the count of the last one. -/
def drawArraysMethod (parameter : Word) : Option Stored :=
  let start := Vertices.drawArraysStart parameter
  let count := Vertices.drawArraysCount parameter
  if s.vertices.inlineElements ≠ [] then
    if s.vertices.preventConnect then none else s.pushRange start count
  else if s.vertices.drawArrays.length < maxDrawArrays then
    let v := s.vertices.addRange start count
    some ({ s with vertices := v }.store .drawArrays (v.drawArrays.length - 1) 1)
  else none

def storeVertex (populated : List (Fin 16)) (index : Nat) : Stored :=
  populated.foldl (fun s attr => s.store (.inlineBuffer attr) index 1) s

/-- What a method does, with the squash that may follow a `DRAW_ARRAYS`. -/
def step : VertexEvent → Option Stored
  | .arrayElement16 parameter =>
    s.pushElements [(parameter &&& 0xFFFF).toNat, (parameter >>> 16).toNat]
  | .arrayElement32 parameter => s.pushElements [parameter.toNat]
  | .drawArrays parameter squashed =>
    (s.drawArraysMethod parameter).bind fun s =>
      if squashed then
        if s.vertices.CanSquash then some { s with vertices := s.vertices.squash } else none
      else some s
  | .inlineArray parameter =>
    (s.vertices.inlineArrayMethod parameter).map fun v =>
      { s with vertices := v }.store .inlineArray s.vertices.inlineArray.length 1
  | .fillBuffer attr =>
    some (s.store (.inlineBuffer attr) 0 s.vertices.inlineBufferLength)
  | .finishVertex populated =>
    s.vertices.finishInlineBufferVertex.map fun v =>
      { s with vertices := v }.storeVertex populated s.vertices.inlineBufferLength
  | .setBeginEnd nopDraw parameter =>
    (s.vertices.setBeginEnd nopDraw parameter).map fun v => { s with vertices := v }

/-- All stores so far are inside their arrays. -/
structure Within (s : Stored) : Prop where
  stores : ∀ a i, (a, i) ∈ s.stores → i < a.capacity
  inlineElements : s.vertices.inlineElements.length ≤ maxBatchLength
  inlineArray : s.vertices.inlineArray.length ≤ maxBatchLength
  inlineBuffer : s.vertices.inlineBufferLength ≤ maxBatchLength
  drawArrays : s.vertices.drawArrays.length ≤ maxDrawArrays

/-- How many indices there are once the pending ranges have been turned into indices: with more than
one range pending, all of them are drawn first. -/
def elements (v : Vertices) : Nat :=
  match v.drawArrays.getLast? with
  | none => v.inlineElements.length
  | some last => (if 1 < v.drawArrays.length then 0 else v.inlineElements.length) + last.2

/-- `ARRAY_ELEMENT16` does not arrive when one slot is left. -/
def RoomForTwo : VertexEvent → Prop
  | .arrayElement16 _ => elements s.vertices + 1 ≠ maxBatchLength
  | _ => True

instance : ∀ e, Decidable (s.RoomForTwo e)
  | .arrayElement16 _ => inferInstanceAs (Decidable (_ ≠ _))
  | .arrayElement32 _ => isTrue trivial
  | .drawArrays _ _ => isTrue trivial
  | .inlineArray _ => isTrue trivial
  | .fillBuffer _ => isTrue trivial
  | .finishVertex _ => isTrue trivial
  | .setBeginEnd _ _ => isTrue trivial

variable {s t : Stored}

variable {index count start : Nat} {indices : List Nat} {v : Vertices} {parameter : Word}
  {e : VertexEvent}

theorem Within.store (h : s.Within) {a : VertexArray} (hfits : index + count ≤ a.capacity) :
    (s.store a index count).Within := by
  refine { h with stores := ?_ }
  intro b i hi
  rcases mem_append.mp hi with hi | hi
  · exact h.stores b i hi
  · obtain ⟨j, hj, hpair⟩ := mem_map.mp hi
    cases hpair
    have hlt := (mem_range'_1.mp hj).2
    omega

theorem Within.appendElements (h : s.Within)
    (hfits : s.vertices.inlineElements.length + indices.length ≤ maxBatchLength) :
    (s.appendElements indices).Within := by
  apply Within.store _ hfits
  refine { h with inlineElements := ?_ }
  rw [length_append]
  exact hfits

theorem Within.of_vertices (h : s.Within) (helements : v.inlineElements.length ≤ maxBatchLength)
    (harray : v.inlineArray.length ≤ maxBatchLength)
    (hbuffer : v.inlineBufferLength ≤ maxBatchLength)
    (hranges : v.drawArrays.length ≤ maxDrawArrays) : Within { s with vertices := v } :=
  ⟨h.stores, helements, harray, hbuffer, hranges⟩

theorem Within.resetInlineBuffers (h : s.Within) (v : Vertices) : Within { s with vertices := v.resetInlineBuffers } :=
  h.of_vertices (zero_le _) (zero_le _) (zero_le _) (zero_le _)

theorem pushRange_eq_some (h : s.pushRange start count = some t) :
    s.vertices.inlineElements.length + count < maxBatchLength ∧ t = s.appendElements (List.range' start count) := by
  obtain ⟨hfits, ht⟩ := ite_none_right_eq_some.mp h
  cases ht
  exact ⟨hfits, rfl⟩

theorem Within.pushRange (h : s.Within) (hpush : s.pushRange start count = some t) : t.Within := by
  obtain ⟨hfits, rfl⟩ := pushRange_eq_some hpush
  apply h.appendElements
  rw [length_range']
  exact le_of_lt hfits

theorem expandDrawArrays_spec (h : s.Within) (hexpand : s.expandDrawArrays = some t) :
    t.Within ∧ t.vertices.inlineElements.length = elements s.vertices := by
  obtain ⟨last, hlast, hrest⟩ := bind_eq_some_iff.mp hexpand
  obtain ⟨m, hm, hpush⟩ := bind_eq_some_iff.mp hrest
  obtain ⟨u, hu, rfl⟩ := map_eq_some_iff.mp hpush
  obtain ⟨hfits, rfl⟩ := pushRange_eq_some hu
  have hm' : m.Within ∧ m.vertices.inlineElements.length
      = if 1 < s.vertices.drawArrays.length then 0 else s.vertices.inlineElements.length := by
    split at hm
    · next hmany =>
      obtain ⟨v, -, rfl⟩ := map_eq_some_iff.mp hm
      exact ⟨h.resetInlineBuffers v, (if_pos hmany).symm⟩
    · next hone =>
      cases hm
      exact ⟨h, (if_neg hone).symm⟩
  obtain ⟨hwithin, hlength⟩ := hm'
  have hu' := hwithin.pushRange hu
  refine ⟨hu'.of_vertices hu'.inlineElements hu'.inlineArray hu'.inlineBuffer (zero_le _), ?_⟩
  rw [elements, hlast]
  change (m.vertices.inlineElements ++ range' last.1 last.2).length = _
  rw [length_append, length_range', hlength]

theorem pushElements_spec (h : s.Within) (hpush : s.pushElements indices = some t) : ∃ m : Stored, m.Within ∧
      m.vertices.inlineElements.length = elements s.vertices ∧
      elements s.vertices < maxBatchLength ∧ t = m.appendElements indices := by
  obtain ⟨m, hm, hrest⟩ := bind_eq_some_iff.mp hpush
  obtain ⟨hroom, ht⟩ := ite_none_right_eq_some.mp hrest
  cases ht
  have hm' : m.Within ∧ m.vertices.inlineElements.length = elements s.vertices := by
    split at hm
    · exact expandDrawArrays_spec h hm
    · next hnone =>
      cases hm
      refine ⟨h, ?_⟩
      rw [elements, not_not.mp hnone]
      rfl
  obtain ⟨hwithin, hlength⟩ := hm'
  exact ⟨m, hwithin, hlength, hlength ▸ hroom, rfl⟩

theorem extend_length (prevent : Bool) (ranges : List (Nat × Nat)) (start count : Nat) :
    (Vertices.extend prevent ranges start count).length ≤ ranges.length + 1 := by
  unfold Vertices.extend
  split
  · split
    · rw [length_append, length_dropLast, length_singleton]
      omega
    · rw [length_append, length_singleton]
  · rw [length_append, length_singleton]

theorem Within.drawArraysMethod (h : s.Within) (hdraw : s.drawArraysMethod parameter = some t) : t.Within := by
  unfold Stored.drawArraysMethod at hdraw
  split at hdraw
  · obtain ⟨-, hpush⟩ := ite_none_left_eq_some.mp hdraw
    exact h.pushRange hpush
  · obtain ⟨hroom, ht⟩ := ite_none_right_eq_some.mp hdraw
    cases ht
    have hlength := extend_length s.vertices.preventConnect s.vertices.drawArrays
      (Vertices.drawArraysStart parameter) (Vertices.drawArraysCount parameter)
    have hne := Vertices.extend_ne_nil s.vertices.preventConnect s.vertices.drawArrays
      (Vertices.drawArraysStart parameter) (Vertices.drawArraysCount parameter)
    rw [Vertices.addRange_eq]
    apply Within.store
    · exact h.of_vertices h.inlineElements h.inlineArray h.inlineBuffer (by dsimp only; omega)
    · change _ - 1 + 1 ≤ maxDrawArrays
      dsimp only
      omega

theorem setBeginEnd_cases {w : Vertices} {nopDraw : Bool} (h : v.setBeginEnd nopDraw parameter = some w) :
    w = v ∨ ∃ u : Vertices, ∃ prim, w = { u.resetInlineBuffers with primitiveMode := prim } := by
  unfold Vertices.setBeginEnd at h
  split at h
  · split at h
    · cases h
      exact .inr ⟨v, v.primitiveMode, rfl⟩
    · obtain ⟨u, -, rfl⟩ := map_eq_some_iff.mp h
      exact .inr ⟨u, _, rfl⟩
  · split at h
    · cases h
      exact .inl rfl
    · obtain ⟨-, hw⟩ := ite_none_right_eq_some.mp h
      cases hw
      exact .inr ⟨v, parameter, rfl⟩

theorem Within.storeVertex (h : s.Within) (populated : List (Fin 16))
    (hfits : index < maxBatchLength) : (s.storeVertex populated index).Within := by
  induction populated generalizing s with
  | nil => exact h
  | cons attr populated ih =>
    have hstored : (s.store (.inlineBuffer attr) index 1).Within := h.store hfits
    exact ih hstored

theorem arrayElement16_within_iff (h : s.Within) {a b : Nat} (hpush : s.pushElements [a, b] = some t) :
    t.Within ↔ elements s.vertices + 1 ≠ maxBatchLength := by
  obtain ⟨m, hwithin, hlength, hroom, rfl⟩ := pushElements_spec h hpush
  constructor
  · intro ht hlast
    have hle := ht.inlineElements
    change (m.vertices.inlineElements ++ [a, b]).length ≤ _ at hle
    rw [length_append, length_cons, length_singleton] at hle
    omega
  · intro hne
    apply hwithin.appendElements
    rw [length_cons, length_singleton]
    omega

theorem step_within_iff (h : s.Within) (hstep : s.step e = some t) : t.Within ↔ s.RoomForTwo e := by
  cases e with
  | arrayElement16 parameter => exact arrayElement16_within_iff h hstep
  | arrayElement32 parameter =>
    obtain ⟨m, hwithin, hlength, hroom, rfl⟩ := pushElements_spec h hstep
    exact iff_of_true (hwithin.appendElements (hlength ▸ hroom)) trivial
  | drawArrays parameter squashed =>
    obtain ⟨m, hm, hsquash⟩ := bind_eq_some_iff.mp hstep
    have hwithin := h.drawArraysMethod hm
    split at hsquash
    · obtain ⟨-, ht⟩ := ite_none_right_eq_some.mp hsquash
      cases ht
      exact iff_of_true { hwithin with } trivial
    · cases hsquash
      exact iff_of_true hwithin trivial
  | inlineArray parameter =>
    obtain ⟨v, hv, rfl⟩ := map_eq_some_iff.mp hstep
    obtain ⟨hroom, hv⟩ := ite_none_right_eq_some.mp hv
    cases hv
    refine iff_of_true (Within.store ?_ hroom) trivial
    refine { h with inlineArray := ?_ }
    rw [length_append]
    exact hroom
  | fillBuffer attr =>
    cases hstep
    refine iff_of_true (h.store ?_) trivial
    rw [zero_add]
    exact h.inlineBuffer
  | finishVertex populated =>
    obtain ⟨v, hv, rfl⟩ := map_eq_some_iff.mp hstep
    obtain ⟨hroom, hv⟩ := ite_none_right_eq_some.mp hv
    cases hv
    have hwithin : Within { s with vertices := { s.vertices with
        inlineBufferLength := s.vertices.inlineBufferLength + 1 } } :=
      { h with inlineBuffer := hroom }
    exact iff_of_true (hwithin.storeVertex populated hroom) trivial
  | setBeginEnd nopDraw parameter =>
    obtain ⟨v, hv, rfl⟩ := map_eq_some_iff.mp hstep
    refine iff_of_true ?_ trivial
    obtain rfl | ⟨u, prim, rfl⟩ := setBeginEnd_cases hv
    · exact h
    · exact h.of_vertices (zero_le _) (zero_le _) (zero_le _) (zero_le _)

def vertexStep (v : Vertices) : VertexEvent → Option Vertices
  | .arrayElement16 parameter => v.arrayElement16 parameter
  | .arrayElement32 parameter => v.arrayElement32 parameter
  | .drawArrays parameter squashed =>
    (v.drawArraysMethod parameter).bind fun v =>
      if squashed then
        if v.CanSquash then some v.squash else none
      else some v
  | .inlineArray parameter => v.inlineArrayMethod parameter
  | .fillBuffer _ => some v
  | .finishVertex _ => v.finishInlineBufferVertex
  | .setBeginEnd nopDraw parameter => v.setBeginEnd nopDraw parameter

/-- In a run that passes the assertions, every state is within the arrays exactly when no
`ARRAY_ELEMENT16` arrives with one slot left. -/
theorem vertex_arrays_within_iff {es : List VertexEvent} (h : s.Within)
    (hrun : run step s es = some t) :
    (∀ before after m, es = before ++ after → run step s before = some m → m.Within) ↔
      Meets step RoomForTwo s es := by
  constructor
  · intro hall
    induction es generalizing s with
    | nil => trivial
    | cons e es ih =>
      obtain ⟨m, hm, hrest⟩ := run_cons_eq_some.mp hrun
      have hwithin : m.Within := hall [e] es m rfl (run_cons_eq_some.mpr ⟨m, hm, rfl⟩)
      apply meets_cons ((step_within_iff h hm).mp hwithin) hm
      apply ih hwithin hrest
      intro before after u hes hu
      exact hall (e :: before) after u (congrArg (e :: ·) hes) (run_cons_eq_some.mpr ⟨m, hm, hu⟩)
  · intro hmeets before after m hes hm
    rw [hes] at hmeets
    refine run_invariant_of_meets Within ?_ h (meets_append.mp hmeets).1 hm
    intro s e s' hs hroom hstep
    exact (step_within_iff hs hstep).mpr hroom

theorem initial_within : initial.Within := ⟨by rintro _ _ ⟨⟩, zero_le _, zero_le _, zero_le _, zero_le _⟩

theorem vertex_arrays_within_block :
    let es : List VertexEvent := [.setBeginEnd false 4, .drawArrays 0x02000005 false,
      .arrayElement16 0x00020001, .arrayElement32 9]
    ∃ t, run step initial es = some t ∧ t.vertices.inlineElements = [5, 6, 7, 1, 2, 9] ∧
      ((∀ before after m, es = before ++ after → run step initial before = some m → m.Within) ↔
        Meets step RoomForTwo initial es) := by
  intro es
  refine exists_some_and (by decide +kernel) fun t hrun _ => ?_
  exact vertex_arrays_within_iff initial_within hrun

theorem step_arrayElement16 (parameter : Word) (hranges : s.vertices.drawArrays = [])
    (hroom : s.vertices.inlineElements.length < maxBatchLength) :
    s.step (.arrayElement16 parameter) = some
      (s.appendElements [(parameter &&& 0xFFFF).toNat, (parameter >>> 16).toNat]) := by
  rw [step, pushElements, if_neg (not_not_intro hranges), bind_some, if_pos hroom]

theorem run_arrayElement16 (n : Nat) (hranges : s.vertices.drawArrays = [])
    (hfits : s.vertices.inlineElements.length + 2 * n ≤ maxBatchLength) :
    ∃ t, run step s (List.replicate n (.arrayElement16 0)) = some t ∧ t.vertices.drawArrays = [] ∧
      t.vertices.inlineElements.length = s.vertices.inlineElements.length + 2 * n := by
  induction n generalizing s with
  | zero => exact ⟨s, rfl, hranges, rfl⟩
  | succ n ih =>
    have hstep := step_arrayElement16 0 hranges (by omega)
    generalize hm : s.appendElements _ = m at hstep
    have hlength : m.vertices.inlineElements.length = s.vertices.inlineElements.length + 2 := by
      rw [← hm]
      exact length_append
    obtain ⟨t, hrun, hranges', hcount⟩ := ih (s := m) (hm ▸ hranges) (by omega)
    exact ⟨t, run_cons_eq_some.mpr ⟨m, hstep, hrun⟩, hranges', by omega⟩

/-- The capacity is odd. So the guest only has to send words of two indices: the second index of the
last word is stored behind the array, where `inline_buffer_length` is. -/
theorem array_element16_overruns :
    ∃ t, run step initial (List.replicate 262144 (.arrayElement16 0)) = some t ∧
      (.inlineElements, VertexArray.capacity .inlineElements) ∈ t.stores ∧
      t.vertices.inlineElements.length = VertexArray.capacity .inlineElements + 1 := by
  obtain ⟨m, hrun, hranges, hlength⟩ :=
    run_arrayElement16 (s := initial) 262143 rfl (by decide)
  change _ = 0 + 2 * 262143 at hlength
  have hroom : m.vertices.inlineElements.length < maxBatchLength := by
    rw [hlength]
    decide
  have hstep : m.step (.arrayElement16 0) = some (m.appendElements [0, 0]) :=
    step_arrayElement16 0 hranges hroom
  refine ⟨m.appendElements [0, 0], ?_, ?_, ?_⟩
  · rw [replicate_succ']
    exact run_append_of_eq_some hrun (run_cons_eq_some.mpr ⟨_, hstep, rfl⟩)
  · apply mem_append_right
    rw [hlength]
    exact mem_map.mpr ⟨524287, by simp, rfl⟩
  · change (_ ++ _ : List Nat).length = _
    rw [length_append, hlength]
    rfl

end Stored

end XogMobile.Nv2a
