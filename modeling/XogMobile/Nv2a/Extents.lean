import XogMobile.Nv2a.Joined
import XogMobile.Nv2a.DrawOrder

/-!
# The extents of the submitted ranges

`DRAW_ARRAYS` keeps the lowest index and the end of the highest range along with the ranges, and the
renderer uploads the vertices between the two. Both are updated before the range is connected with
the last one, and the flag that keeps a range apart is set by the caller after a squash. Over any
sequence of the method in one block, with or without squashes, the extents are those of the ranges
that were submitted, and the stored ranges fall into pieces, one for what was submitted between two
squashes.
-/

namespace XogMobile.Nv2a

open Lib List

/-- The vertices with `draw_arrays_min_start` and `draw_arrays_max_count`. -/
structure Extents where
  vertices : Vertices
  (minStart maxCount : Nat)
  deriving DecidableEq

namespace Extents

/-- `pgraph_reset_draw_arrays`. The lowest start is set to `-1`, and it is unsigned. -/
def resetDrawArrays (s : Extents) : Extents where
  vertices := s.vertices.resetDrawArrays
  minStart := 0xFFFFFFFF
  maxCount := 0

def resetInlineBuffers (s : Extents) : Extents :=
  { s with vertices := s.vertices.resetInlineBuffers }.resetDrawArrays

/-- `DRAW_ARRAYS`. Behind single indices a range is turned into indices, and the extents stay. -/
def drawArraysMethod (s : Extents) (parameter : Word) : Option Extents :=
  (s.vertices.drawArraysMethod parameter).map fun v =>
    if s.vertices.inlineElements ≠ [] then { s with vertices := v }
    else
      { vertices := v
        minStart := min s.minStart (Vertices.drawArraysStart parameter)
        maxCount := max s.maxCount
          (Vertices.drawArraysStart parameter + Vertices.drawArraysCount parameter) }

structure Submission where
  parameter : Word
  squashed : Bool

def Submission.range (e : Submission) : Nat × Nat :=
  (Vertices.drawArraysStart e.parameter, Vertices.drawArraysCount e.parameter)

def step (s : Extents) (e : Submission) : Option Extents :=
  (s.drawArraysMethod e.parameter).bind fun s =>
    if e.squashed then
      if s.vertices.CanSquash then some { s with vertices := s.vertices.squash } else none
    else some s

def groups : List Submission → List (List (Nat × Nat))
  | [] => [[]]
  | e :: es => if e.squashed then [e.range] :: groups es else (groups es).modifyHead (e.range :: ·)

/-- The vertices between two squashes: `done` are the ranges from before the last squash. -/
structure Apart (v : Vertices) (done last : List (Nat × Nat)) : Prop where
  inlineElements : v.inlineElements = []
  ranges : v.drawArrays = done ++ last
  connect : v.preventConnect = (!done.isEmpty && last.isEmpty)

variable {s t : Extents} {e : Submission} {done last : List (Nat × Nat)}

theorem rangeIndices_extend (last : List (Nat × Nat)) (start count : Nat) :
    rangeIndices (Vertices.extend false last start count)
      = rangeIndices last ++ range' start count := by
  let v : Vertices := { Vertices.initial with drawArrays := last }
  obtain ⟨ranges, prevent, hadd, hindices⟩ := v.addRange_indices start count
  rw [Vertices.addRange_eq] at hadd
  have hranges := congrArg Vertices.drawArrays hadd
  change Vertices.extend false last start count = ranges at hranges
  rw [hranges]
  exact hindices

theorem step_ranges (h : Apart s.vertices done last) (hstep : step s e = some t) : (if e.squashed
      then Apart t.vertices (done ++ Vertices.extend false last e.range.1 e.range.2) []
      else Apart t.vertices done (Vertices.extend false last e.range.1 e.range.2)) ∧
      t.minStart = min s.minStart e.range.1 ∧ t.maxCount = max s.maxCount (e.range.1 + e.range.2) := by
  obtain ⟨m, hmethod, hsquash⟩ := Option.bind_eq_some_iff.mp hstep
  obtain ⟨v, hv, rfl⟩ := Option.map_eq_some_iff.mp hmethod
  rw [Vertices.drawArraysMethod, if_neg (not_not_intro h.inlineElements)] at hv
  obtain ⟨-, hv⟩ := Option.ite_none_right_eq_some.mp hv
  rw [if_neg (not_not_intro h.inlineElements)] at hsquash
  have hextend : Vertices.extend s.vertices.preventConnect s.vertices.drawArrays e.range.1 e.range.2
      = done ++ Vertices.extend false last e.range.1 e.range.2 := by
    rw [← Vertices.extend_append, Bool.false_or, h.connect, h.ranges]
  have hne := Vertices.extend_ne_nil false last e.range.1 e.range.2
  have hempty := isEmpty_eq_false_iff.mpr hne
  have hapart : Apart v done (Vertices.extend false last e.range.1 e.range.2) := by
    cases hv
    rw [Vertices.addRange_eq]
    exact ⟨h.inlineElements, hextend, by rw [hempty, Bool.and_false]⟩
  by_cases hs : e.squashed
  · rw [if_pos hs] at hsquash ⊢
    obtain ⟨-, ht⟩ := Option.ite_none_right_eq_some.mp hsquash
    cases ht
    refine ⟨⟨hapart.inlineElements, ?_, ?_⟩, rfl, rfl⟩
    · rw [append_nil]
      exact hapart.ranges
    · simp [hne, Vertices.squash]
  · rw [if_neg hs] at hsquash ⊢
    cases hsquash
    exact ⟨hapart, rfl, rfl⟩

private theorem modifyHead_nil_append (groups : List (List (Nat × Nat))) :
    groups.modifyHead ([] ++ ·) = groups := by
  cases groups <;> rfl

variable {es : List Submission}

theorem run_pieces {current : List (Nat × Nat)} (h : Apart s.vertices done last)
    (hcurrent : rangeIndices last = rangeIndices current) (hrun : run step s es = some t) :
    ∃ pieces, t.vertices.drawArrays = done ++ pieces.flatten ∧
      List.Forall₂ (fun piece group => rangeIndices piece = rangeIndices group) pieces
        ((groups es).modifyHead (current ++ ·)) := by
  induction es generalizing s done last current with
  | nil =>
    cases hrun
    refine ⟨[last], ?_, ?_⟩
    · rw [flatten_singleton]
      exact h.ranges
    · simpa [groups] using hcurrent
  | cons e es ih =>
    obtain ⟨m, hm, hrest⟩ := run_cons_eq_some.mp hrun
    obtain ⟨hapart, -, -⟩ := step_ranges h hm
    have hcurrent' : rangeIndices (Vertices.extend false last e.range.1 e.range.2)
        = rangeIndices (current ++ [e.range]) := by
      rw [rangeIndices_extend, hcurrent, rangeIndices_append, ← rangeIndices_singleton]
    by_cases hs : e.squashed
    · rw [if_pos hs] at hapart
      obtain ⟨pieces, hranges, hpieces⟩ := ih hapart (rfl : rangeIndices [] = rangeIndices []) hrest
      refine ⟨Vertices.extend false last e.range.1 e.range.2 :: pieces, ?_, ?_⟩
      · rw [hranges, flatten_cons, append_assoc]
      · rw [groups, if_pos hs, modifyHead_cons]
        rw [modifyHead_nil_append] at hpieces
        exact List.Forall₂.cons hcurrent' hpieces
    · rw [if_neg hs] at hapart
      obtain ⟨pieces, hranges, hpieces⟩ := ih hapart hcurrent' hrest
      refine ⟨pieces, hranges, ?_⟩
      rw [groups, if_neg hs, modifyHead_modifyHead]
      simpa [Function.comp_def] using hpieces

theorem run_extents (h : Apart s.vertices done last) (hrun : run step s es = some t) :
    t.minStart = (es.map (·.range.1)).foldl min s.minStart ∧
      t.maxCount = (es.map fun e => e.range.1 + e.range.2).foldl max s.maxCount := by
  induction es generalizing s done last with
  | nil =>
    cases hrun
    exact ⟨rfl, rfl⟩
  | cons e es ih =>
    obtain ⟨m, hm, hrest⟩ := run_cons_eq_some.mp hrun
    obtain ⟨hapart, hmin, hmax⟩ := step_ranges h hm
    rw [map_cons, map_cons, foldl_cons, foldl_cons, ← hmin, ← hmax]
    split at hapart
    · exact ih hapart hrest
    · exact ih hapart hrest

theorem groups_flatten (es : List Submission) : (groups es).flatten = es.map Submission.range := by
  induction es with
  | nil => rfl
  | cons e es ih =>
    rw [groups, map_cons, ← ih]
    split
    · rfl
    · cases hgroups : groups es with
      | nil => cases es <;> simp_all [groups]
      | cons g gs => rfl

theorem rangeIndices_flatten {pieces groups : List (List (Nat × Nat))}
    (h : List.Forall₂ (fun piece group => rangeIndices piece = rangeIndices group) pieces groups) :
    rangeIndices pieces.flatten = rangeIndices groups.flatten := by
  induction h with
  | nil => rfl
  | cons hhead _ ih => rw [flatten_cons, flatten_cons, rangeIndices_append, rangeIndices_append, hhead, ih]

theorem drawArraysStart_le (parameter : Word) : Vertices.drawArraysStart parameter ≤ 0xFFFFFFFF :=
  Nat.le_of_lt_succ (getMask parameter 0x00FFFFFF).isLt

theorem foldl_min_starts (es : List Submission) :
    (es.map (·.range.1)).foldl min 0xFFFFFFFF = (es.map (·.range.1)).min?.getD 0xFFFFFFFF := by
  rw [foldl_min]
  cases hmin : (es.map (·.range.1)).min? with
  | none => rfl
  | some start =>
    obtain ⟨e, -, rfl⟩ := mem_map.mp (min?_eq_some_iff.mp hmin).1
    exact Nat.min_eq_right (drawArraysStart_le e.parameter)

/-- The extents of a block are those of the ranges submitted since the reset, the stored ranges stand
for the same indices in the same order, and they fall into one piece for each group of ranges that no
squash separates. -/
theorem draw_arrays_extents (s : Extents) (es : List Submission)
    (hrun : run step s.resetInlineBuffers es = some t) :
    t.minStart = (es.map (·.range.1)).min?.getD 0xFFFFFFFF ∧
    t.maxCount = (es.map fun e => e.range.1 + e.range.2).max?.getD 0 ∧
    rangeIndices t.vertices.drawArrays = rangeIndices (es.map Submission.range) ∧
    ∃ pieces, t.vertices.drawArrays = pieces.flatten ∧
      List.Forall₂ (fun piece group => rangeIndices piece = rangeIndices group) pieces
        (groups es) := by
  have hapart : Apart s.resetInlineBuffers.vertices [] [] := ⟨rfl, rfl, rfl⟩
  obtain ⟨hmin, hmax⟩ := run_extents hapart hrun
  obtain ⟨pieces, hranges, hpieces⟩ :=
    run_pieces hapart (rfl : rangeIndices [] = rangeIndices []) hrun
  rw [modifyHead_nil_append] at hpieces
  refine ⟨hmin.trans (foldl_min_starts es), ?_, ?_, pieces, hranges, hpieces⟩
  · rw [hmax, foldl_max]
    exact Nat.zero_max _
  · rw [hranges, nil_append, rangeIndices_flatten hpieces, groups_flatten]

theorem draw_arrays_extents_squashed :
    let es : List Submission := [⟨0x02000004, false⟩, ⟨0x01000007, true⟩, ⟨0x00000009, false⟩]
    let t : Extents :=
      { vertices := { Vertices.initial with drawArrays := [(4, 5), (9, 1)], joined := 1 }
        minStart := 4
        maxCount := 10 }
    run step (Extents.mk Vertices.initial 0 0).resetInlineBuffers es = some t ∧
    t.minStart = (es.map (·.range.1)).min?.getD 0xFFFFFFFF ∧
    t.maxCount = (es.map fun e => e.range.1 + e.range.2).max?.getD 0 ∧
    rangeIndices t.vertices.drawArrays = rangeIndices (es.map Submission.range) ∧
    ∃ pieces, t.vertices.drawArrays = pieces.flatten ∧
      List.Forall₂ (fun piece group => rangeIndices piece = rangeIndices group) pieces
        (groups es) := by
  intro es t
  have hrun : run step (Extents.mk Vertices.initial 0 0).resetInlineBuffers es = some t := by
    decide +kernel
  exact ⟨hrun, draw_arrays_extents _ es hrun⟩

end Extents

end XogMobile.Nv2a
