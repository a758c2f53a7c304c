import XogMobile.Nv2a.Vertices

/-!
# Vertices of joined blocks

The squash joins a block of `DRAW_ARRAYS` with the next one of the same primitive type. The ranges of
the first stay pending until the last block ends, where without the squash they would have been drawn
at once. `Joins` relates the vertices with the squash to those without: what is drawn is the same up
to the ranges that are still pending, with each range drawn by itself. The handlers keep it.
-/

namespace XogMobile.Nv2a

open Lib List Option

def DrawCall.ranges : DrawCall → List DrawCall
  | .arrays prim ranges => ranges.map fun r => .arrays prim [r]
  | .elements prim indices => [.elements prim indices]
  | .buffer prim vertices => [.buffer prim vertices]
  | .array prim words => [.array prim words]

namespace Vertices

def drawnRanges (v : Vertices) : List DrawCall := v.drawn.flatMap DrawCall.ranges

def joinedRanges (v : Vertices) : List (Nat × Nat) := v.drawArrays.take v.joined

def joinedDraws (nopDraw : Bool) (v : Vertices) : List DrawCall :=
  if nopDraw ∨ v.primitiveMode = primTypeInvalid then []
  else v.joinedRanges.map fun r => .arrays v.primitiveMode [r]

theorem joinedDraws_of_zero {nopDraw : Bool} {v : Vertices} (h : v.joined = 0) : v.joinedDraws nopDraw = [] := by
  rw [joinedDraws, joinedRanges, h]
  split <;> rfl

/-- The vertices `v` with the squash and `w` without. -/
structure Joins (nopDraw : Bool) (v w : Vertices) : Prop where
  primitiveMode : w.primitiveMode = v.primitiveMode
  inlineElements : w.inlineElements = v.inlineElements
  inlineArray : w.inlineArray = v.inlineArray
  inlineBufferLength : w.inlineBufferLength = v.inlineBufferLength
  joined : w.joined = 0
  primitive : v.primitiveMode.toNat ≤ 0x0A
  le : v.joined ≤ v.drawArrays.length
  elements : v.joined ≠ 0 → v.inlineElements = []
  ranges : v.drawArrays = v.joinedRanges ++ w.drawArrays
  -- Without the squash the first range of a block has nothing to be connected with.
  connect : v.preventConnect = (w.preventConnect || (v.joined != 0 && w.drawArrays.isEmpty))
  drawn : w.drawnRanges = v.drawnRanges ++ v.joinedDraws nopDraw

variable {nopDraw : Bool} {v w v' : Vertices}

theorem Joins.refl (nopDraw : Bool) (hjoined : v.joined = 0) (hprim : v.primitiveMode.toNat ≤ 0x0A) :
    Joins nopDraw v v where
  primitiveMode := rfl
  inlineElements := rfl
  inlineArray := rfl
  inlineBufferLength := rfl
  joined := hjoined
  primitive := hprim
  le := by rw [hjoined]; exact Nat.zero_le _
  elements h := absurd hjoined h
  ranges := by rw [joinedRanges, hjoined]; rfl
  connect := by rw [hjoined]; simp
  drawn := by rw [joinedDraws_of_zero hjoined, append_nil]

theorem Joins.of_joined_eq_zero {nopDraw' : Bool} (h : Joins nopDraw v w) (hjoined : v.joined = 0) :
    Joins nopDraw' v w where
  __ := h
  drawn := by
    rw [h.drawn, joinedDraws_of_zero hjoined, joinedDraws_of_zero hjoined]

theorem Joins.eq_of_joined_eq_zero (h : Joins nopDraw v w) (hjoined : v.joined = 0) :
    w = { v with drawn := w.drawn } ∧ w.drawnRanges = v.drawnRanges := by
  have hranges : w.drawArrays = v.drawArrays := by
    rw [h.ranges, joinedRanges, hjoined]
    rfl
  have hconnect : w.preventConnect = v.preventConnect := by
    rw [h.connect, hjoined]
    simp
  constructor
  · exact Vertices.ext h.primitiveMode hranges hconnect (h.joined.trans hjoined.symm) h.inlineElements
      h.inlineArray h.inlineBufferLength rfl
  · rw [h.drawn, joinedDraws_of_zero hjoined, append_nil]

variable {calls : List DrawCall}

theorem Joins.inlineArrayMethod (h : Joins nopDraw v w) (parameter : Word) :
    Simulates (fun v' w' => v'.joined = v.joined ∧ Joins nopDraw v' w')
      (v.inlineArrayMethod parameter) (w.inlineArrayMethod parameter) := by
  refine simulates_guard (by rw [h.inlineArray]; exact id) fun _ => simulates_some ⟨rfl, ?_⟩
  exact { h with inlineArray := by rw [h.inlineArray] }

theorem Joins.finishInlineBufferVertex (h : Joins nopDraw v w) :
    Simulates (fun v' w' => v'.joined = v.joined ∧ Joins nopDraw v' w')
      v.finishInlineBufferVertex w.finishInlineBufferVertex := by
  refine simulates_guard (by rw [h.inlineBufferLength]; exact id) fun _ => simulates_some ⟨rfl, ?_⟩
  exact { h with inlineBufferLength := by rw [h.inlineBufferLength] }

theorem Joins.resetInlineBuffers (hmode : w.primitiveMode = v.primitiveMode)
    (hprim : v.primitiveMode.toNat ≤ 0x0A) (hdrawn : w.drawnRanges = v.drawnRanges) :
    Joins nopDraw v.resetInlineBuffers w.resetInlineBuffers where
  primitiveMode := hmode
  inlineElements := rfl
  inlineArray := rfl
  inlineBufferLength := rfl
  joined := rfl
  primitive := hprim
  le := Nat.zero_le _
  elements h := absurd rfl h
  ranges := rfl
  connect := rfl
  drawn := by
    rw [joinedDraws_of_zero rfl, append_nil]
    exact hdrawn

theorem Joins.resetDrawArrays (h : Joins nopDraw v w) (hjoined : v.joined = 0) :
    Joins nopDraw v.resetDrawArrays w.resetDrawArrays where
  __ := h
  joined := rfl
  le := Nat.zero_le _
  elements h := absurd rfl h
  ranges := rfl
  connect := rfl
  drawn := by
    rw [joinedDraws_of_zero rfl, append_nil]
    exact (h.eq_of_joined_eq_zero hjoined).2

theorem Joins.append (h : Joins nopDraw v w) (hjoined : v.joined = 0) (indices : List Nat) :
    Joins nopDraw { v with inlineElements := v.inlineElements ++ indices }
      { w with inlineElements := w.inlineElements ++ indices } :=
  { h with
    inlineElements := by rw [h.inlineElements]
    elements := fun hne => absurd hjoined hne }

theorem Joins.pushRange (h : Joins nopDraw v w) (hjoined : v.joined = 0) (start count : Nat) :
    Simulates (fun v' w' => v'.joined = 0 ∧ Joins nopDraw v' w') (v.pushRange start count) (w.pushRange start count) :=
  simulates_guard (by rw [h.inlineElements]; exact id) fun _ => simulates_some ⟨hjoined, h.append hjoined _⟩

theorem Joins.expandDrawArrays (h : Joins nopDraw v w) (hjoined : v.joined = 0) :
    Simulates (fun v' w' => v'.joined = 0 ∧ Joins nopDraw v' w') v.expandDrawArrays
      w.expandDrawArrays := by
  obtain ⟨hw, hdrawn⟩ := h.eq_of_joined_eq_zero hjoined
  have hranges : w.drawArrays = v.drawArrays := by rw [hw]
  have hcalls : w.drawCall = v.drawCall := by rw [hw]; rfl
  unfold Vertices.expandDrawArrays
  rw [hranges]
  refine (simulates_refl _).bind fun last _ _ hlast => ?_
  subst hlast
  refine Simulates.bind (r := fun u u' => u.joined = 0 ∧ Joins nopDraw u u') ?_ fun u u' _ hu => ?_
  · refine simulates_ite Iff.rfl (fun _ => ?_) fun _ => simulates_some ⟨hjoined, h⟩
    rw [flushDraw_bound, flushDraw_bound, hcalls, Option.map_map, Option.map_map]
    refine (simulates_refl _).map fun calls _ hsame => ⟨rfl, ?_⟩
    subst hsame
    apply Joins.resetInlineBuffers
    · exact h.primitiveMode
    · exact h.primitive
    · rw [drawnRanges, drawnRanges, flatMap_append, flatMap_append]
      exact congrArg (· ++ _) hdrawn
  · exact (hu.2.pushRange hu.1 _ _).map fun a b hab => ⟨rfl, hab.2.resetDrawArrays hab.1⟩

theorem Joins.pushElements (h : Joins nopDraw v w) (hjoined : v.joined = 0) (indices : List Nat) :
    Simulates (fun v' w' => v'.joined = 0 ∧ Joins nopDraw v' w') (v.pushElements indices) (w.pushElements indices) := by
  obtain ⟨hw, -⟩ := h.eq_of_joined_eq_zero hjoined
  refine Simulates.bind (r := fun u u' => u.joined = 0 ∧ Joins nopDraw u u') ?_ fun u u' _ hu => ?_
  · exact simulates_ite (by rw [hw]) (fun _ => h.expandDrawArrays hjoined)
      fun _ => simulates_some ⟨hjoined, h⟩
  · exact simulates_guard (by rw [hu.2.inlineElements]; exact id) fun _ => simulates_some ⟨hu.1, hu.2.append hu.1 _⟩

def extend (prevent : Bool) (ranges : List (Nat × Nat)) (start count : Nat) : List (Nat × Nat) :=
  match prevent, ranges.getLast? with
  | false, some (lastStart, lastCount) =>
    if start = lastStart + lastCount then ranges.dropLast ++ [(lastStart, lastCount + count)]
    else ranges ++ [(start, count)]
  | _, _ => ranges ++ [(start, count)]

theorem addRange_eq (v : Vertices) (start count : Nat) : v.addRange start count = { v with
      drawArrays := extend v.preventConnect v.drawArrays start count
      preventConnect := false } := by
  unfold addRange extend
  cases v.preventConnect with
  | true => rfl
  | false =>
    cases v.drawArrays.getLast? with
    | none => rfl
    | some last =>
      dsimp only
      split <;> rfl

theorem extend_ne_nil (prevent : Bool) (ranges : List (Nat × Nat)) (start count : Nat) :
    extend prevent ranges start count ≠ [] := by
  unfold extend
  split
  · split <;> simp
  · simp

theorem extend_append {joined ranges : List (Nat × Nat)} {prevent : Bool} (start count : Nat) :
    extend (prevent || (!joined.isEmpty && ranges.isEmpty)) (joined ++ ranges) start count
      = joined ++ extend prevent ranges start count := by
  cases ranges with
  | nil =>
    cases joined with
    | nil => simp
    | cons r joined => simp [extend]
  | cons r ranges =>
    have hlast : (joined ++ r :: ranges).getLast? = (r :: ranges).getLast? := getLast?_append_cons joined r ranges
    have hdrop : (joined ++ r :: ranges).dropLast = joined ++ (r :: ranges).dropLast :=
      dropLast_append_of_ne_nil (cons_ne_nil r ranges)
    simp only [isEmpty_cons, Bool.and_false, Bool.or_false]
    unfold extend
    rw [hlast]
    split
    · split <;> simp
    · simp

theorem Joins.addRange (h : Joins nopDraw v w) (start count : Nat) :
    Joins nopDraw (v.addRange start count) (w.addRange start count) := by
  have hlength : v.joinedRanges.length = v.joined := length_take_of_le h.le
  have hempty : (v.joined != 0) = !v.joinedRanges.isEmpty := by
    rw [← hlength]
    cases v.joinedRanges <;> rfl
  have hextend : extend v.preventConnect v.drawArrays start count
      = v.joinedRanges ++ extend w.preventConnect w.drawArrays start count := by
    rw [← extend_append, ← hempty, ← h.connect, ← h.ranges]
  have hne := extend_ne_nil w.preventConnect w.drawArrays start count
  rw [addRange_eq, addRange_eq, hextend]
  have hsame : joinedRanges { v with
      drawArrays := v.joinedRanges ++ extend w.preventConnect w.drawArrays start count
      preventConnect := false } = v.joinedRanges := by
    rw [joinedRanges, ← hlength, take_left]
  exact { h with
    le := by rw [length_append, hlength]; exact Nat.le_add_right _ _
    ranges := by rw [hsame]
    connect := by simp [hne]
    drawn := by
      rw [joinedDraws, hsame]
      exact h.drawn }

theorem Joins.drawArraysMethod (h : Joins nopDraw v w) (parameter : Word) :
    Simulates (Joins nopDraw) (v.drawArraysMethod parameter) (w.drawArraysMethod parameter) := by
  refine simulates_ite (by rw [h.inlineElements]) (fun helements => ?_) fun _ => ?_
  · have hjoined : v.joined = 0 := by
      by_contra hne
      exact helements (h.elements hne)
    obtain ⟨hw, -⟩ := h.eq_of_joined_eq_zero hjoined
    refine simulates_ite (by rw [hw]) (fun _ => nofun) fun _ => ?_
    exact (h.pushRange hjoined _ _).imp fun _ _ => And.right
  · have hlength := congrArg length h.ranges
    rw [length_append] at hlength
    exact simulates_guard (by omega) fun _ => simulates_some (h.addRange _ _)

theorem Joins.drawnRanges_eq (h : Joins nopDraw v w)
    (hnone : nopDraw ∨ v.primitiveMode = primTypeInvalid) : w.drawnRanges = v.drawnRanges := by
  rw [h.drawn, joinedDraws, if_pos hnone, append_nil]

theorem drawCall_ranges (helements : v.inlineElements = []) (hbuffer : v.inlineBufferLength = 0)
    (harray : v.inlineArray = []) (h : v.drawCall = some calls) :
    calls.flatMap DrawCall.ranges = v.drawArrays.map fun r => .arrays v.primitiveMode [r] := by
  unfold drawCall at h
  split at h
  · rw [if_pos ⟨helements, hbuffer, harray⟩] at h
    cases h
    simp [DrawCall.ranges]
  · next hempty =>
    rw [if_neg (not_not.mpr helements), if_neg (not_not.mpr hbuffer), if_neg (not_not.mpr harray)] at h
    cases h
    rw [not_not.mp hempty]
    rfl

theorem drawCall_isSome (helements : v.inlineElements = []) (hbuffer : v.inlineBufferLength = 0)
    (harray : v.inlineArray = []) : ∃ calls, v.drawCall = some calls := by
  unfold drawCall
  by_cases hranges : v.drawArrays ≠ []
  · rw [if_pos hranges, if_pos ⟨helements, hbuffer, harray⟩]
    exact ⟨_, rfl⟩
  · rw [if_neg hranges, if_neg (not_not.mpr helements), if_neg (not_not.mpr hbuffer), if_neg (not_not.mpr harray)]
    exact ⟨_, rfl⟩

theorem flushDraw_drawnRanges (h : v.drawCall = some calls) :
    ∃ v', v.flushDraw = some v' ∧ v'.drawnRanges = v.drawnRanges ++ calls.flatMap DrawCall.ranges := by
  refine ⟨{ v with drawn := v.drawn ++ calls }, ?_, flatMap_append⟩
  rw [flushDraw_bound, h, map_some]

theorem Joins.flushDraw (h : Joins false v w) (hmode : v.primitiveMode ≠ primTypeInvalid) :
    Simulates (fun v' w' => w'.drawnRanges = v'.drawnRanges) v.flushDraw w.flushDraw := by
  intro v' hv
  obtain ⟨calls, hcalls, rfl⟩ := map_eq_some_iff.mp hv
  by_cases hjoined : v.joined = 0
  · obtain ⟨hw, hdrawn⟩ := h.eq_of_joined_eq_zero hjoined
    have hcalls' : w.drawCall = some calls := by
      rw [hw]
      exact hcalls
    obtain ⟨w', hflush, hranges⟩ := flushDraw_drawnRanges hcalls'
    refine ⟨w', hflush, ?_⟩
    dsimp only
    rw [hranges, hdrawn]
    exact flatMap_append.symm
  · have hranges : v.drawArrays ≠ [] := by
      intro hempty
      have hle := h.le
      rw [hempty] at hle
      exact hjoined (Nat.le_zero.mp hle)
    -- With ranges pending, `flush_draw` asserts that nothing else is.
    have hinline := hcalls
    rw [drawCall, if_pos hranges] at hinline
    obtain ⟨⟨helements, hbuffer, harray⟩, -⟩ := ite_none_right_eq_some.mp hinline
    have helements' := h.inlineElements.trans helements
    have hbuffer' := h.inlineBufferLength.trans hbuffer
    have harray' := h.inlineArray.trans harray
    obtain ⟨calls', hcalls'⟩ := drawCall_isSome helements' hbuffer' harray'
    obtain ⟨w', hflush, hdrawn⟩ := flushDraw_drawnRanges hcalls'
    refine ⟨w', hflush, ?_⟩
    have hdraws : v.joinedDraws false = v.joinedRanges.map fun r => .arrays v.primitiveMode [r] :=
      if_neg (by simpa using hmode)
    have hv' : drawnRanges { v with drawn := v.drawn ++ calls }
        = v.drawnRanges ++ calls.flatMap DrawCall.ranges := flatMap_append
    dsimp only
    rw [hdrawn, hv', drawCall_ranges helements' hbuffer' harray' hcalls',
      drawCall_ranges helements hbuffer harray hcalls, h.drawn, hdraws, h.primitiveMode,
      append_assoc, ← map_append, ← h.ranges]

theorem Joins.setBeginEnd {nop : Bool} (h : Joins nopDraw v w)
    (hnop : v.joined ≠ 0 → nop = nopDraw) (parameter : Word) :
    Simulates (Joins nopDraw) (v.setBeginEnd nop parameter) (w.setBeginEnd nop parameter) := by
  unfold Vertices.setBeginEnd
  rw [h.primitiveMode]
  refine simulates_ite Iff.rfl (fun _ => simulates_ite Iff.rfl (fun hmode => ?_) fun hmode => ?_)
    fun _ => simulates_ite Iff.rfl (fun _ => simulates_some h) fun hmode => simulates_guard id fun hprim => ?_
  · exact simulates_some
      (.resetInlineBuffers h.primitiveMode h.primitive (h.drawnRanges_eq (.inr hmode)))
  · refine Simulates.map (r := fun u u' => u'.drawnRanges = u.drawnRanges) ?_ fun u u' hdrawn =>
      .resetInlineBuffers (v := { u with primitiveMode := primTypeInvalid })
        (w := { u' with primitiveMode := primTypeInvalid }) rfl (Nat.zero_le _) hdrawn
    cases nop with
    | true =>
      refine simulates_some ?_
      by_cases hjoined : v.joined = 0
      · exact (h.eq_of_joined_eq_zero hjoined).2
      · exact h.drawnRanges_eq (.inl (hnop hjoined).symm)
    | false =>
      have hfalse : Joins false v w := by
        by_cases hjoined : v.joined = 0
        · exact h.of_joined_eq_zero hjoined
        · rw [hnop hjoined]
          exact h
      exact hfalse.flushDraw hmode
  · exact simulates_some
      (.resetInlineBuffers rfl hprim (h.drawnRanges_eq (.inr (not_not.mp hmode))))

theorem Joins.squash_of_drawn (h : Joins nopDraw v w) (hranges : v.drawArrays ≠ [])
    (helements : v.inlineElements = []) (hbuffer : v.inlineBufferLength = 0)
    (harray : v.inlineArray = []) {u : Vertices} (hmode : u.primitiveMode = v.primitiveMode)
    (hdrawn : u.drawnRanges = v.drawnRanges ++ v.squash.joinedDraws nopDraw) :
    Joins nopDraw v.squash u.resetInlineBuffers where
  primitiveMode := hmode
  inlineElements := helements.symm
  inlineArray := harray.symm
  inlineBufferLength := hbuffer.symm
  joined := rfl
  primitive := h.primitive
  le := Nat.le_refl _
  elements _ := helements
  ranges := by
    exact ((append_nil _).trans take_length).symm
  connect := by
    have hlength : v.drawArrays.length ≠ 0 := fun h0 => hranges (length_eq_zero_iff.mp h0)
    simp [Vertices.squash, hlength, Vertices.resetInlineBuffers, Vertices.resetDrawArrays]
  drawn := hdrawn

theorem Joins.squash (h : Joins nopDraw v w) (hranges : v.drawArrays ≠ [])
    (helements : v.inlineElements = []) (hbuffer : v.inlineBufferLength = 0)
    (harray : v.inlineArray = []) :
    ∃ w₁ w₂, w.setBeginEnd nopDraw 0 = some w₁ ∧ w₁.setBeginEnd nopDraw v.primitiveMode = some w₂ ∧
      Joins nopDraw v.squash w₂ := by
  by_cases hmode : v.primitiveMode = primTypeInvalid
  · -- Both words are ends without a begin.
    have hreset : ∀ u : Vertices, u.primitiveMode = primTypeInvalid →
        u.setBeginEnd nopDraw 0 = some u.resetInlineBuffers := by
      intro u hu
      rw [Vertices.setBeginEnd, if_pos rfl, if_pos hu]
    have hmode' := h.primitiveMode.trans hmode
    have hsecond := hreset w.resetInlineBuffers hmode'
    rw [show (0 : Word) = v.primitiveMode from hmode.symm] at hsecond
    refine ⟨_, _, hreset w hmode', hsecond, ?_⟩
    apply h.squash_of_drawn hranges helements hbuffer harray h.primitiveMode
    have hnone : v.squash.joinedDraws nopDraw = [] := if_pos (.inr hmode)
    rw [hnone, append_nil]
    exact h.drawnRanges_eq (.inr hmode)
  · obtain ⟨u, hu, hdrawn⟩ : ∃ u, (if nopDraw then some w else w.flushDraw) = some u ∧
        u.drawnRanges = v.drawnRanges ++ v.squash.joinedDraws nopDraw := by
      cases nopDraw with
      | true =>
        have hnone : v.squash.joinedDraws true = [] := if_pos (.inl rfl)
        refine ⟨w, rfl, ?_⟩
        rw [hnone, append_nil]
        exact h.drawnRanges_eq (.inl rfl)
      | false =>
        have helements' := h.inlineElements.trans helements
        have hbuffer' := h.inlineBufferLength.trans hbuffer
        have harray' := h.inlineArray.trans harray
        obtain ⟨calls, hcalls⟩ := drawCall_isSome helements' hbuffer' harray'
        obtain ⟨u, hflush, hdrawn⟩ := flushDraw_drawnRanges hcalls
        refine ⟨u, hflush, ?_⟩
        have hdraws : v.joinedDraws false
            = v.joinedRanges.map fun r => .arrays v.primitiveMode [r] :=
          if_neg (by simpa using hmode)
        have hall : v.squash.joinedDraws false
            = v.drawArrays.map fun r => .arrays v.primitiveMode [r] := by
          have hmode' : ¬(false ∨ v.squash.primitiveMode = primTypeInvalid) := by
            rintro (hfalse | hinvalid)
            · exact Bool.false_ne_true hfalse
            · exact hmode hinvalid
          rw [joinedDraws, if_neg hmode']
          exact congrArg (map _) take_length
        rw [hdrawn, drawCall_ranges helements' hbuffer' harray' hcalls, h.drawn, hdraws, hall,
          h.primitiveMode, append_assoc, ← map_append, ← h.ranges]
    refine ⟨{ u.resetInlineBuffers with primitiveMode := primTypeInvalid },
      Vertices.resetInlineBuffers { u with primitiveMode := v.primitiveMode }, ?_, ?_, ?_⟩
    · rw [Vertices.setBeginEnd, if_pos rfl, if_neg (by rw [h.primitiveMode]; exact hmode), hu]
      rfl
    · rw [Vertices.setBeginEnd, if_neg (show v.primitiveMode ≠ 0 from hmode), if_pos h.primitive]
      rfl
    · exact h.squash_of_drawn hranges helements hbuffer harray
        (u := { u with primitiveMode := v.primitiveMode }) rfl hdrawn

end Vertices

end XogMobile.Nv2a
