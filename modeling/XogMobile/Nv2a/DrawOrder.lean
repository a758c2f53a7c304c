import XogMobile.Nv2a.Vertices

/-!
# Indices are drawn in the order they were submitted

A block is a `SET_BEGIN_END` begin, `DRAW_ARRAYS` and `ARRAY_ELEMENT` methods, and the end. A
`DRAW_ARRAYS` may be `joined` with the block after it: the end and the begin between them are then
squashed. `pending` is what the two representations hold together, and every method appends what it
submits to it, as long as no `ARRAY_ELEMENT` arrives while more than one range is pending: there the
last range is drawn and then kept as elements.
-/

namespace XogMobile.Nv2a

open Lib List Option

def rangeIndices (ranges : List (Nat × Nat)) : List Nat :=
  ranges.flatMap fun r => List.range' r.1 r.2

def DrawCall.indices : DrawCall → List Nat
  | .arrays _ ranges => rangeIndices ranges
  | .elements _ indices => indices
  | .buffer _ _ => []
  | .array _ _ => []

/-- `bound` says whether a surface is bound when the method flushes. -/
inductive VertexMethod where
  | drawArrays (parameter : Word) (joined : Bool)
  | arrayElement16 (parameter : Word) (bound : Bool)
  | arrayElement32 (parameter : Word) (bound : Bool)

inductive BlockEvent where
  | begin (prim : Word)
  | method (m : VertexMethod)
  | finish (nopDraw bound : Bool)

def VertexMethod.submitted : VertexMethod → List Nat
  | .drawArrays parameter _ =>
    List.range' (Vertices.drawArraysStart parameter) (Vertices.drawArraysCount parameter)
  | .arrayElement16 parameter _ => [(parameter &&& 0xFFFF).toNat, (parameter >>> 16).toNat]
  | .arrayElement32 parameter _ => [parameter.toNat]

namespace Vertices

variable (v : Vertices)

/-- A method and, where it is joined with the next block, the squash after it. -/
def method : VertexMethod → Option Vertices
  | .drawArrays parameter joined =>
    (v.drawArraysMethod parameter).bind fun v =>
      if joined then
        if v.CanSquash then some v.squash else none
      else some v
  | .arrayElement16 parameter bound => v.arrayElement16 parameter bound
  | .arrayElement32 parameter bound => v.arrayElement32 parameter bound

def blockStep : BlockEvent → Option Vertices
  | .begin prim =>
    if prim ≠ 0 ∧ v.primitiveMode = primTypeInvalid then v.setBeginEnd false prim else none
  | .method m => v.method m
  | .finish nopDraw bound => v.setBeginEnd nopDraw 0 bound

def pending : List Nat := rangeIndices v.drawArrays ++ v.inlineElements

def drawnIndices : List Nat := v.drawn.flatMap DrawCall.indices

/-- Inside a block, with indices or ranges pending but not both. -/
structure Open (v : Vertices) : Prop where
  mode : v.primitiveMode ≠ primTypeInvalid
  one : v.drawArrays = [] ∨ v.inlineElements = []
  inlineArray : v.inlineArray = []
  inlineBuffer : v.inlineBufferLength = 0

/-- No `ARRAY_ELEMENT` method arrives while more than one range is pending. -/
def ElementsOnOneRange : BlockEvent → Prop
  | .method (.arrayElement16 _ _) => v.drawArrays.length ≤ 1
  | .method (.arrayElement32 _ _) => v.drawArrays.length ≤ 1
  | _ => True

instance : ∀ e, Decidable (v.ElementsOnOneRange e)
  | .begin _ => isTrue trivial
  | .finish _ _ => isTrue trivial
  | .method (.drawArrays _ _) => isTrue trivial
  | .method (.arrayElement16 _ _) => inferInstanceAs (Decidable (_ ≤ _))
  | .method (.arrayElement32 _ _) => inferInstanceAs (Decidable (_ ≤ _))

end Vertices

/-- `nopDraw` and `bound` are as the end of the block finds them. -/
structure Block where
  prim : Word
  methods : List VertexMethod
  (nopDraw bound : Bool)

def Block.events (b : Block) : List BlockEvent :=
  .begin b.prim :: b.methods.map .method ++ [.finish b.nopDraw b.bound]

def Block.shown (b : Block) : List Nat :=
  if b.nopDraw || !b.bound then [] else b.methods.flatMap VertexMethod.submitted

theorem rangeIndices_append (r s : List (Nat × Nat)) :
    rangeIndices (r ++ s) = rangeIndices r ++ rangeIndices s := flatMap_append

theorem rangeIndices_singleton (start count : Nat) :
    rangeIndices [(start, count)] = List.range' start count := flatMap_singleton _ _

namespace Vertices

variable {v w : Vertices}

theorem addRange_indices (v : Vertices) (start count : Nat) : ∃ ranges prevent, v.addRange start count
        = { v with drawArrays := ranges, preventConnect := prevent } ∧
      rangeIndices ranges = rangeIndices v.drawArrays ++ range' start count := by
  have hpush : rangeIndices (v.drawArrays ++ [(start, count)])
      = rangeIndices v.drawArrays ++ range' start count := by
    rw [rangeIndices_append, rangeIndices_singleton]
  unfold addRange
  split
  · next lastStart lastCount _ hlast =>
    split
    · next hconnect =>
      refine ⟨_, _, rfl, ?_⟩
      rw [hconnect, rangeIndices_append, rangeIndices_singleton, ← range'_append_1, ← append_assoc]
      congr 1
      rw [← rangeIndices_singleton, ← rangeIndices_append, dropLast_append_getLast? _ hlast]
    · exact ⟨_, _, rfl, hpush⟩
  · exact ⟨_, _, rfl, hpush⟩

/-- `w` has the indices pending behind those of `v`. -/
structure Appends (v w : Vertices) (indices : List Nat) : Prop where
  isOpen : w.Open
  pending : w.pending = v.pending ++ indices
  drawn : w.drawn = v.drawn

theorem Appends.trans {u : Vertices} {is js : List Nat} (h : Appends v w is)
    (h' : Appends w u js) : Appends v u (is ++ js) := by
  refine ⟨h'.isOpen, ?_, h'.drawn.trans h.drawn⟩
  rw [h'.pending, h.pending, append_assoc]

theorem pushRange_appends {start count : Nat} (hopen : v.Open) (hranges : v.drawArrays = [])
    (h : v.pushRange start count = some w) : Appends v w (List.range' start count) := by
  obtain ⟨-, ⟨⟩⟩ := ite_none_right_eq_some.mp h
  refine ⟨{ hopen with one := .inl hranges }, ?_, rfl⟩
  exact (append_assoc _ _ _).symm

theorem drawArraysMethod_appends {parameter : Word} (hopen : v.Open) (h : v.drawArraysMethod parameter = some w) :
    Appends v w (VertexMethod.drawArrays parameter false).submitted := by
  unfold drawArraysMethod at h
  split at h
  · next helements =>
    obtain ⟨-, h⟩ := ite_none_left_eq_some.mp h
    exact pushRange_appends hopen (hopen.one.resolve_right helements) h
  · next helements =>
    obtain ⟨-, h⟩ := ite_none_right_eq_some.mp h
    obtain ⟨ranges, prevent, hadd, hindices⟩ := v.addRange_indices (drawArraysStart parameter)
      (drawArraysCount parameter)
    have hnone : v.inlineElements = [] := not_not.mp helements
    cases hadd.symm.trans (some.inj h)
    refine ⟨{ hopen with one := .inr hnone }, ?_, rfl⟩
    simp only [pending, hindices, hnone, append_nil, VertexMethod.submitted]

theorem expandDrawArrays_appends {bound : Bool} (hopen : v.Open) (hone : v.drawArrays.length ≤ 1)
    (h : v.expandDrawArrays bound = some w) : Appends v w [] ∧ w.drawArrays = [] := by
  obtain ⟨last, hlast, h⟩ := bind_eq_some_iff.mp h
  have hsingle : v.drawArrays = [last] := by
    obtain ⟨r, hr⟩ : ∃ r, v.drawArrays = [r] := by
      apply length_eq_one_iff.mp
      have hne := length_pos_of_mem (mem_of_getLast? hlast)
      omega
    rw [hr] at hlast ⊢
    exact congrArg (fun r => [r]) (some.inj hlast)
  have hnone : v.inlineElements = [] := hopen.one.resolve_left (by rw [hsingle]; exact nofun)
  rw [if_neg (by omega)] at h
  obtain ⟨u, hpush, rfl⟩ := map_eq_some_iff.mp h
  obtain ⟨-, ⟨⟩⟩ := ite_none_right_eq_some.mp hpush
  refine ⟨⟨{ hopen with one := .inl rfl }, ?_, rfl⟩, rfl⟩
  simp [pending, resetDrawArrays, hsingle, hnone, rangeIndices]

theorem pushElements_appends {indices : List Nat} {bound : Bool} (hopen : v.Open)
    (hone : v.drawArrays.length ≤ 1) (h : v.pushElements indices bound = some w) :
    Appends v w indices := by
  obtain ⟨u, hexpand, h⟩ := bind_eq_some_iff.mp h
  have hu : Appends v u [] ∧ u.drawArrays = [] := by
    split at hexpand
    · exact expandDrawArrays_appends hopen hone hexpand
    · next hempty =>
      cases hexpand
      exact ⟨⟨hopen, (append_nil _).symm, rfl⟩, not_not.mp hempty⟩
  obtain ⟨-, ⟨⟩⟩ := ite_none_right_eq_some.mp h
  refine hu.1.trans ⟨{ hu.1.isOpen with one := .inl hu.2 }, ?_, rfl⟩
  exact (append_assoc _ _ _).symm

theorem method_appends {m : VertexMethod} (hopen : v.Open)
    (hok : v.ElementsOnOneRange (.method m)) (h : v.method m = some w) :
    Appends v w m.submitted := by
  cases m with
  | drawArrays parameter joined =>
    obtain ⟨u, hdraw, h⟩ := bind_eq_some_iff.mp h
    have hu := drawArraysMethod_appends hopen hdraw
    cases joined with
    | false =>
      cases h
      exact hu
    | true =>
      -- The squash changes `preventConnect` alone.
      obtain ⟨-, h⟩ := ite_none_right_eq_some.mp h
      cases h
      exact ⟨{ hu.isOpen with }, hu.pending, hu.drawn⟩
  | arrayElement16 | arrayElement32 => exact pushElements_appends hopen hok h

theorem run_methods_appends {ms : List VertexMethod} (hopen : v.Open)
    (hmeets : Meets blockStep ElementsOnOneRange v (ms.map .method))
    (hrun : run blockStep v (ms.map .method) = some w) :
    Appends v w (ms.flatMap VertexMethod.submitted) := by
  induction ms generalizing v with
  | nil =>
    cases hrun
    exact ⟨hopen, (append_nil _).symm, rfl⟩
  | cons m ms ih =>
    obtain ⟨u, hu, hrest⟩ := run_cons_eq_some.mp hrun
    have hfirst := method_appends hopen hmeets.1 hu
    exact hfirst.trans (ih hfirst.isOpen (hmeets.2 u hu) hrest)

theorem begin_open {prim : Word} (h : v.blockStep (.begin prim) = some w) :
    w.Open ∧ w.pending = [] ∧ w.drawn = v.drawn := by
  obtain ⟨⟨hprim, hmode⟩, h⟩ := ite_none_right_eq_some.mp h
  rw [setBeginEnd, if_neg hprim, if_neg (not_not.mpr hmode)] at h
  obtain ⟨-, ⟨⟩⟩ := ite_none_right_eq_some.mp h
  exact ⟨⟨hprim, .inl rfl, rfl, rfl⟩, rfl, rfl⟩

theorem drawCall_indices {calls : List DrawCall} (hopen : v.Open) (h : v.drawCall = some calls) :
    calls.flatMap DrawCall.indices = v.pending := by
  unfold drawCall at h
  split at h
  · next hranges =>
    have helements := hopen.one.resolve_left hranges
    obtain ⟨-, ⟨⟩⟩ := ite_none_right_eq_some.mp h
    simp [pending, helements, DrawCall.indices]
  · next hranges =>
    rw [not_not] at hranges
    split at h
    · obtain ⟨-, ⟨⟩⟩ := ite_none_right_eq_some.mp h
      simp [pending, hranges, rangeIndices, DrawCall.indices]
    · next helements =>
      rw [if_neg (not_not.mpr hopen.inlineBuffer), if_neg (not_not.mpr hopen.inlineArray)] at h
      cases h
      simp [pending, hranges, not_not.mp helements, rangeIndices]

theorem flushDraw_drawnIndices (hopen : v.Open) (h : v.flushDraw = some w) :
    w.drawnIndices = v.drawnIndices ++ v.pending := by
  obtain ⟨calls, hcalls, rfl⟩ := map_eq_some_iff.mp h
  rw [← drawCall_indices hopen hcalls]
  exact flatMap_append

theorem finish_drawnIndices {nopDraw bound : Bool} (hopen : v.Open)
    (h : v.blockStep (.finish nopDraw bound) = some w) :
    w.primitiveMode = primTypeInvalid ∧
      w.drawnIndices = v.drawnIndices ++ if nopDraw || !bound then [] else v.pending := by
  rw [blockStep, setBeginEnd, if_neg hopen.mode] at h
  obtain ⟨u, hu, rfl⟩ := map_eq_some_iff.mp h
  refine ⟨rfl, ?_⟩
  cases nopDraw with
  | true =>
    cases hu
    exact (append_nil _).symm
  | false =>
    cases bound with
    | true =>
      have hflush := flushDraw_drawnIndices hopen hu
      exact hflush
    | false =>
      cases hu
      exact (append_nil _).symm

theorem run_block_drawnIndices {b : Block} (hmeets : Meets blockStep ElementsOnOneRange v b.events)
    (hrun : run blockStep v b.events = some w) :
    w.primitiveMode = primTypeInvalid ∧ w.drawnIndices = v.drawnIndices ++ b.shown := by
  obtain ⟨hmethods, -⟩ := meets_append.mp hmeets
  obtain ⟨u, hu, hlast⟩ := run_append_eq_some.mp hrun
  obtain ⟨first, hfirst, hu⟩ := run_cons_eq_some.mp hu
  obtain ⟨last, hfinish, ⟨⟩⟩ := run_cons_eq_some.mp hlast
  obtain ⟨hopen, hempty, hdrawn⟩ := begin_open hfirst
  have happends := run_methods_appends hopen (hmethods.2 first hfirst) hu
  obtain ⟨hmode, hindices⟩ := finish_drawnIndices happends.isOpen hfinish
  refine ⟨hmode, ?_⟩
  rw [hindices, happends.pending, hempty, nil_append, Block.shown, drawnIndices, drawnIndices, happends.drawn, hdrawn]

/-- Up to the last end, exactly the submitted indices of the blocks that draw at all are drawn, in
the order of submission. A block whose draw would write nothing does not, nor one that ends while no
surface is bound. -/
theorem drawn_eq_submitted {blocks : List Block} {v t : Vertices}
    (hmeets : Meets blockStep ElementsOnOneRange v (blocks.flatMap Block.events))
    (hrun : run blockStep v (blocks.flatMap Block.events) = some t) :
    t.drawnIndices = v.drawnIndices ++ blocks.flatMap Block.shown := by
  induction blocks generalizing v with
  | nil =>
    cases hrun
    exact (append_nil _).symm
  | cons b blocks ih =>
    obtain ⟨hfirst, hlater⟩ := meets_append.mp hmeets
    obtain ⟨u, hu, hrest⟩ := run_append_eq_some.mp hrun
    rw [ih (hlater u hu) hrest, (run_block_drawnIndices hfirst hu).2, flatMap_cons,
      append_assoc]

def joinedBlocks : List Block := [
  ⟨5, [.drawArrays 0x02000000 true, .drawArrays 0x01000003 false], false, true⟩,
  ⟨5, [.drawArrays 0x00000007 false], false, false⟩,
  ⟨5, [.drawArrays 0x0000000A false, .arrayElement16 0x00140005 true], false, true⟩]

theorem drawn_eq_submitted_joined :
    ∃ t, run blockStep initial (joinedBlocks.flatMap Block.events) = some t ∧
      t.drawnIndices = [0, 1, 2, 3, 4, 10, 5, 20] := by
  have hrun : run blockStep initial (joinedBlocks.flatMap Block.events) = some { initial with
      drawn := [.arrays 5 [(0, 3), (3, 2)], .elements 5 [10, 5, 20]] } := by decide +kernel
  exact ⟨_, hrun, (drawn_eq_submitted (by decide +kernel) hrun).trans (by decide +kernel)⟩

/-- The end of a nop draw drops what was submitted, and so does one without a surface. An `ARRAY_ELEMENT`
after two ranges draws the second one twice. -/
theorem drawn_ne_submitted :
    (run blockStep initial (Block.events ⟨5, [.drawArrays 0x02000000 false], true, true⟩)).map
        drawnIndices = some [] ∧
    (run blockStep initial (Block.events ⟨5, [.drawArrays 0x02000000 false], false, false⟩)).map
        drawnIndices = some [] ∧
    (run blockStep initial (Block.events ⟨5, [.drawArrays 0x00000000 false,
        .drawArrays 0x0000000A false, .arrayElement32 20 true], false, true⟩)).map
        drawnIndices = some [0, 10, 10, 20] := by
  decide +kernel

end Vertices

end XogMobile.Nv2a
