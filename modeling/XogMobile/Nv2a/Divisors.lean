import XogMobile.Nv2a.Capacity
import XogMobile.Lib.Align

/-!
# Divisors the guest programs

Four divisions of the NV2A have a divisor that is a register or follows from some: the two increments of
the flip counters divide by the modulo in `SURFACE`, the clock of PTIMER by the numerator, and a draw of
an inline array by the size of a vertex. After a reset all of them are zero, and the code does not look.
`divisors` records the divisor of each division. None of them is zero exactly when the guest has written
what is divided by before.
-/

namespace XogMobile.Nv2a

open Lib

/-- `size` and `count` of a vertex attribute. -/
structure ArrayFormat where
  (size count : Nat)
  deriving DecidableEq

/-- What the divisors come from, and those used so far. -/
structure Divisors where
  (surface numerator : Word)
  formats : Fin 16 → ArrayFormat
  vertices : Vertices
  divisors : List Nat

/-- What the guest does. `other` stands for the methods and the registers that leave all of this alone.
A draw does nothing unless a surface is `bound`. -/
inductive GuestEvent where
  | reset
  | pgraphWrite (addr : Nat) (val : Word)
  | ptimerWrite (addr : Nat) (val : Word)
  | ptimerRead (addr : Nat)
  | setFlipRead (parameter : Word)
  | setFlipWrite (parameter : Word)
  | setFlipModulo (parameter : Word)
  | flipIncrementWrite
  | setVertexDataArrayFormat (slot : Fin 16) (parameter : Word)
  | vertex (bound : Bool) (e : VertexEvent)
  | other

/-- `NV_PGRAPH_SURFACE_WRITE_3D`, `NV_PGRAPH_SURFACE_READ_3D` and `NV_PGRAPH_SURFACE_MODULO_3D`. -/
def surfaceWrite3d : Word := 0x00700000
def surfaceRead3d : Word := 0x07000000
def surfaceModulo3d : Word := 0x70000000

/-- `SET_VERTEX_DATA_ARRAY_FORMAT`: the size follows from the type. -/
def arrayFormat (parameter : Word) : Option ArrayFormat :=
  let type := (getMask parameter 0x0000000F).toNat
  let count := (getMask parameter 0x000000F0).toNat
  if type = 0 then if count = 4 then some ⟨1, count⟩ else none
  else if type = 4 then some ⟨1, count⟩
  else if type = 1 ∨ type = 5 then some ⟨2, count⟩
  else if type = 2 then some ⟨4, count⟩
  else if type = 6 then if count = 1 then some ⟨4, count⟩ else none
  else none

namespace ArrayFormat

def next (offset : Nat) (f : ArrayFormat) : Nat :=
  if f.count = 0 then offset else alignUp (alignUp offset f.size + f.size * f.count) f.size

end ArrayFormat

namespace Vertices

def drawsInlineArray (v : Vertices) : Bool :=
  v.drawArrays.isEmpty && v.inlineElements.isEmpty && v.inlineBufferLength == 0 &&
    !v.inlineArray.isEmpty

/-- What a method does to the vertices, with the surfaces as they are bound. -/
def guestStep (bound : Bool) (v : Vertices) : VertexEvent → Option Vertices
  | .arrayElement16 parameter => v.arrayElement16 parameter bound
  | .arrayElement32 parameter => v.arrayElement32 parameter bound
  | .setBeginEnd nopDraw parameter => v.setBeginEnd nopDraw parameter bound
  | e => Stored.vertexStep v e

def endsInlineArray (bound : Bool) (v : Vertices) : VertexEvent → Bool
  | .setBeginEnd nopDraw parameter =>
    bound && !nopDraw && parameter == 0 && v.primitiveMode != primTypeInvalid && v.drawsInlineArray
  | _ => false

end Vertices

namespace Divisors

def initial : Divisors where
  surface := 0
  numerator := 0
  formats _ := ⟨0, 0⟩
  vertices := .initial
  divisors := []

variable (s : Divisors)

def divide (ds : List Nat) : Divisors := { s with divisors := s.divisors ++ ds }

def modulo : Word := getMask s.surface surfaceModulo3d

def increment (field : Word) : Divisors :=
  { s with surface := setMask s.surface field ((getMask s.surface field + 1) % s.modulo) }.divide
    [s.modulo.toNat]

def vertexSize : Nat :=
  (List.finRange 16).foldl (fun offset slot => ArrayFormat.next offset (s.formats slot)) 0

def step : GuestEvent → Option Divisors
  | .reset => some { s with surface := 0 }
  | .pgraphWrite addr val =>
    if addr = 0x71C then
      if val &&& 0x00000002 ≠ 0 then some (s.increment surfaceRead3d) else some s
    else if addr = 0x710 then some { s with surface := val }
    else some s
  | .ptimerWrite addr val => if addr = 0x200 then some { s with numerator := val } else some s
  | .ptimerRead addr =>
    if addr = 0x400 ∨ addr = 0x410 then some (s.divide [1000000000, s.numerator.toNat]) else some s
  | .setFlipRead parameter =>
    some { s with surface := setMask s.surface surfaceRead3d parameter }
  | .setFlipWrite parameter =>
    some { s with surface := setMask s.surface surfaceWrite3d parameter }
  | .setFlipModulo parameter =>
    some { s with surface := setMask s.surface surfaceModulo3d parameter }
  | .flipIncrementWrite => some (s.increment surfaceWrite3d)
  | .setVertexDataArrayFormat slot parameter =>
    (arrayFormat parameter).map fun f => { s with formats := Function.update s.formats slot f }
  | .vertex bound e =>
    (s.vertices.guestStep bound e).map fun v =>
      { if s.vertices.endsInlineArray bound e then s.divide [s.vertexSize] else s with vertices := v }
  | .other => some s

end Divisors

namespace GuestEvent

def modulo : GuestEvent → Option Word
  | .reset => some 0
  | .pgraphWrite addr val => if addr = 0x710 then some (getMask val surfaceModulo3d) else none
  | .setFlipModulo parameter => some (parameter &&& 7)
  | _ => none

def numerator : GuestEvent → Option Word
  | .ptimerWrite addr val => if addr = 0x200 then some val else none
  | _ => none

def format (slot : Fin 16) : GuestEvent → Option ArrayFormat
  | .setVertexDataArrayFormat slot' parameter => if slot' = slot then arrayFormat parameter else none
  | _ => none

def last {α : Type} (f : GuestEvent → Option α) (es : List GuestEvent) : Option α :=
  es.reverse.findSome? f

/-- What the event divides by, if it does, has been written before and is not zero. -/
def Programmed (before : List GuestEvent) (v : Vertices) : GuestEvent → Prop
  | .pgraphWrite addr val =>
    addr = 0x71C → val &&& 0x00000002 ≠ 0 → ∃ m, last modulo before = some m ∧ m ≠ 0
  | .flipIncrementWrite => ∃ m, last modulo before = some m ∧ m ≠ 0
  | .ptimerRead addr =>
    addr = 0x400 ∨ addr = 0x410 → ∃ n, last numerator before = some n ∧ n ≠ 0
  | .vertex bound e =>
    v.endsInlineArray bound e = true →
      ∃ slot f, last (format slot) before = some f ∧ f.count ≠ 0
  | _ => True

end GuestEvent

variable {f : ArrayFormat}

theorem arrayFormat_size {parameter : Word} (h : arrayFormat parameter = some f) : 0 < f.size := by
  unfold arrayFormat at h
  dsimp only at h
  split at h
  · obtain ⟨-, hf⟩ := Option.ite_none_right_eq_some.mp h
    cases hf
    exact Nat.one_pos
  split at h
  · cases h
    exact Nat.one_pos
  split at h
  · cases h
    exact Nat.two_pos
  split at h
  · cases h
    exact Nat.succ_pos 3
  · obtain ⟨-, h⟩ := Option.ite_none_right_eq_some.mp h
    obtain ⟨-, hf⟩ := Option.ite_none_right_eq_some.mp h
    cases hf
    exact Nat.succ_pos 3

theorem ArrayFormat.next_eq_zero_iff (hsize : f.count ≠ 0 → 0 < f.size) (offset : Nat) :
    next offset f = 0 ↔ offset = 0 ∧ f.count = 0 := by
  unfold next
  split
  · next hcount => exact (and_iff_left hcount).symm
  · next hcount =>
    have hpos := hsize hcount
    have hround := le_alignUp (n := alignUp offset f.size + f.size * f.count) hpos
    have hmul : 0 < f.size * f.count := Nat.mul_pos hpos (Nat.pos_of_ne_zero hcount)
    exact iff_of_false (by omega) (fun h => hcount h.2)

theorem foldl_next_eq_zero_iff {formats : Fin 16 → ArrayFormat}
    (hsize : ∀ slot, (formats slot).count ≠ 0 → 0 < (formats slot).size) (slots : List (Fin 16))
    (offset : Nat) :
    slots.foldl (fun offset slot => ArrayFormat.next offset (formats slot)) offset = 0 ↔
      offset = 0 ∧ ∀ slot ∈ slots, (formats slot).count = 0 := by
  induction slots generalizing offset with
  | nil => simp
  | cons slot slots ih =>
    rw [List.foldl_cons, ih, ArrayFormat.next_eq_zero_iff (hsize slot), List.forall_mem_cons, and_assoc]

namespace Divisors

theorem vertexSize_ne_zero_iff {s : Divisors} (hsize : ∀ slot, (s.formats slot).count ≠ 0 → 0 < (s.formats slot).size) :
    s.vertexSize ≠ 0 ↔ ∃ slot, (s.formats slot).count ≠ 0 := by
  rw [vertexSize, ne_eq, foldl_next_eq_zero_iff hsize]
  simp

open GuestEvent

/-- The fields hold what the guest wrote last. -/
structure Follows (s : Divisors) (before : List GuestEvent) : Prop where
  modulo : s.modulo = (last GuestEvent.modulo before).getD 0
  numerator : s.numerator = (last GuestEvent.numerator before).getD 0
  formats : ∀ slot, s.formats slot = (last (format slot) before).getD ⟨0, 0⟩
  size : ∀ slot, (s.formats slot).count ≠ 0 → 0 < (s.formats slot).size

theorem last_append {α : Type} (f : GuestEvent → Option α) (es : List GuestEvent) (e : GuestEvent) :
    last f (es ++ [e]) = (f e).or (last f es) := by
  rw [last, List.reverse_append, List.reverse_singleton, List.singleton_append, List.findSome?_cons]
  cases f e <;> rfl

theorem getD_toNat_ne_zero_iff (o : Option Word) : (o.getD 0).toNat ≠ 0 ↔ ∃ m, o = some m ∧ m ≠ 0 := by
  cases o with
  | none => simp
  | some m =>
    rw [Option.getD_some]
    constructor
    · intro hne
      exact ⟨m, rfl, fun hm => hne (hm ▸ rfl)⟩
    · rintro ⟨m', hsame, hm⟩ hzero
      cases hsame
      exact hm (BitVec.eq_of_toNat_eq hzero)

variable {s t : Divisors} {before : List GuestEvent} {e : GuestEvent}

theorem surfaceModulo3d_width : surfaceModulo3d >>> surfaceModulo3d.ctz.toNat = 7 := by
  decide +kernel

theorem Follows.next (h : Follows s before) (hm : t.modulo = e.modulo.getD s.modulo)
    (hn : t.numerator = e.numerator.getD s.numerator)
    (hf : ∀ slot, t.formats slot = (e.format slot).getD (s.formats slot))
    (hsize : ∀ slot f, e.format slot = some f → 0 < f.size) : Follows t (before ++ [e]) := by
  refine ⟨?_, ?_, ?_, ?_⟩
  · rw [last_append, Option.getD_or, hm, h.modulo]
  · rw [last_append, Option.getD_or, hn, h.numerator]
  · intro slot
    rw [last_append, Option.getD_or, hf, h.formats]
  · intro slot
    rw [hf]
    cases hformat : e.format slot with
    | none => exact h.size slot
    | some f => exact fun _ => hsize slot f hformat

theorem modulo_setMask {field : Word} (hfield : field &&& surfaceModulo3d = 0) (v val : Word) :
    getMask (setMask v field val) surfaceModulo3d = getMask v surfaceModulo3d :=
  getMask_setMask_of_disjoint v val hfield

theorem getMask_zero (mask : Word) : getMask 0#32 mask = 0#32 := by
  rw [getMask, BitVec.zero_and, BitVec.zero_ushiftRight]

theorem step_follows (h : Follows s before) (hstep : s.step e = some t) : Follows t (before ++ [e]) := by
  cases e with
  | reset =>
    cases hstep
    exact h.next (getMask_zero _) rfl (fun _ => rfl) nofun
  | pgraphWrite addr val =>
    rw [step] at hstep
    split at hstep
    · next hincrement =>
      have hm : (GuestEvent.pgraphWrite addr val).modulo = none := if_neg (by omega)
      split at hstep <;> cases hstep
      · exact h.next (hm ▸ modulo_setMask (by decide) _ _) rfl (fun _ => rfl) nofun
      · exact h.next (hm ▸ rfl) rfl (fun _ => rfl) nofun
    split at hstep <;> next hsurface =>
      cases hstep
      refine h.next ?_ rfl (fun _ => rfl) nofun
      simp only [GuestEvent.modulo, hsurface]
      rfl
  | ptimerWrite addr val =>
    rw [step] at hstep
    split at hstep <;> next hnumerator =>
      cases hstep
      refine h.next rfl ?_ (fun _ => rfl) nofun
      simp only [GuestEvent.numerator, hnumerator]
      rfl
  | ptimerRead addr =>
    rw [step] at hstep
    split at hstep <;> cases hstep <;> exact h.next rfl rfl (fun _ => rfl) nofun
  | setFlipRead | setFlipWrite | flipIncrementWrite =>
    cases hstep
    exact h.next (modulo_setMask (by decide) _ _) rfl (fun _ => rfl) nofun
  | setFlipModulo parameter =>
    cases hstep
    have hmodulo := getMask_setMask s.surface surfaceModulo3d parameter
    rw [surfaceModulo3d_width] at hmodulo
    exact h.next hmodulo rfl (fun _ => rfl) nofun
  | setVertexDataArrayFormat slot parameter =>
    rw [step] at hstep
    obtain ⟨f, hformat, rfl⟩ := Option.map_eq_some_iff.mp hstep
    refine h.next rfl rfl ?_ ?_
    · intro slot'
      dsimp only [format]
      by_cases hslot : slot = slot'
      · rw [if_pos hslot, hformat, ← hslot, Function.update_self]
        rfl
      · rw [if_neg hslot, Function.update_of_ne (Ne.symm hslot)]
        rfl
    · intro slot' f' hf'
      obtain ⟨-, hf'⟩ := Option.ite_none_right_eq_some.mp hf'
      exact arrayFormat_size hf'
  | vertex bound e =>
    obtain ⟨v, -, rfl⟩ := Option.map_eq_some_iff.mp hstep
    split <;> exact h.next rfl rfl (fun _ => rfl) nofun
  | other =>
    cases hstep
    exact h.next rfl rfl (fun _ => rfl) nofun

theorem step_divisors (h : Follows s before) (hstep : s.step e = some t) :
    ∃ ds, t.divisors = s.divisors ++ ds ∧ ((∀ d ∈ ds, d ≠ 0) ↔ Programmed before s.vertices e) := by
  have hsame (ht : t.divisors = s.divisors) (hp : Programmed before s.vertices e) :
      ∃ ds, t.divisors = s.divisors ++ ds ∧ ((∀ d ∈ ds, d ≠ 0) ↔ Programmed before s.vertices e) :=
    ⟨[], by rw [ht, List.append_nil], iff_of_true (by simp) hp⟩
  have hmodulo : (∀ d ∈ [s.modulo.toNat], d ≠ 0) ↔ ∃ m, last GuestEvent.modulo before = some m ∧ m ≠ 0 := by
    rw [List.forall_mem_singleton, h.modulo, getD_toNat_ne_zero_iff]
  cases e with rw [step] at hstep
  | pgraphWrite addr val =>
    split at hstep
    · next haddr =>
      split at hstep
      · next hval =>
        cases hstep
        refine ⟨_, rfl, hmodulo.trans ?_⟩
        exact ⟨fun hm _ _ => hm, fun hm => hm haddr hval⟩
      · next hval =>
        cases hstep
        exact hsame rfl fun _ hv => absurd hv hval
    · next haddr => split at hstep <;> cases hstep <;> exact hsame rfl fun ha => absurd ha haddr
  | flipIncrementWrite =>
    cases hstep
    exact ⟨_, rfl, hmodulo⟩
  | ptimerRead addr =>
    split at hstep
    · next haddr =>
      cases hstep
      refine ⟨_, rfl, ?_⟩
      rw [List.forall_mem_cons, List.forall_mem_singleton, h.numerator, getD_toNat_ne_zero_iff]
      exact ⟨fun hn _ => hn.2, fun hn => ⟨by decide, hn haddr⟩⟩
    · next haddr =>
      cases hstep
      exact hsame rfl fun ha => absurd ha haddr
  | vertex bound e =>
    obtain ⟨v, -, rfl⟩ := Option.map_eq_some_iff.mp hstep
    by_cases hdraws : s.vertices.endsInlineArray bound e = true
    · refine ⟨[s.vertexSize], by rw [if_pos hdraws]; rfl, ?_⟩
      rw [List.forall_mem_singleton, vertexSize_ne_zero_iff h.size]
      have hcounts : (∃ slot, (s.formats slot).count ≠ 0) ↔
          ∃ slot f, last (format slot) before = some f ∧ f.count ≠ 0 := by
        refine exists_congr fun slot => ?_
        rw [h.formats slot]
        cases last (format slot) before <;> simp
      exact ⟨fun hn _ => hcounts.mp hn, fun hn => hcounts.mpr (hn hdraws)⟩
    · exact hsame (by rw [if_neg hdraws]) fun hd => absurd hd hdraws
  | ptimerWrite addr val => split at hstep <;> cases hstep <;> exact hsame rfl trivial
  | setVertexDataArrayFormat slot parameter =>
    obtain ⟨f, -, rfl⟩ := Option.map_eq_some_iff.mp hstep
    exact hsame rfl trivial
  | reset | setFlipRead | setFlipWrite | setFlipModulo | other =>
    cases hstep
    exact hsame rfl trivial

theorem run_divisors {es : List GuestEvent} (h : Follows s before) (hrun : run step s es = some t) :
    (∀ d ∈ t.divisors, d ≠ 0) ↔ (∀ d ∈ s.divisors, d ≠ 0) ∧
      ∀ first e rest m, es = first ++ e :: rest → run step s first = some m →
        Programmed (before ++ first) m.vertices e := by
  induction es generalizing s before with
  | nil =>
    cases hrun
    refine ⟨fun hd => ⟨hd, ?_⟩, And.left⟩
    intro first e rest m hes
    exact absurd hes.symm (by simp)
  | cons e es ih =>
    obtain ⟨m, hm, hrest⟩ := run_cons_eq_some.mp hrun
    obtain ⟨ds, hds, hprogrammed⟩ := step_divisors h hm
    rw [ih (step_follows h hm) hrest, hds, List.forall_mem_append, hprogrammed]
    constructor
    · rintro ⟨⟨hold, hfirst⟩, hlater⟩
      refine ⟨hold, ?_⟩
      rintro (_ | ⟨e', first⟩) f rest u hes hu
      · cases hes
        cases hu
        rwa [List.append_nil]
      · cases hes
        obtain ⟨m', hm', hu⟩ := run_cons_eq_some.mp hu
        cases hm.symm.trans hm'
        have h := hlater first f rest u rfl hu
        rwa [List.append_assoc] at h
    · rintro ⟨hold, hall⟩
      refine ⟨⟨hold, ?_⟩, ?_⟩
      · have h := hall [] e es s rfl rfl
        rwa [List.append_nil] at h
      · intro first f rest u hes hu
        have h := hall (e :: first) f rest u (congrArg (e :: ·) hes)
          (run_cons_eq_some.mpr ⟨m, hm, hu⟩)
        rwa [List.append_assoc]

theorem initial_follows : Follows initial [] := ⟨getMask_zero _, rfl, fun _ => rfl, fun _ hcount => absurd rfl hcount⟩

/-- Whatever the guest does after power on, no divisor is zero exactly when it has written what is
divided by before: a modulo other than zero before an increment, a numerator other than zero before the
clock is read, and the format of an attribute with components before an inline array is drawn. -/
theorem divisors_ne_zero_iff {es : List GuestEvent} (hrun : run step initial es = some t) :
    (∀ d ∈ t.divisors, d ≠ 0) ↔
      ∀ first e rest s, es = first ++ e :: rest → run step initial first = some s →
        Programmed first s.vertices e := by
  rw [run_divisors initial_follows hrun]
  exact and_iff_right (by rintro d ⟨⟩)

theorem divisors_ne_zero_programmed :
    let es : List GuestEvent := [.setFlipModulo 2, .flipIncrementWrite, .pgraphWrite 0x71C 2,
      .ptimerWrite 0x200 4, .ptimerRead 0x400, .setVertexDataArrayFormat 0 0x00000C32,
      .vertex true (.setBeginEnd false 5), .vertex true (.inlineArray 7),
      .vertex true (.setBeginEnd false 0)]
    ∃ t, run step initial es = some t ∧ t.divisors = [2, 2, 1000000000, 4, 12] ∧
      ((∀ d ∈ t.divisors, d ≠ 0) ↔
        ∀ first e rest s, es = first ++ e :: rest → run step initial first = some s →
          Programmed first s.vertices e) := by
  intro es
  refine exists_some_and (by decide +kernel) fun t hrun _ => ?_
  exact divisors_ne_zero_iff hrun

/-- Right after power on each of the divisions has the divisor zero. -/
theorem divisors_zero :
    (run step initial [.flipIncrementWrite]).map (·.divisors) = some [0] ∧
    (run step initial [.pgraphWrite 0x71C 2]).map (·.divisors) = some [0] ∧
    (run step initial [.ptimerRead 0x400]).map (·.divisors) = some [1000000000, 0] ∧
    (run step initial [.vertex true (.setBeginEnd false 5), .vertex true (.inlineArray 7),
      .vertex true (.setBeginEnd false 0)]).map (·.divisors) = some [0] := by
  decide +kernel

end Divisors

end XogMobile.Nv2a
