import XogMobile.Nv2a.Pfifo

/-!
# Which words of the push buffer are read

A pass of the pusher's loop checks one offset against the limit of the DMA object: that of the word it
reads itself. A batched handler reads on, up to the number of words it was told, and the squash looks
at up to five words behind a `DRAW_ARRAYS`, until one does not match. What they were told is bounded by
`DMA_PUT`, as a difference that wraps when `DMA_PUT` is behind `DMA_GET`, and by nothing else.
-/

namespace XogMobile.Nv2a

open Lib List Nat

variable {ρ : Type}

/-- The words behind a `DRAW_ARRAYS` at `ptr` that the squash reads: it stops at the first mismatch. -/
def lookaheadReads (G : Gpu ρ) (ptr primitiveMode : Word) : Nat :=
  if ¬LookaheadMethod (G.mem (ptr + 4)) setBeginEnd then 1
  else if G.mem (ptr + 8) ≠ 0 then 2
  else if ¬LookaheadMethod (G.mem (ptr + 12)) setBeginEnd then 3
  else if G.mem (ptr + 16) ≠ primitiveMode then 4
  else 5

/-- The number of words from `ptr` on that are read for a Kelvin method, by its kind. -/
def kelvinReach (G : Gpu ρ) (v : Vertices) (call : Call) (ptr : Word) (words lookahead : Nat)
    (inc : Bool) : Nat :=
  match kelvinEntry G.toRenderer call.method with
  | .batched m => if m.loops inc then max 1 (m.batchLength call.method words) else 1
  | .drawArrays =>
    if 7 ≤ lookahead ∧ (v.drawArraysMethod call.parameter).any (decide ·.CanSquash) then
      1 + lookaheadReads G ptr v.primitiveMode
    else 1
  | .setBeginEnd | .other => 1

instance (G : Gpu ρ) (m : Machine ρ) : Decidable (Reading G m) :=
  decidable_of_iff _ (reading_iff G m).symm

namespace Machine

/-- The number of words a handler is told: `MIN(method_count, num_words_available)`. -/
def told (m : Machine ρ) : Nat := min m.pfifo.methodCount m.pfifo.available

/-- A data word gets to a handler of the Kelvin class: the puller does not stall, FIFO access is not lost,
and the subchannel has that class. -/
@[mk_iff] structure Handled (lost : Bool) (m : Machine ρ) : Prop where
  data : m.pfifo.methodCount ≠ 0
  kept : lost = false
  goes : PullerGoes m.pfifo m.polled.control
  kelvin : (m.polled.inContext m.pfifo.subchannel).graphicsClass = kelvinPrimitive

instance (f : Pfifo) (c : Control) : Decidable (PullerGoes f c) := decidable_of_iff
  (c.pullerShouldStall = false ∧ getMask f.pull0 0x00000001 ≠ 0 ∧
    getMask f.engine (engineMask f.subchannel) = engineGraphics)
  ⟨fun h => ⟨h.1, h.2.1, h.2.2⟩, fun h => ⟨h.goes, h.pull0, h.engine⟩⟩

instance (lost : Bool) (m : Machine ρ) : Decidable (m.Handled lost) :=
  decidable_of_iff _ (handled_iff lost m).symm

def reach (G : Gpu ρ) (lost : Bool) (m : Machine ρ) : Nat :=
  if m.Handled lost then
    kelvinReach G m.pgraph.vertices (m.call G) m.pfifo.dmaGet m.told m.pfifo.available m.pfifo.inc
  else 1

/-- The offsets of the words that a pass reads, unless an assertion ends it before. -/
def reads (G : Gpu ρ) (lost : Bool) (m : Machine ρ) : List Nat :=
  if Reading G m then (List.range (m.reach G lost)).map fun i => m.pfifo.dmaGet.toNat + 4 * i else []

end Machine

def Gpu.withMem (G : Gpu ρ) (mem : Word → Word) : Gpu ρ := { G with mem := mem }

/-- `mem` has the same `n` words from `ptr` on. -/
def Gpu.Same (G : Gpu ρ) (mem : Word → Word) (ptr : Word) (n : Nat) : Prop :=
  ∀ i < n, mem (ptr + 4 * BitVec.ofNat 32 i) = G.mem (ptr + 4 * BitVec.ofNat 32 i)

section Footprint

variable {G : Gpu ρ} {mem : Word → Word}

theorem callBatch_congr (m : KelvinMethod ρ) (subchannel : Word) (inc : Bool) (n method : Nat)
    (ptr : Word) (p : Pgraph ρ)
    (h : G.Same mem ptr n) : Pgraph.callBatch (G.withMem mem) m subchannel inc n method ptr p =
      Pgraph.callBatch G m subchannel inc n method ptr p := by
  induction n generalizing method ptr p with
  | zero => rfl
  | succ n ih =>
    have hfirst : mem ptr = G.mem ptr := by simpa using h 0 (succ_pos n)
    have hrest : G.Same mem (ptr + 4) n := by
      intro i hi
      have hi' := h (i + 1) (by omega)
      have haddr : ptr + 4 + 4 * BitVec.ofNat 32 i = ptr + 4 * BitVec.ofNat 32 (i + 1) := by
        bv_omega
      rw [haddr]
      exact hi'
    have hfirst' : (G.withMem mem).mem ptr = G.mem ptr := hfirst
    rw [Pgraph.callBatch, hfirst']
    congr 1
    funext q
    exact ih _ _ q hrest

variable {p : Pgraph ρ} {ptr : Word} {lookahead words n : Nat} {squash inc lost squashed : Bool}
  {call : Call} {r : Processed ρ} {f : Pfifo} {m : Machine ρ}

theorem lookaheadReads_congr {mode : Word} (h : G.Same mem ptr (1 + lookaheadReads G ptr mode)) :
    (LookaheadMethod (mem (ptr + 4)) setBeginEnd ∧ mem (ptr + 8) = 0 ∧
      LookaheadMethod (mem (ptr + 12)) setBeginEnd ∧ mem (ptr + 16) = mode ∧
      LookaheadMethod (mem (ptr + 20)) drawArrays) ↔
    (LookaheadMethod (G.mem (ptr + 4)) setBeginEnd ∧ G.mem (ptr + 8) = 0 ∧
      LookaheadMethod (G.mem (ptr + 12)) setBeginEnd ∧ G.mem (ptr + 16) = mode ∧
      LookaheadMethod (G.mem (ptr + 20)) drawArrays) := by
  have h1 : mem (ptr + 4) = G.mem (ptr + 4) := h 1 (by unfold lookaheadReads; split_ifs <;> decide)
  unfold lookaheadReads at h
  split at h
  · rw [h1]
    tauto
  have h2 : mem (ptr + 8) = G.mem (ptr + 8) := h 2 (by split_ifs <;> decide)
  split at h
  · rw [h1, h2]
    tauto
  have h3 : mem (ptr + 12) = G.mem (ptr + 12) := h 3 (by split_ifs <;> decide)
  split at h
  · rw [h1, h2, h3]
    tauto
  have h4 : mem (ptr + 16) = G.mem (ptr + 16) := h 4 (by split_ifs <;> decide)
  split at h
  · rw [h1, h2, h3, h4]
    tauto
  have h5 : mem (ptr + 20) = G.mem (ptr + 20) := h 5 (by decide)
  rw [h1, h2, h3, h4, h5]

theorem drawArraysMethod_primitiveMode {v v' : Vertices} {parameter : Word}
    (h : v.drawArraysMethod parameter = some v') : v'.primitiveMode = v.primitiveMode := by
  dsimp only [Vertices.drawArraysMethod, Vertices.pushRange] at h
  split at h
  · split at h
    · cases h
    · split at h <;> cases h
      rfl
  · split at h <;> cases h
    unfold Vertices.addRange
    split
    · split <;> rfl
    · rfl

/-- After a `DRAW_ARRAYS` the squash reads what `kelvinReach` counts. -/
theorem kelvinReach_drawArrays {q : Pgraph ρ} (ptr : Word) (words : Nat) (inc : Bool) (hentry : kelvinEntry G.toRenderer call.method = .drawArrays)
    (hq : p.callDrawArrays call = some q) (hlook : 7 ≤ lookahead) (hcan : q.vertices.CanSquash) :
    q.vertices.primitiveMode = p.vertices.primitiveMode ∧
      kelvinReach G p.vertices call ptr words lookahead inc =
        1 + lookaheadReads G ptr p.vertices.primitiveMode := by
  obtain ⟨v, hv, rfl⟩ := Option.map_eq_some_iff.mp hq
  refine ⟨drawArraysMethod_primitiveMode hv, ?_⟩
  unfold kelvinReach
  rw [hentry]
  refine if_pos ⟨hlook, ?_⟩
  rw [hv, Option.any_some]
  exact decide_eq_true hcan

theorem kelvinMethod_congr (p : Pgraph ρ)
    (h : G.Same mem ptr (kelvinReach G p.vertices call ptr words lookahead inc)) :
    p.kelvinMethod (G.withMem mem) squash call ptr words lookahead inc =
      p.kelvinMethod G squash call ptr words lookahead inc := by
  unfold Pgraph.kelvinMethod
  rw [show (G.withMem mem).toRenderer = G.toRenderer from rfl]
  cases hentry : kelvinEntry G.toRenderer call.method with
  | batched m =>
    dsimp only
    by_cases hloops : m.loops inc = true
    · rw [if_pos hloops, if_pos hloops, callBatch_congr]
      intro i hi
      apply h
      rw [kelvinReach, hentry]
      dsimp only
      rw [if_pos hloops]
      exact hi.trans_le (le_max_right _ _)
    · rw [if_neg hloops, if_neg hloops]
  | setBeginEnd => rfl
  | other => rfl
  | drawArrays =>
    refine Option.map_congr fun q hq => ?_
    have hiff : q.Squashes (G.withMem mem) ptr lookahead ↔ q.Squashes G ptr lookahead := by
      refine and_congr_right fun hlook => and_congr_right fun hcan => ?_
      obtain ⟨hmode, hreach⟩ := kelvinReach_drawArrays ptr words inc hentry hq hlook hcan
      rw [hreach] at h
      rw [hmode]
      exact lookaheadReads_congr h
    by_cases hs : squash = true ∧ q.Squashes G ptr lookahead
    · rw [if_pos hs, if_pos ⟨hs.1, hiff.mpr hs.2⟩]
    · rw [if_neg hs, if_neg fun hs' => hs ⟨hs'.1, hiff.mp hs'.2⟩]

theorem method_congr (p : Pgraph ρ)
    (h : G.Same mem ptr (kelvinReach G p.vertices call ptr words lookahead inc)) :
    p.method (G.withMem mem) squash call ptr words lookahead inc = p.method G squash call ptr words lookahead inc := by
  unfold Pgraph.method
  split
  · rfl
  refine Option.bind_congr fun q hq => ?_
  dsimp only [Pgraph.dispatch]
  rw [kelvinMethod_congr]
  · rfl
  · rw [Pgraph.inContext, Pgraph.regWs_vertices, Pgraph.loadObject_vertices hq]
    exact h

theorem method_withMem (G : Gpu ρ) (mem : Word → Word) (squash : Bool) (ptr : Word) (lookahead words : Nat) (inc : Bool)
    (hmethod : call.method ≠ 0)
    (hclass : (p.inContext call.subchannel).graphicsClass ≠ kelvinPrimitive) :
    p.method (G.withMem mem) squash call ptr words lookahead inc =
        p.method G squash call ptr words lookahead inc ∧
      ∀ r ∈ p.method G squash call ptr words lookahead inc, r.words = 1 ∧ r.squashed = false := by
  have hload (G : Gpu ρ) : p.loadObject G call = some p := if_neg hmethod
  simp only [Pgraph.method, hload, Option.bind_some, Pgraph.dispatch, hclass, and_false, if_false]
  refine ⟨rfl, fun r hr => ?_⟩
  obtain ⟨-, hr⟩ := Option.ite_none_left_eq_some.mp hr
  obtain ⟨q, -, rfl⟩ := Option.map_eq_some_iff.mp hr
  exact ⟨rfl, rfl⟩

theorem runPuller_result_of_not_goes {r : Pulled ρ}
    (h : f.runPuller G squash lost p call ptr words lookahead inc = some r)
    (hgoes : ¬(lost = false ∧ PullerGoes f p.control.pollFlip)) (hsubchannel : call.subchannel = f.subchannel)
    (hmethod : 0x200 ≤ call.method) : r.result = none := by
  dsimp only [Pfifo.runPuller] at h
  split at h
  · cases h
    rfl
  next hstall =>
  split at h
  · cases h
    rfl
  next hpull0 =>
  rw [if_neg (by omega), if_pos (by omega)] at h
  obtain ⟨parameter, -, h⟩ := Option.bind_eq_some_iff.mp h
  obtain ⟨hengine, h⟩ := Option.ite_none_right_eq_some.mp h
  split at h
  · cases h
    rfl
  · next hlost =>
    rw [hsubchannel] at hengine
    exact absurd ⟨Bool.eq_false_of_not_eq_true hlost, Bool.eq_false_of_not_eq_true hstall,
      fun h0 => hpull0 (.inl h0), hengine⟩ hgoes

/-- Only methods from 0x200 on read more than their own word. -/
theorem kelvinReach_of_lt {v : Vertices} (hmethod : call.method < 0x200) :
    kelvinReach G v call ptr words lookahead inc = 1 := by
  unfold kelvinReach
  split
  · next hentry =>
    obtain ⟨hm, hcovers⟩ := kelvinEntry_eq_batched.mp hentry
    have hbase := (batchedMethods_bounds hm).1
    have hle := hcovers.1
    omega
  · next hentry =>
    rw [kelvinEntry_eq_drawArrays hentry, drawArrays] at hmethod
    omega
  · rfl
  · rfl

theorem one_le_kelvinReach (v : Vertices) : 1 ≤ kelvinReach G v call ptr words lookahead inc := by
  unfold kelvinReach
  split
  · split
    · exact le_max_left _ _
    · exact le_rfl
  · split
    · exact le_add_right _ _
    · exact le_rfl
  · exact le_rfl
  · exact le_rfl

theorem kelvinMethod_covered (h : p.kelvinMethod G squash call ptr words lookahead inc = some r) :
    r.words ≤ kelvinReach G p.vertices call ptr words lookahead inc ∧
      (r.squashed → 5 ≤ kelvinReach G p.vertices call ptr words lookahead inc) := by
  have hone : 1 ≤ kelvinReach G p.vertices call ptr words lookahead inc := one_le_kelvinReach p.vertices
  unfold Pgraph.kelvinMethod at h
  split at h
  · next m hentry =>
    split at h
    · next hloops =>
      obtain ⟨q, -, rfl⟩ := Option.map_eq_some_iff.mp h
      refine ⟨?_, nofun⟩
      rw [kelvinReach, hentry]
      dsimp only
      rw [if_pos hloops]
      exact le_max_right _ _
    · obtain ⟨q, -, rfl⟩ := Option.map_eq_some_iff.mp h
      exact ⟨hone, nofun⟩
  · obtain ⟨q, -, rfl⟩ := Option.map_eq_some_iff.mp h
    exact ⟨hone, nofun⟩
  · next hentry =>
    obtain ⟨q, hq, rfl⟩ := Option.map_eq_some_iff.mp h
    split
    · next hsquash =>
      obtain ⟨-, hlook, hcan, h1, h2, h3, h4, -⟩ := hsquash
      obtain ⟨hmode, hreach⟩ := kelvinReach_drawArrays ptr words inc hentry hq hlook hcan
      refine ⟨hone, fun _ => ?_⟩
      rw [hreach, ← hmode, lookaheadReads, if_neg (not_not.mpr h1), if_neg (not_not.mpr h2),
        if_neg (not_not.mpr h3), if_neg (not_not.mpr h4)]
      omega
    · exact ⟨hone, nofun⟩
  · obtain ⟨q, -, rfl⟩ := Option.map_eq_some_iff.mp h
    exact ⟨hone, nofun⟩

theorem method_covered (h : p.method G squash call ptr words lookahead inc = some r) :
    r.words ≤ kelvinReach G p.vertices call ptr words lookahead inc ∧
      (r.squashed → 5 ≤ kelvinReach G p.vertices call ptr words lookahead inc) := by
  obtain ⟨-, h⟩ := Option.ite_none_left_eq_some.mp h
  obtain ⟨q, hq, h⟩ := Option.bind_eq_some_iff.mp h
  obtain ⟨-, h⟩ := Option.ite_none_left_eq_some.mp h
  rw [← Pgraph.loadObject_vertices hq]
  split at h
  · have hcovered := kelvinMethod_covered h
    rwa [Pgraph.inContext, Pgraph.regWs_vertices] at hcovered
  · obtain ⟨q', -, rfl⟩ := Option.map_eq_some_iff.mp h
    exact ⟨one_le_kelvinReach _, nofun⟩

theorem consumed_congr {k : Nat} (hn : n ≤ k) (hsquashed : squashed → 5 ≤ k)
    (h : G.Same mem f.dmaGet k) : Machine.consumed (G.withMem mem) f n squashed = Machine.consumed G f n squashed := by
  unfold Machine.consumed
  congr 1
  · refine map_congr_left fun i hi => ?_
    unfold Machine.dataEntry
    rw [show (G.withMem mem).mem (f.dmaGet + 4 * BitVec.ofNat 32 i) = _ from h i ((mem_range.mp hi).trans_le hn)]
  · cases squashed with
    | false => rfl
    | true =>
      have hword (i : Nat) (hi : i < 5) : (G.withMem mem).mem (f.dmaGet + 4 * BitVec.ofNat 32 i) =
          G.mem (f.dmaGet + 4 * BitVec.ofNat 32 i) := h i (hi.trans_le (hsquashed rfl))
      have h1 : (G.withMem mem).mem (f.dmaGet + 4) = G.mem (f.dmaGet + 4) := hword 1 (by decide)
      have h2 : (G.withMem mem).mem (f.dmaGet + 8) = G.mem (f.dmaGet + 8) := hword 2 (by decide)
      have h3 : (G.withMem mem).mem (f.dmaGet + 12) = G.mem (f.dmaGet + 12) := hword 3 (by decide)
      have h4 : (G.withMem mem).mem (f.dmaGet + 16) = G.mem (f.dmaGet + 16) := hword 4 (by decide)
      rw [h1, h2, h3, h4]

namespace Machine

theorem same_one (hfirst : mem ptr = G.mem ptr) : G.Same mem ptr 1 := by
  intro i hi
  rw [lt_one_iff.mp hi]
  simpa using hfirst

section

variable (hfirst : mem m.pfifo.dmaGet = G.mem m.pfifo.dmaGet)
include hfirst

theorem dataPfifo_congr : m.dataPfifo (G.withMem mem) = m.dataPfifo G := by
  rw [dataPfifo, show (G.withMem mem).mem m.pfifo.dmaGet = _ from hfirst, dataPfifo]

theorem call_congr : m.call (G.withMem mem) = m.call G := by
  rw [Machine.call, show (G.withMem mem).mem m.pfifo.dmaGet = _ from hfirst, Machine.call]

/-- A method below 0x200 reads its own word. -/
theorem dataWord_of_lt (hmethod : m.pfifo.method < 0x200) :
    m.dataWord (G.withMem mem) squash lost words = m.dataWord G squash lost words := by
  have hpull : (m.dataPfifo G).runPuller (G.withMem mem) squash lost m.pgraph (m.call G) m.pfifo.dmaGet words
      m.pfifo.available m.pfifo.inc = (m.dataPfifo G).runPuller G squash lost m.pgraph (m.call G)
        m.pfifo.dmaGet words m.pfifo.available m.pfifo.inc := by
    have hcongr (q : Pgraph ρ) (parameter : Word) :
        q.method (G.withMem mem) squash { m.call G with parameter } m.pfifo.dmaGet words
            m.pfifo.available m.pfifo.inc =
          q.method G squash { m.call G with parameter } m.pfifo.dmaGet words m.pfifo.available m.pfifo.inc := by
      refine method_congr q ?_
      rw [kelvinReach_of_lt (show ({ m.call G with parameter } : Call).method < 0x200 from hmethod)]
      exact same_one hfirst
    unfold Pfifo.runPuller
    simp only [hcongr]
    rfl
  rw [dataWord, dataPfifo_congr hfirst, call_congr hfirst, hpull]
  refine Option.map_congr fun r hr => ?_
  unfold afterPull
  split
  · rfl
  · next n squashed hresult =>
    obtain ⟨q, parameter, processed, hprocessed, rfl, rfl⟩ := (runPuller_method hr).2 n squashed hresult
    have hcovered := method_covered hprocessed
    rw [kelvinReach_of_lt (show ({ m.call G with parameter } : Call).method < 0x200 from hmethod)] at hcovered
    rw [consumed_congr hcovered.1 hcovered.2 (same_one hfirst)]

theorem afterData_congr (hconsumed : consumed (G.withMem mem) m.pfifo r.words r.squashed =
    consumed G m.pfifo r.words r.squashed) : m.afterData (G.withMem mem) r = m.afterData G r := by
  rw [afterData, hconsumed, show (G.withMem mem).mem m.pfifo.dmaGet = _ from hfirst, afterData]

theorem dataWord_of_not_handled (hmethod : 0x200 ≤ m.pfifo.method) (hdata : m.pfifo.methodCount ≠ 0)
    (h : ¬m.Handled lost) : m.dataWord (G.withMem mem) squash lost words = m.dataWord G squash lost words := by
  by_cases hgoes : lost = false ∧ PullerGoes m.pfifo m.polled.control
  · obtain ⟨rfl, hgoes⟩ := hgoes
    have hclass : (m.polled.inContext (m.call G).subchannel).graphicsClass ≠ kelvinPrimitive :=
      fun hkelvin => h ⟨hdata, rfl, hgoes, hkelvin⟩
    have hzero : (m.call G).method ≠ 0 := fun h0 => absurd (show m.pfifo.method = 0 from h0) (by omega)
    have hcongr := method_withMem G mem squash m.pfifo.dmaGet m.pfifo.available words m.pfifo.inc hzero hclass
    rw [dataWord_of_goes hgoes hmethod, dataWord_of_goes hgoes hmethod, call_congr hfirst, hcongr.1]
    refine Option.map_congr fun r hr => ?_
    obtain ⟨hwords, hsquashed⟩ := hcongr.2 r hr
    rw [afterData_congr hfirst]
    rw [hwords, hsquashed]
    exact consumed_congr le_rfl nofun (same_one hfirst)
  · have hgoes' : ¬(lost = false ∧ PullerGoes (m.dataPfifo G) m.pgraph.control.pollFlip) :=
      fun hgoes' => hgoes ⟨hgoes'.1, { hgoes'.2 with }⟩
    have hsub : (m.call G).subchannel = (m.dataPfifo G).subchannel := rfl
    rw [dataWord, dataPfifo_congr hfirst, call_congr hfirst, runPuller_of_not_goes hgoes' hsub hmethod]
    refine Option.map_congr fun r hr => ?_
    have hnone := runPuller_result_of_not_goes hr hgoes' hsub hmethod
    simp only [afterPull, hnone]

end

theorem dataWord_of_handled (hmethod : 0x200 ≤ m.pfifo.method) (hhandled : m.Handled lost)
    (h : G.Same mem m.pfifo.dmaGet (m.reach G lost)) :
    m.dataWord (G.withMem mem) squash lost m.told = m.dataWord G squash lost m.told := by
  rw [reach, if_pos hhandled] at h
  have hfirst : mem m.pfifo.dmaGet = G.mem m.pfifo.dmaGet := by
    simpa using h 0 (one_le_kelvinReach _)
  obtain ⟨-, rfl, hgoes, -⟩ := hhandled
  rw [dataWord_of_goes hgoes hmethod, dataWord_of_goes hgoes hmethod, call_congr hfirst, method_congr m.polled h]
  refine Option.map_congr fun r hr => ?_
  have hcovered := method_covered hr
  rw [afterData_congr hfirst (consumed_congr hcovered.1 hcovered.2 h)]

theorem one_le_reach (G : Gpu ρ) (lost : Bool) (m : Machine ρ) : 1 ≤ m.reach G lost := by
  unfold reach
  split
  · exact one_le_kelvinReach _
  · exact le_rfl

theorem iterate_of_reading (hreading : Reading G m) (h : G.Same mem m.pfifo.dmaGet (m.reach G lost)) :
    m.iterate (G.withMem mem) squash lost = m.iterate G squash lost := by
  have hreading' : Reading (G.withMem mem) m := { hreading with }
  have hfirst : mem m.pfifo.dmaGet = G.mem m.pfifo.dmaGet := by
    simpa using h 0 (one_le_reach G lost m)
  by_cases hcount : m.pfifo.methodCount = 0
  · rw [hreading.iterate_header hcount, hreading'.iterate_header hcount,
      show (G.withMem mem).mem m.pfifo.dmaGet = _ from hfirst]
  · have hword : m.dataWord (G.withMem mem) squash lost m.told = m.dataWord G squash lost m.told := by
      rcases lt_or_ge m.pfifo.method 0x200 with hmethod | hmethod
      · exact dataWord_of_lt hfirst hmethod
      by_cases hhandled : m.Handled lost
      · exact dataWord_of_handled hmethod hhandled h
      · exact dataWord_of_not_handled hfirst hmethod hcount hhandled
    rw [hreading.iterate_data hcount, hreading'.iterate_data hcount]
    exact congrArg (Option.bind · fun r => r.1.proceed r.2) hword

theorem iterate_of_not_reading (hreading : ¬Reading G m) :
    m.iterate (G.withMem mem) squash lost = m.iterate G squash lost := by
  unfold Machine.iterate
  by_cases hrunning : m.running = true
  · rw [if_pos hrunning, if_pos hrunning]
    by_cases hstop : m.pgraph.control.pusherShouldStall = true ∨ m.pfifo.dmaGet = m.pfifo.dmaPut
    · rw [if_pos hstop, if_pos hstop]
    · have hout : ¬(m.pfifo.dmaGet.toNat < G.dmaLen ∧ (m.pfifo.dmaPut - m.pfifo.dmaGet).toNat % 4 = 0) := by
        rw [not_or] at hstop
        exact fun h => hreading ⟨hrunning, Bool.eq_false_iff.mpr hstop.1, hstop.2, h.1, h.2⟩
      rw [if_neg hstop, if_neg hstop, if_neg hout]
      exact if_neg hout
  · rw [if_neg hrunning, if_neg hrunning]

/-- `reads` is all a pass reads: memories that agree there give the same pass. -/
theorem iterate_congr (h : ∀ o ∈ m.reads G lost, mem (BitVec.ofNat 32 o) = G.mem (BitVec.ofNat 32 o))
    (squash : Bool) : m.iterate (G.withMem mem) squash lost = m.iterate G squash lost := by
  by_cases hreading : Reading G m
  · refine iterate_of_reading hreading fun i hi => ?_
    have haddr : m.pfifo.dmaGet + 4 * BitVec.ofNat 32 i = BitVec.ofNat 32 (m.pfifo.dmaGet.toNat + 4 * i) := by
      rw [BitVec.ofNat_add, BitVec.ofNat_mul, BitVec.ofNat_toNat]
      rfl
    rw [haddr]
    apply h
    rw [reads, if_pos hreading]
    exact mem_map_of_mem (mem_range.mpr hi)
  · exact iterate_of_not_reading hreading

end Machine

end Footprint

theorem kelvinReach_le {G : Gpu ρ} {v : Vertices} {call : Call} {ptr : Word} {words lookahead : Nat}
    {inc : Bool} (hwords : 0 < words) :
    kelvinReach G v call ptr words lookahead inc ≤ words ∨
      (7 ≤ lookahead ∧ kelvinReach G v call ptr words lookahead inc ≤ 6) := by
  unfold kelvinReach
  split
  · next m hentry =>
    split
    · next hloops =>
      obtain ⟨-, hcovers⟩ := kelvinEntry_eq_batched.mp hentry
      exact .inl (Nat.max_le.mpr ⟨hwords, (batchLength_le words hcovers hloops).1⟩)
    · exact .inl hwords
  · split
    · next hlook =>
      refine .inr ⟨hlook.1, ?_⟩
      unfold lookaheadReads
      split_ifs <;> decide
    · exact .inl hwords
  · exact .inl hwords
  · exact .inl hwords

namespace Machine

variable {G : Gpu ρ} {m : Machine ρ} {lost : Bool}

theorem reach_le_available (hreading : Reading G m) : m.reach G lost ≤ m.pfifo.available := by
  have hpos := hreading.available_pos
  unfold reach
  split
  · next hhandled =>
    have htold : 0 < m.told := lt_min (Nat.pos_of_ne_zero hhandled.data) hpos
    have hle : m.told ≤ m.pfifo.available := min_le_right _ _
    rcases kelvinReach_le htold with hreach | ⟨hlook, hreach⟩
    · exact hreach.trans hle
    · exact hreach.trans (by omega)
  · exact hpos

theorem available_le_put (h : m.pfifo.dmaGet < m.pfifo.dmaPut) :
    m.pfifo.dmaGet.toNat + 4 * m.pfifo.available ≤ m.pfifo.dmaPut.toNat := by
  have hdistance : (m.pfifo.dmaPut - m.pfifo.dmaGet).toNat = m.pfifo.dmaPut.toNat - m.pfifo.dmaGet.toNat :=
    BitVec.toNat_sub_of_le (BitVec.le_of_lt h)
  have hlt : m.pfifo.dmaGet.toNat < m.pfifo.dmaPut.toNat := h
  unfold Pfifo.available
  omega

/-- The words that the limit has to cover: one for a header, for a plain method or if no handler is called,
the words of the batch, those that the squash compares, and if `DMA_PUT` is behind `DMA_GET` all that are
left of the command. -/
def needed (G : Gpu ρ) (lost : Bool) (m : Machine ρ) : Nat :=
  if m.Handled lost ∧ m.pfifo.dmaPut < m.pfifo.dmaGet then max (m.reach G lost) m.told else m.reach G lost

/-- The limit of the DMA object covers the words needed. -/
def pushOk (G : Gpu ρ) (lost : Bool) (m : Machine ρ) : Prop :=
  Reading G m → m.pfifo.dmaGet.toNat + 4 * m.needed G lost ≤ G.dmaLen

instance : Decidable (m.pushOk G lost) := inferInstanceAs (Decidable (_ → _))

theorem needed_le_iff {n : Nat} : m.needed G lost ≤ n ↔ m.reach G lost ≤ n ∧
    (m.Handled lost → m.pfifo.dmaPut < m.pfifo.dmaGet → m.told ≤ n) := by
  unfold needed
  split
  · next h => exact Nat.max_le.trans (and_congr_right fun _ => ⟨fun hle _ _ => hle, fun hle => hle h.1 h.2⟩)
  · next h => exact (and_iff_left fun hhandled hput => absurd ⟨hhandled, hput⟩ h).symm

def planeWords : List Word := [0x00100840, 0x11, 0x22, 0x33, 0x44]

def shortGpu (limit : Nat) : Gpu Unit := { bufferGpu planeWords with dmaLen := limit }

def planeEvents : List FifoEvent := [.enter, .iterate false]

end Machine

end XogMobile.Nv2a
