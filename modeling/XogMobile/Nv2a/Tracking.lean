import XogMobile.Nv2a.Joined
import XogMobile.Nv2a.Reference

/-!
# Two machines on the same words

One machine has squashed blocks and the other has not. They read the same words with the same control
state, their vertices are joined, and the handlers that were called are the same but for the squashed
pairs of `SET_BEGIN_END`. A step of the FIFO engine without the squash keeps this.
-/

namespace XogMobile.Nv2a

open Lib Option

variable {ρ : Type} {nopDraw : Bool}

/-- The same calls, but for end and begin pairs in the second list. -/
inductive SameCalls : List Call → List Call → Prop where
  | refl (calls : List Call) : SameCalls calls calls
  | call {a b : List Call} (c : Call) : SameCalls a b → SameCalls (a ++ [c]) (b ++ [c])
  | pair {a b : List Call} (subchannel prim : Word) : SameCalls a b →
      SameCalls a (b ++ [⟨subchannel, setBeginEnd, 0⟩, ⟨subchannel, setBeginEnd, prim⟩])

/-- PGRAPH with the squash, and without. -/
structure Tracks (nopDraw : Bool) (p q : Pgraph ρ) : Prop where
  control : q.control = p.control
  vertices : p.vertices.Joins nopDraw q.vertices
  calls : SameCalls p.calls q.calls

/-- The addresses of `ARRAY_ELEMENT16` and `ARRAY_ELEMENT32`. -/
def IsElement (method : Nat) : Prop := 0x1800 ≤ method ∧ method < 0x1810

instance (method : Nat) : Decidable (IsElement method) := inferInstanceAs (Decidable (_ ∧ _))

theorem vertices_joins {R : Renderer ρ} {bm : KelvinMethod ρ} (hm : bm ∈ batchedMethods R)
    (slot : Nat) (parameter : Word) {v w : Vertices} (h : v.Joins nopDraw w)
    (helement : IsElement bm.base → v.joined = 0) :
    Simulates (fun v' w' => (IsElement bm.base → v'.joined = 0) ∧ v'.Joins nopDraw w')
      (bm.vertices.elim some (fun f => f slot parameter) v)
      (bm.vertices.elim some (fun f => f slot parameter) w) := by
  have hkept {j : Nat} (hj : j = v.joined) (hbase : IsElement bm.base) : j = 0 := hj.trans (helement hbase)
  obtain hnone | ⟨ends, hends⟩ | harray | ⟨hbase, hpush⟩ | ⟨hbase, hpush⟩ := vertices_cases hm
  · rw [hnone]
    exact simulates_some ⟨helement, h⟩
  · rw [hends]
    exact simulates_ite Iff.rfl (fun _ => h.finishInlineBufferVertex.imp fun _ _ => .imp_left hkept)
      fun _ => simulates_some ⟨helement, h⟩
  · rw [harray]
    exact (h.inlineArrayMethod parameter).imp fun _ _ => .imp_left hkept
  · rw [hpush]
    exact (h.pushElements (helement (by rw [hbase]; decide)) _).imp fun _ _ => .imp_left fun hj _ => hj
  · rw [hpush]
    exact (h.pushElements (helement (by rw [hbase]; decide)) _).imp fun _ _ => .imp_left fun hj _ => hj

structure TracksProcessed (nopDraw : Bool) (r r' : Processed ρ) : Prop where
  words : r'.words = r.words
  squashed : r'.squashed = r.squashed
  pgraph : Tracks nopDraw r.pgraph r'.pgraph

namespace Tracks

variable {G : Gpu ρ} {p q p' : Pgraph ρ}

variable {bm : KelvinMethod ρ}

section

variable (h : Tracks nopDraw p q)
include h

theorem regWs (ws : List (Nat × Word)) : Tracks nopDraw (p.regWs ws) (q.regWs ws) where
  control := by rw [Pgraph.regWs_control, Pgraph.regWs_control, h.control]
  vertices := by
    rw [Pgraph.regWs_vertices, Pgraph.regWs_vertices]
    exact h.vertices
  calls := by
    rw [Pgraph.regWs_calls, Pgraph.regWs_calls]
    exact h.calls

theorem called (call : Call) : Tracks nopDraw (p.called call) (q.called call) :=
  ⟨h.control, h.vertices, .call call h.calls⟩

theorem callBatched (hm : bm ∈ batchedMethods G.toRenderer)
    (helement : IsElement bm.base → p.vertices.joined = 0) (call : Call) :
    Simulates (fun p' q' => (IsElement bm.base → p'.vertices.joined = 0) ∧ Tracks nopDraw p' q')
      (p.callBatched bm call) (q.callBatched bm call) := by
  unfold Pgraph.callBatched
  rw [h.control]
  refine (simulates_refl _).bind fun ws _ _ hws => ?_
  subst hws
  refine (vertices_joins hm _ _ h.vertices helement).map fun v w hvw => ⟨?_, ?_⟩
  · simpa [Pgraph.called] using hvw.1
  · apply Tracks.called
    apply Tracks.regWs
    exact ⟨rfl, hvw.2, h.calls⟩

theorem callBatch (hm : bm ∈ batchedMethods G.toRenderer)
    (helement : IsElement bm.base → p.vertices.joined = 0) (subchannel : Word) (inc : Bool)
    (n method : Nat) (ptr : Word) :
    Simulates (Tracks nopDraw) (Pgraph.callBatch G bm subchannel inc n method ptr p)
      (Pgraph.callBatch G bm subchannel inc n method ptr q) := by
  induction n generalizing method ptr p q with
  | zero => exact simulates_some h
  | succ n ih => exact (h.callBatched hm helement _).bind fun _ _ _ hnext => ih hnext.2 hnext.1 _ _

theorem callSetBeginEnd (hnop : p.vertices.joined ≠ 0 → p.control.isNopDraw = nopDraw) (call : Call) :
    Simulates (Tracks nopDraw) (p.callSetBeginEnd G.toRenderer call) (q.callSetBeginEnd G.toRenderer call) := by
  unfold Pgraph.callSetBeginEnd
  rw [h.control]
  exact (h.vertices.setBeginEnd hnop _).map fun _ _ hjoins => ⟨rfl, hjoins, .call call h.calls⟩

theorem callDrawArrays (call : Call) : Simulates (Tracks nopDraw) (p.callDrawArrays call) (q.callDrawArrays call) :=
  (h.vertices.drawArraysMethod _).map fun _ _ hjoins => ⟨h.control, hjoins, .call call h.calls⟩

theorem callOther (cls : Word) (call : Call) :
    Simulates (Tracks nopDraw) (p.callOther G cls call) (q.callOther G cls call) := by
  unfold Pgraph.callOther
  rw [h.control]
  refine (simulates_refl _).map fun e _ he => ?_
  subst he
  apply Tracks.called
  apply Tracks.regWs
  exact ⟨rfl, h.vertices, h.calls⟩

end

theorem isElement_of_covers {R : Renderer ρ} {method : Nat} (hm : bm ∈ batchedMethods R)
    (hcovers : bm.Covers method) (h : IsElement bm.base) : IsElement method := by
  have hall : ∀ r ∈ batchedRanges, IsElement r.1 → r.2 ≤ 0x1810 := by decide +kernel
  rw [← map_batchedMethods R] at hall
  have hend := hall _ (List.mem_map_of_mem hm) h
  exact ⟨h.1.trans hcovers.1, hcovers.2.trans_le hend⟩

variable {call : Call} {ptr : Word} {words lookahead : Nat} {inc : Bool} {r : Processed ρ}

section

variable (h : Tracks nopDraw p q)
include h

theorem kelvinMethod (hnop : p.vertices.joined ≠ 0 → p.control.isNopDraw = nopDraw)
    (helement : IsElement call.method → p.vertices.joined = 0) :
    Simulates (TracksProcessed nopDraw) (p.kelvinMethod G false call ptr words lookahead inc)
      (q.kelvinMethod G false call ptr words lookahead inc) := by
  unfold Pgraph.kelvinMethod
  cases hentry : kelvinEntry G.toRenderer call.method with
  | batched bm =>
    obtain ⟨hm, hcovers⟩ := kelvinEntry_eq_batched.mp hentry
    have helement' : IsElement bm.base → p.vertices.joined = 0 :=
      fun hbase => helement (isElement_of_covers hm hcovers hbase)
    refine simulates_ite Iff.rfl (fun _ => ?_) fun _ => ?_
    · exact (h.callBatch hm helement' _ _ _ _ _).map fun _ _ hpq => ⟨rfl, rfl, hpq⟩
    · exact (h.callBatched hm helement' call).map fun _ _ hpq => ⟨rfl, rfl, hpq.2⟩
  | setBeginEnd => exact (h.callSetBeginEnd hnop call).map fun _ _ hpq => ⟨rfl, rfl, hpq⟩
  | drawArrays =>
    simp only [Bool.false_eq_true, false_and, if_false]
    exact (h.callDrawArrays call).map fun _ _ hpq => ⟨rfl, rfl, hpq⟩
  | other => exact (h.callOther _ call).map fun _ _ hpq => ⟨rfl, rfl, hpq⟩

theorem loadObject (call : Call) : Simulates (Tracks nopDraw) (p.loadObject G call) (q.loadObject G call) :=
  simulates_ite Iff.rfl (fun _ => simulates_guard id fun _ => simulates_some (h.regWs _))
    fun _ => simulates_some h

theorem inContext (subchannel : Word) : Tracks nopDraw (p.inContext subchannel) (q.inContext subchannel) := by
  rw [Pgraph.inContext, Pgraph.inContext, h.control]
  exact h.regWs _

theorem graphicsClass : q.graphicsClass = p.graphicsClass := by
  rw [Pgraph.graphicsClass, Pgraph.graphicsClass, h.control]

end

theorem isNopDraw_regWs {ws : List (Nat × Word)} (h : ∀ w ∈ ws, w.1 < 0x800) :
    (p.regWs ws).control.isNopDraw = p.control.isNopDraw := by
  have hsame : ∀ addr, 0x800 ≤ addr → (p.regWs ws).control.regs addr = p.control.regs addr := by
    intro addr haddr
    rw [Pgraph.regWs_control]
    apply Pgraph.writeRegs_of_not_mem
    intro w hw heq
    exact absurd (h w hw) (by omega)
  rw [Control.isNopDraw, Control.isNopDraw, hsame control0 (by decide), hsame control1 (by decide)]

theorem isNopDraw_inContext (p : Pgraph ρ) (subchannel : Word) :
    (p.inContext subchannel).control.isNopDraw = p.control.isNopDraw := by
  apply isNopDraw_regWs
  intro w hw
  obtain ⟨i, hi, rfl⟩ := List.mem_map.mp hw
  have hlt := List.mem_range.mp hi
  simp only [ctxSwitch]
  omega

theorem isNopDraw_loadObject (hsubchannel : call.subchannel.toNat < 8)
    (hp : p.loadObject G call = some p') : p'.control.isNopDraw = p.control.isNopDraw := by
  unfold Pgraph.loadObject at hp
  split at hp
  · obtain ⟨-, ⟨⟩⟩ := ite_none_right_eq_some.mp hp
    apply isNopDraw_regWs
    simp only [List.forall_mem_cons, ctxCache, List.not_mem_nil, false_imp_iff, implies_true, and_true]
    omega
  · cases hp
    rfl

theorem method (h : Tracks nopDraw p q) (hnop : p.vertices.joined ≠ 0 → p.control.isNopDraw = nopDraw)
    (helement : IsElement call.method → p.vertices.joined = 0)
    (hsubchannel : call.subchannel.toNat < 8) :
    Simulates (TracksProcessed nopDraw) (p.method G false call ptr words lookahead inc)
      (q.method G false call ptr words lookahead inc) := by
  refine simulates_ite (by rw [h.control]) (fun _ => nofun) fun _ => (h.loadObject call).bind fun u u' hu hloaded => ?_
  have hcontext := hloaded.inContext call.subchannel
  have hvertices : (u.inContext call.subchannel).vertices = p.vertices :=
    (Pgraph.regWs_vertices _ _).trans (Pgraph.loadObject_vertices hu)
  unfold Pgraph.dispatch
  dsimp only
  rw [hcontext.graphicsClass]
  refine simulates_ite Iff.rfl (fun _ => nofun) fun _ => simulates_ite Iff.rfl (fun _ => ?_) fun _ => ?_
  · apply hcontext.kelvinMethod
    · rw [hvertices, isNopDraw_inContext, isNopDraw_loadObject hsubchannel hu]
      exact hnop
    · rw [hvertices]
      exact helement
  · exact (hcontext.callOther _ call).map fun _ _ hpq => ⟨rfl, rfl, hpq⟩

theorem contextSwitch (h : Tracks nopDraw p q) (channelId : Word) : Simulates (fun p' q' => (p'.vertices = p.vertices ∧
      p'.control.isNopDraw = p.control.isNopDraw) ∧ Tracks nopDraw p' q')
      (p.contextSwitch channelId) (q.contextSwitch channelId) := by
  unfold Pgraph.contextSwitch
  rw [h.control]
  refine simulates_ite Iff.rfl (fun _ => simulates_some ⟨⟨rfl, rfl⟩, h⟩) fun _ => simulates_guard id fun _ => ?_
  have hregs := h.regWs [(0x704, setMask (p.control.regs 0x704) 0x01F00000 channelId)]
  have hnop : (p.regWs [(0x704, setMask (p.control.regs 0x704) 0x01F00000 channelId)]).control.isNopDraw
      = p.control.isNopDraw := isNopDraw_regWs (by simp)
  refine simulates_some ⟨⟨rfl, hnop⟩, ?_, hregs.vertices, hregs.calls⟩
  exact congrArg (fun c : Control => { c with waitingForContextSwitch := true }) hregs.control

end Tracks

structure Settings where
  (mode push0 push1 pull0 engine dmaPush dmaPut error : Word)

def Pfifo.settings (f : Pfifo) : Settings :=
  ⟨f.mode, f.push0, f.push1, f.pull0, f.engine, f.dmaPush, f.dmaPut, f.error⟩

structure SameFifo (f g : Pfifo) : Prop where
  place : g.place = f.place
  settings : g.settings = f.settings

namespace SameFifo

variable {f g : Pfifo}

theorem refl (f : Pfifo) : SameFifo f f := ⟨rfl, rfl⟩

section

variable (h : SameFifo f g)
include h

theorem fields : g.dmaGet = f.dmaGet ∧ g.current = f.current ∧ g.ret = f.ret := by
  have hplace := h.place
  exact Place.mk.inj hplace

theorem dmaGet : g.dmaGet = f.dmaGet := h.fields.1

theorem current : g.current = f.current := h.fields.2.1

theorem dmaPut : g.dmaPut = f.dmaPut := congrArg Settings.dmaPut h.settings

theorem error : g.error = f.error := by
  have hsettings := h.settings
  exact (Settings.mk.inj hsettings).2.2.2.2.2.2.2

theorem available : g.available = f.available := by
  rw [Pfifo.available, Pfifo.available, h.dmaGet, h.dmaPut]

theorem methodCount_eq_zero (hcount : f.methodCount = 0) : g.methodCount = 0 := by
  by_contra hne
  have hcurrent := h.current
  rw [current_of_eq hcount, current_of_ne hne] at hcurrent
  cases hcurrent

theorem command (hcount : f.methodCount ≠ 0) :
    g.subchannel = f.subchannel ∧ g.method = f.method ∧ g.methodCount = f.methodCount ∧ g.inc = f.inc := by
  have hne : g.methodCount ≠ 0 := by
    intro hzero
    have hcurrent := h.current
    rw [current_of_eq hzero, current_of_ne hcount] at hcurrent
    cases hcurrent
  have hcurrent := h.current
  rw [current_of_ne hcount, current_of_ne hne, some.injEq, Command.mk.injEq] at hcurrent
  obtain ⟨hsubchannel, hindex, hcount', hinc⟩ := hcurrent
  have hf := f.method_dvd
  have hg := g.method_dvd
  exact ⟨hsubchannel, by omega, hcount', hinc⟩

theorem pulled {engine engine' : Word} (hengine : engine' = engine)
    (pull1 pull1' status status' shadow shadow' : Word) :
    SameFifo { f with engine := engine, pull1 := pull1, status := status, dataShadow := shadow }
      { g with engine := engine', pull1 := pull1', status := status', dataShadow := shadow' } := by
  subst hengine
  have hf : SamePlace f
      { f with engine := engine', pull1 := pull1, status := status, dataShadow := shadow } :=
    ⟨rfl, rfl, rfl, rfl⟩
  have hg : SamePlace g
      { g with engine := engine', pull1 := pull1', status := status', dataShadow := shadow' } :=
    ⟨rfl, rfl, rfl, rfl⟩
  refine ⟨?_, ?_⟩
  · rw [hf.place, hg.place, h.place]
  · exact congrArg (fun s : Settings => { s with engine := engine' }) h.settings

end

end SameFifo

theorem advance_settings (f : Pfifo) (n : Nat) : (f.advance n).settings = f.settings := by
  rw [Pfifo.settings, f.advance_error]
  rfl

variable {f g f' : Pfifo} {w ptr : Word} {G : Gpu ρ} {p q : Pgraph ρ} {call : Call}
  {words lookahead : Nat} {inc : Bool} {r : Pulled ρ}

theorem SameFifo.advance (h : SameFifo f g) (hcount : f.methodCount ≠ 0) (n : Nat) :
    SameFifo (f.advance n) (g.advance n) := by
  obtain ⟨hsubchannel, hmethod, hcount', hinc⟩ := h.command hcount
  have hcurrent : (g.advance n).current = (f.advance n).current := by
    rw [Pfifo.current, Pfifo.current, g.advance_subchannel, g.advance_method, g.advance_methodCount,
      g.advance_inc, f.advance_subchannel, f.advance_method, f.advance_methodCount, f.advance_inc,
      hsubchannel, hmethod, hcount', hinc]
  have hget : (g.advance n).dmaGet = (f.advance n).dmaGet := by
    simp only [Pfifo.advance, h.dmaGet]
  refine ⟨?_, by rw [advance_settings, advance_settings, h.settings]⟩
  rw [Pfifo.place, Pfifo.place, hget, hcurrent, advance_ret, advance_ret, h.fields.2.2]

theorem command_settings (f : Pfifo) (w type : Word) : (f.command w type).settings = f.settings := by
  have herror : (f.command w type).error = f.error := by
    rw [Pfifo.error, Pfifo.command]
    rw [getMask_setMask_of_disjoint _ _ (by decide), getMask_setMask_of_disjoint _ _ (by decide),
      getMask_setMask_of_disjoint _ _ (by decide), getMask_setMask_of_disjoint _ _ (by decide)]
    rfl
  rw [Pfifo.settings, herror]
  rfl

theorem header_settings (h : f.header w = some f') : f'.settings = f.settings := by
  dsimp only [Pfifo.header] at h
  split at h
  · cases h
    rfl
  split at h
  · cases h
    rfl
  split at h
  · obtain ⟨-, ⟨⟩⟩ := ite_none_left_eq_some.mp h
    rfl
  split at h
  · obtain ⟨-, ⟨⟩⟩ := ite_none_right_eq_some.mp h
    rfl
  split at h
  · cases h
    exact command_settings _ w 0
  · obtain ⟨-, ⟨⟩⟩ := ite_none_right_eq_some.mp h
    exact command_settings _ w 1

theorem SameFifo.header (h : SameFifo f g) (hf : f.header w = some f') :
    ∃ g', g.header w = some g' ∧ SameFifo f' g' := by
  have hplace := header_place g w
  rw [h.place, ← header_place f w, hf] at hplace
  obtain ⟨g', hg', hplace'⟩ := map_eq_some_iff.mp hplace
  refine ⟨g', hg', hplace', ?_⟩
  rw [header_settings hg', header_settings hf, h.settings]

structure TracksPulled (nopDraw : Bool) (r r' : Pulled ρ) : Prop where
  result : r'.result = r.result
  pgraph : Tracks nopDraw r.pgraph r'.pgraph
  pfifo : SameFifo r.pfifo r'.pfifo

theorem Tracks.pulled (h : Tracks nopDraw p q) (hnop : p.vertices.joined ≠ 0 → p.control.isNopDraw = nopDraw)
    (helement : IsElement call.method → p.vertices.joined = 0)
    (hsubchannel : call.subchannel.toNat < 8) (hsame : SameFifo f g) :
    Simulates (TracksPulled nopDraw) ((p.method G false call ptr words lookahead inc).map f.pulled)
      ((q.method G false call ptr words lookahead inc).map g.pulled) := by
  refine (h.method hnop helement hsubchannel).map fun r r' hr => ⟨?_, hr.pgraph, ?_⟩
  · simp only [Pfifo.pulled, Processed.consumed, hr.words, hr.squashed]
  · exact hsame.pulled (congrArg Settings.engine hsame.settings) _ _ _ _ _ _

theorem Tracks.runPuller {lost : Bool} (h : Tracks nopDraw p q)
    (hnop : p.vertices.joined ≠ 0 → p.control.isNopDraw = nopDraw)
    (helement : IsElement call.method → p.vertices.joined = 0)
    (hsubchannel : call.subchannel.toNat < 8) (hsame : SameFifo f g)
    (hf : f.status &&& lowMark = 0) (hg : g.status &&& lowMark = 0) :
    Simulates (TracksPulled nopDraw) (f.runPuller G false lost p call ptr words lookahead inc)
      (g.runPuller G false lost q call ptr words lookahead inc) := by
  have hpull0 : g.pull0 = f.pull0 := congrArg Settings.pull0 hsame.settings
  have hengine : g.engine = f.engine := congrArg Settings.engine hsame.settings
  have hpolled : Tracks nopDraw { p with control := p.control.pollFlip }
      { q with control := q.control.pollFlip } :=
    ⟨congrArg Control.pollFlip h.control, h.vertices, h.calls⟩
  refine simulates_ite (by rw [h.control]) (fun _ => simulates_some ⟨rfl, hpolled, hsame⟩) fun _ =>
    simulates_ite (by rw [hpull0, hf, hg]) (fun _ => simulates_some ⟨rfl, hpolled, hsame⟩) fun _ =>
    simulates_ite Iff.rfl (fun _ => ?_) fun _ => simulates_guard id fun _ => ?_
  · -- an object: the context may have to be switched first
    refine (simulates_refl _).bind fun entry _ _ hentry => ?_
    subst hentry
    have hset := hsame.pulled
      (congrArg (fun e => setMask e (engineMask call.subchannel) entry.engine) hengine)
      (setMask f.pull1 0x00000003 entry.engine) (setMask g.pull1 0x00000003 entry.engine)
      f.status g.status f.dataShadow g.dataShadow
    refine simulates_guard id fun _ => simulates_ite Iff.rfl
      (fun _ => simulates_some ⟨rfl, hpolled, hset⟩) fun _ =>
      (hpolled.contextSwitch entry.channelId).bind fun u u' _ hu => ?_
    obtain ⟨⟨hvertices, hnopDraw⟩, hswitched⟩ := hu
    refine simulates_ite (by rw [hswitched.control])
      (fun _ => simulates_some ⟨rfl, hswitched, hset⟩) fun _ => ?_
    refine hswitched.pulled ?_ ?_ hsubchannel hset
    · rw [hvertices, hnopDraw]
      exact hnop
    · rw [hvertices]
      exact helement
  · refine (simulates_refl _).bind fun parameter _ _ hparameter => ?_
    subst hparameter
    have hset := hsame.pulled hengine
      (setMask f.pull1 0x00000003 (getMask f.engine (engineMask call.subchannel)))
      (setMask g.pull1 0x00000003 (getMask g.engine (engineMask call.subchannel)))
      f.status g.status f.dataShadow g.dataShadow
    exact simulates_guard (by rw [hengine]; exact id) fun _ => simulates_ite Iff.rfl
      (fun _ => simulates_some ⟨rfl, hpolled, hset⟩) fun _ =>
      hpolled.pulled hnop helement hsubchannel hset

theorem Tracks.of_isNopDraw (h : Tracks nopDraw p q) (hnop : p.vertices.joined ≠ 0 → p.control.isNopDraw = nopDraw) :
    Tracks p.control.isNopDraw p q := by
  refine ⟨h.control, ?_, h.calls⟩
  by_cases hjoined : p.vertices.joined = 0
  · exact h.vertices.of_joined_eq_zero hjoined
  · rw [hnop hjoined]
    exact h.vertices

/-- A machine with the squash, and one without it on the same words. -/
structure Follows (s t : Machine ρ) : Prop where
  pfifo : SameFifo s.pfifo t.pfifo
  running : t.running = s.running
  pgraph : Tracks s.pgraph.control.isNopDraw s.pgraph t.pgraph

namespace Follows

variable {G : Gpu ρ} {s t s' : Machine ρ} {lost progress : Bool} {words : Nat} {e : FifoEvent}

theorem dataWord (h : Follows s t) (hcount : s.pfifo.methodCount ≠ 0) (hwords : 0 < words)
    (helement : IsElement s.pfifo.method → s.pgraph.vertices.joined = 0)
    (hs : s.dataWord G false lost words = some (s', progress)) :
    ∃ t', t.dataWord G false lost words = some (t', progress) ∧ SameFifo s'.pfifo t'.pfifo ∧
      Tracks s.pgraph.control.isNopDraw s'.pgraph t'.pgraph := by
  obtain ⟨hsubchannel, hmethod, -, hinc⟩ := h.pfifo.command hcount
  have hengine : t.pfifo.engine = s.pfifo.engine := congrArg Settings.engine h.pfifo.settings
  have hdata : SameFifo (s.dataPfifo G) (t.dataPfifo G) :=
    h.pfifo.pulled hengine s.pfifo.pull1 t.pfifo.pull1 (s.pfifo.status &&& ~~~lowMark)
      (t.pfifo.status &&& ~~~lowMark) (G.mem s.pfifo.dmaGet) (G.mem t.pfifo.dmaGet)
  obtain ⟨r, hr, hafter⟩ := map_eq_some_iff.mp hs
  have hlow : (s.dataPfifo G).status &&& lowMark = 0 := lowMark_cleared _
  have hlow' : (t.dataPfifo G).status &&& lowMark = 0 := lowMark_cleared _
  have hlt : (s.call G).subchannel.toNat < 8 := s.pfifo.subchannel_lt
  have helement' : IsElement (s.call G).method → s.pgraph.vertices.joined = 0 := helement
  obtain ⟨r', hr', hresult, htracks, hsame⟩ := h.pgraph.runPuller (fun _ => rfl) helement' hlt hdata hlow hlow' hr
  have hplace := (runPuller_spec hr hwords s.pfifo.method_dvd s.pfifo.method_lt).1
  have hcount' : r.pfifo.methodCount ≠ 0 := by
    rw [Pfifo.methodCount, hplace.dmaState]
    exact hcount
  have hcall : t.call G = s.call G := by
    rw [Machine.call, Machine.call, hsubchannel, hmethod, h.pfifo.dmaGet]
  have hword : t.dataWord G false lost words = some (t.afterPull G r') := by
    rw [Machine.dataWord, hcall, h.pfifo.dmaGet, h.pfifo.available, hinc, hr', map_some]
  rw [hword]
  unfold Machine.afterPull at hafter ⊢
  cases hcase : r.result with rw [hcase] at hafter
  | none =>
    cases hafter
    rw [hresult, hcase]
    exact ⟨_, rfl, hsame, htracks⟩
  | some taken =>
    cases hafter
    rw [hresult, hcase]
    exact ⟨_, rfl, hsame.advance hcount' _, htracks⟩

theorem proceed {running : Bool} (h : SameFifo s.pfifo t.pfifo) (hs : s.pfifo.error = 0) :
    t.proceed running = some { t with running := running } := by
  rw [Machine.proceed, h.error, if_pos hs]

theorem reading (h : Follows s t) (hs : Reading G s) : Reading G t where
  running := h.running.trans hs.running
  goes := by
    rw [h.pgraph.control]
    exact hs.goes
  ne := by
    rw [h.pfifo.dmaGet, h.pfifo.dmaPut]
    exact hs.ne
  inside := by
    rw [h.pfifo.dmaGet]
    exact hs.inside
  whole := by
    rw [h.pfifo.dmaGet, h.pfifo.dmaPut]
    exact hs.whole

theorem iterate (h : Follows s t)
    (helement : s.pfifo.methodCount ≠ 0 → IsElement s.pfifo.method → s.pgraph.vertices.joined = 0)
    (hnop : s'.pgraph.vertices.joined ≠ 0 → s'.pgraph.control.isNopDraw = s.pgraph.control.isNopDraw)
    (hs : s.iterate G false lost = some s') :
    ∃ t', t.iterate G false lost = some t' ∧ Follows s' t' := by
  cases iterate_pass hs with
  | stopped running stop error =>
    refine ⟨{ t with running := false }, ?_, h.pfifo, rfl, h.pgraph⟩
    rw [Machine.iterate, if_pos (h.running.trans running), h.pgraph.control, h.pfifo.dmaGet,
      h.pfifo.dmaPut, if_pos stop, proceed h.pfifo error]
  | data reading count r progress word error =>
    have hwords : 0 < min s.pfifo.methodCount s.pfifo.available :=
      Nat.lt_min.mpr ⟨Nat.pos_of_ne_zero count, reading.available_pos⟩
    obtain ⟨t', ht', hsame, htracks⟩ := h.dataWord count hwords (helement count) word
    obtain ⟨-, -, hcount, -⟩ := h.pfifo.command count
    refine ⟨{ t' with running := progress }, ?_, hsame, rfl, htracks.of_isNopDraw hnop⟩
    rw [(h.reading reading).iterate_data (by rw [hcount]; exact count), hcount, h.pfifo.available, ht',
      bind_some, proceed hsame error]
  | header reading count f header error =>
    obtain ⟨g, hg, hsame⟩ := h.pfifo.header header
    refine ⟨{ t with pfifo := g, running := true }, ?_, hsame, rfl, h.pgraph⟩
    rw [(h.reading reading).iterate_header (h.pfifo.methodCount_eq_zero count), h.pfifo.dmaGet, hg, bind_some]
    exact proceed (s := { s with pfifo := f }) (t := { t with pfifo := g }) hsame error

theorem step (h : Follows s t)
    (helement : s.pfifo.methodCount ≠ 0 → IsElement s.pfifo.method → s.pgraph.vertices.joined = 0)
    (hnop : s'.pgraph.vertices.joined ≠ 0 → s'.pgraph.control.isNopDraw = s.pgraph.control.isNopDraw)
    (hs : s.step G false e = some s') : ∃ t', t.step G false e = some t' ∧ Follows s' t' := by
  cases e with
  | enter =>
    have hmode : t.pfifo.mode = s.pfifo.mode := congrArg Settings.mode h.pfifo.settings
    have hpush0 : t.pfifo.push0 = s.pfifo.push0 := congrArg Settings.push0 h.pfifo.settings
    have hpush1 : t.pfifo.push1 = s.pfifo.push1 := congrArg Settings.push1 h.pfifo.settings
    have hdmaPush : t.pfifo.dmaPush = s.pfifo.dmaPush := congrArg Settings.dmaPush h.pfifo.settings
    refine simulates_ite (by rw [h.running]) (fun _ => nofun) (fun _ => simulates_ite
      (by rw [hpush0, hdmaPush]) (fun _ => simulates_some h) fun _ =>
      simulates_guard (by rw [hmode, hpush1]; exact id) fun _ => ?_) hs
    exact simulates_guard (by rw [h.pfifo.error]; exact id) fun _ => simulates_some ⟨h.pfifo, rfl, h.pgraph⟩
  | iterate lost => exact h.iterate helement hnop hs
  | put v =>
    cases hs
    refine ⟨_, rfl, ⟨?_, ?_⟩, h.running, h.pgraph⟩
    · exact h.pfifo.place
    · exact congrArg (fun s : Settings => { s with dmaPut := v }) h.pfifo.settings
  | control c =>
    cases hs
    refine ⟨_, rfl, h.pfifo, h.running, ?_⟩
    have htracks : Tracks s.pgraph.control.isNopDraw { s.pgraph with control := c }
        { t.pgraph with control := c } := ⟨rfl, h.pgraph.vertices, h.pgraph.calls⟩
    exact htracks.of_isNopDraw hnop

end Follows

end XogMobile.Nv2a
