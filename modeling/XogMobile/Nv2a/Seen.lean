import XogMobile.Lib.View
import XogMobile.Nv2a.Device

/-!
# What the guest can see of the device

The marks of what has changed are for the renderer's uploads, the time of an alarm can only be written,
and the logs are for the proofs. `seen` forgets these. No step of the device depends on them, as long as
the code around it does not: a read returns the same word, and what can be seen of the device after the
step is the same.
-/

namespace XogMobile.Nv2a

open Lib

variable {ρ ν : Type}

def Vertices.seen (v : Vertices) : Vertices := { v with joined := 0, drawn := [] }

def Table.seen (t : Table) : Table := { t with dirty := fun _ => false }

def Aux.seen (a : Aux ρ) : Aux ρ :=
  { a with
    regsDirty := fun _ => false
    vshConstants := a.vshConstants.seen
    programDataDirty := false
    ltctxa := a.ltctxa.seen
    ltctxb := a.ltctxb.seen
    ltc1 := a.ltc1.seen }

def Pgraph.seen (p : Pgraph ρ) : Pgraph ρ :=
  { p with vertices := p.vertices.seen, aux := p.aux.seen, calls := [] }

def Device.seen (d : Device ρ ν) : Device ρ ν :=
  { d with ptimer := { d.ptimer with alarmTime := 0 }, pgraph := d.pgraph.seen }

/-- What is seen afterwards depends only on what was seen before. -/
def Blind (f : Vertices → Aux ρ → Aux ρ) : Prop :=
  ∀ v v' a a', v.seen = v'.seen → a.seen = a'.seen → (f v a).seen = (f v' a').seen

/-- No code that the engine calls depends on what cannot be seen. -/
structure Gpu.IsBlind (G : Gpu ρ) : Prop where
  drawBegin : ∀ c, Blind (G.drawBegin c)
  drawEnd : ∀ c, Blind (G.drawEnd c)
  flushDraw : ∀ c, Blind (G.flushDraw c)
  otherAux : ∀ cls method w c, Blind (G.otherAux cls method w c)

theorem blind_of_seen {f : Vertices → Aux ρ → Aux ρ} (h : ∀ v a, (f v a).seen = (f v.seen a.seen).seen) : Blind f := by
  intro v v' a a' hv ha
  rw [h v a, h v' a', hv, ha]

namespace Vertices

variable (v : Vertices)

theorem flushDraw_shows : Shows seen v.flushDraw v.seen.flushDraw := shows_map fun _ => rfl

theorem expandDrawArrays_shows : Shows seen v.expandDrawArrays v.seen.expandDrawArrays := by
  refine shows_bind fun last => Shows.bind_view (π := seen) ?_ fun v => ?_
  · refine shows_ite Iff.rfl ((flushDraw_shows v).map fun a b hab => ?_) rfl
    exact (congrArg (seen ∘ resetInlineBuffers) hab :)
  · refine Shows.map (π := seen) (shows_ite Iff.rfl rfl rfl) fun a b hab => ?_
    exact (congrArg (seen ∘ resetDrawArrays) hab :)

theorem pushElements_shows (indices : List Nat) :
    Shows seen (v.pushElements indices) (v.seen.pushElements indices) := by
  refine Shows.bind_view (π := seen) ?_ fun _ => shows_ite Iff.rfl rfl rfl
  exact shows_ite Iff.rfl (expandDrawArrays_shows v) rfl

theorem drawArraysMethod_shows (w : Word) : Shows seen (v.drawArraysMethod w) (v.seen.drawArraysMethod w) := by
  refine shows_ite Iff.rfl (shows_ite Iff.rfl rfl (shows_ite Iff.rfl rfl rfl))
    (shows_ite Iff.rfl (shows_some ?_) rfl)
  dsimp only [addRange, seen]
  split
  · split <;> rfl
  · rfl

theorem setBeginEnd_shows (nopDraw : Bool) (w : Word) :
    Shows seen (v.setBeginEnd nopDraw w) (v.seen.setBeginEnd nopDraw w) := by
  have hdraw : Shows seen (if nopDraw then some v else v.flushDraw)
      (if nopDraw then some v.seen else v.seen.flushDraw) :=
    shows_ite Iff.rfl rfl (flushDraw_shows v)
  refine shows_ite Iff.rfl (shows_ite Iff.rfl rfl (hdraw.map fun a b hab => ?_))
    (shows_ite Iff.rfl rfl (shows_ite Iff.rfl rfl rfl))
  exact congrArg (fun v => { v.resetInlineBuffers with primitiveMode := primTypeInvalid }.seen) hab

end Vertices

variable {R : Renderer ρ} {m : KelvinMethod ρ}

theorem batched_vertices_shows (hm : m ∈ batchedMethods R) (slot : Nat) (w : Word) (v : Vertices) :
    Shows Vertices.seen (m.vertices.elim some (fun f => f slot w) v)
      (m.vertices.elim some (fun f => f slot w) v.seen) := by
  obtain hnone | ⟨ends, hends⟩ | harray | ⟨-, helement⟩ | ⟨-, helement⟩ := vertices_cases hm
  · rw [hnone]
    rfl
  · rw [hends]
    exact shows_ite Iff.rfl (shows_ite Iff.rfl rfl rfl) rfl
  · rw [harray]
    exact shows_ite Iff.rfl rfl rfl
  · rw [helement]
    exact Vertices.pushElements_shows v _
  · rw [helement]
    exact Vertices.pushElements_shows v _

theorem expandFlush_blind (hR : ∀ c, Blind (R.flushDraw c)) (c : Control) : Blind (expandFlush R c) := by
  intro v v' a a' hv ha
  have hranges : v.drawArrays = v'.drawArrays := show v.seen.drawArrays = v'.seen.drawArrays by rw [hv]
  unfold expandFlush
  rw [hranges]
  split
  · exact hR c v v' a a' hv ha
  · exact ha

def FieldBlind (x : Option (Aux ρ → Aux ρ)) : Prop := ∀ g ∈ x, ∀ a, (g a).seen = (g a.seen).seen

theorem fieldBlind_none : FieldBlind (none : Option (Aux ρ → Aux ρ)) := nofun

theorem fieldBlind_some {g : Aux ρ → Aux ρ} (h : ∀ a, (g a).seen = (g a.seen).seen) : FieldBlind (some g) := by
  rintro _ ⟨⟩
  exact h

theorem fieldBlind_ite {p : Prop} [Decidable p] {x y : Option (Aux ρ → Aux ρ)} (hx : FieldBlind x)
    (hy : FieldBlind y) : FieldBlind (if p then x else y) := by
  split
  · exact hx
  · exact hy

theorem backLightField_blind (light part : Nat) (w : Word) : FieldBlind (ρ := ρ) (backLightField light part w) := by
  unfold backLightField
  repeat refine fieldBlind_ite (fieldBlind_some fun _ => rfl) ?_
  exact fieldBlind_none

theorem lightField_blind (light part : Nat) (w : Word) : FieldBlind (ρ := ρ) (lightField light part w) := by
  unfold lightField
  repeat refine fieldBlind_ite (fieldBlind_some fun _ => rfl) ?_
  exact fieldBlind_none

theorem storeChecked_blind {base words slot : Nat} {w : Word} {c : Control}
    {f : Nat → Word → Option (Aux ρ → Aux ρ)} (hf : FieldBlind (f slot w)) :
    Blind ((KelvinMethod.storeChecked base words f).aux slot w c) := by
  refine blind_of_seen fun v a => ?_
  change ((f slot w).getD id a).seen = ((f slot w).getD id a.seen).seen
  cases hg : f slot w with
  | none => rfl
  | some g => exact hf g hg a

theorem setVertexDataArrayFormat_blind (slot : Nat) (w : Word) (c : Control) :
    Blind ((setVertexDataArrayFormat (ρ := ρ)).aux slot w c) := by
  refine storeChecked_blind fun g hg a => ?_
  obtain ⟨size, -, rfl⟩ := Option.map_eq_some_iff.mp hg
  rfl

theorem setLightAmbientColor_blind (slot : Nat) (w : Word) (c : Control) :
    Blind ((setLightAmbientColor (ρ := ρ)).aux slot w c) :=
  storeChecked_blind (lightField_blind _ _ w)

theorem setBackLightAmbientColor_blind (slot : Nat) (w : Word) (c : Control) :
    Blind ((setBackLightAmbientColor (ρ := ρ)).aux slot w c) :=
  storeChecked_blind (backLightField_blind _ _ w)

theorem setTransformConstant_blind (slot : Nat) (w : Word) (c : Control) :
    Blind ((setTransformConstant (ρ := ρ)).aux slot w c) := by
  refine blind_of_seen fun _ _ => ?_
  simp only [setTransformConstant, Aux.seen, Table.seen, Table.set]

theorem batched_aux_blind (hR : ∀ c, Blind (R.flushDraw c)) (hm : m ∈ batchedMethods R)
    (slot : Nat) (w : Word) (c : Control) : Blind (m.aux slot w c) := by
  have helement16 : Blind ((arrayElement16 R).aux slot w c) := expandFlush_blind hR c
  have helement32 : Blind ((arrayElement32 R).aux slot w c) := expandFlush_blind hR c
  have hformat := setVertexDataArrayFormat_blind (ρ := ρ) slot w c
  have hconstant := setTransformConstant_blind (ρ := ρ) slot w c
  have hlight := setLightAmbientColor_blind (ρ := ρ) slot w c
  have hback := setBackLightAmbientColor_blind (ρ := ρ) slot w c
  have hall : ∀ m ∈ batchedMethods R, Blind (m.aux slot w c) := by
    repeat' refine List.forall_mem_cons.mpr ⟨?_, ?_⟩
    -- the handlers with a check, the ones that may draw, and all others
    all_goals first
      | with_reducible assumption
      | exact blind_of_seen fun _ _ => rfl
      | exact nofun
  exact hall m hm

namespace Pgraph

variable {G : Gpu ρ} {p q : Pgraph ρ}

theorem seen_eq_iff : p.seen = q.seen ↔
    p.control = q.control ∧ p.vertices.seen = q.vertices.seen ∧ p.aux.seen = q.aux.seen := by
  constructor
  · intro h
    obtain ⟨hcontrol, hvertices, haux, -⟩ := Pgraph.mk.inj h
    exact ⟨hcontrol, hvertices, haux⟩
  · rintro ⟨hcontrol, hvertices, haux⟩
    rw [seen, seen, hcontrol, hvertices, haux]

theorem regW_seen (addr : Nat) (val : Word) (h : p.seen = q.seen) :
    (p.regW addr val).seen = (q.regW addr val).seen := by
  obtain ⟨hcontrol, hvertices, haux⟩ := seen_eq_iff.mp h
  exact seen_eq_iff.mpr ⟨by simp only [regW, hcontrol], hvertices, haux⟩

theorem regWs_seen (ws : List (Nat × Word)) (h : p.seen = q.seen) : (p.regWs ws).seen = (q.regWs ws).seen := by
  induction ws generalizing p q with
  | nil => exact h
  | cons w ws ih => exact ih (regW_seen w.1 w.2 h)

variable {m : KelvinMethod ρ} (p)

theorem callBatched_shows (hG : G.IsBlind) (hm : m ∈ batchedMethods G.toRenderer) (call : Call) :
    Shows seen (p.callBatched m call) (p.seen.callBatched m call) := by
  refine shows_bind fun ws => (batched_vertices_shows hm _ _ p.vertices).map fun v v' hv => ?_
  exact regWs_seen ws (seen_eq_iff.mpr
    ⟨rfl, hv, batched_aux_blind hG.flushDraw hm _ _ _ _ _ _ _ rfl rfl⟩)

theorem callBatch_shows (hG : G.IsBlind) (hm : m ∈ batchedMethods G.toRenderer)
    (subchannel : Word) (inc : Bool) (n method : Nat) (ptr : Word) :
    Shows seen (callBatch G m subchannel inc n method ptr p) (callBatch G m subchannel inc n method ptr p.seen) := by
  induction n generalizing method ptr p with
  | zero => rfl
  | succ n ih => exact (callBatched_shows p hG hm _).bind_view fun p => ih p _ _

theorem callSetBeginEnd_shows (hG : G.IsBlind) (call : Call) :
    Shows seen (p.callSetBeginEnd G.toRenderer call) (p.seen.callSetBeginEnd G.toRenderer call) := by
  refine (p.vertices.setBeginEnd_shows _ call.parameter).map fun v v' hv => ?_
  refine seen_eq_iff.mpr ⟨rfl, hv, ?_⟩
  rw [show p.seen.vertices.primitiveMode = p.vertices.primitiveMode from rfl]
  split
  · split
    · rfl
    · exact hG.drawEnd _ _ _ _ _ rfl rfl
  · split
    · rfl
    · exact hG.drawBegin _ _ _ _ _ hv rfl

theorem callDrawArrays_shows (call : Call) : Shows seen (p.callDrawArrays call) (p.seen.callDrawArrays call) :=
  (p.vertices.drawArraysMethod_shows call.parameter).map fun _ _ hv => seen_eq_iff.mpr ⟨rfl, hv, rfl⟩

theorem callOther_shows (hG : G.IsBlind) (cls : Word) (call : Call) :
    Shows seen (p.callOther G cls call) (p.seen.callOther G cls call) :=
  shows_map fun e => regWs_seen e.writes
    (seen_eq_iff.mpr ⟨rfl, rfl, hG.otherAux _ _ _ _ _ _ _ _ rfl rfl⟩)

end Pgraph

def Processed.seen (r : Processed ρ) : Processed ρ := { r with pgraph := r.pgraph.seen }

namespace Pgraph

variable {G : Gpu ρ} (p : Pgraph ρ) (squash : Bool) (call : Call) (ptr : Word)
  (available lookahead : Nat) (inc : Bool)

theorem kelvinMethod_shows (hG : G.IsBlind) :
    Shows Processed.seen (p.kelvinMethod G squash call ptr available lookahead inc)
      (p.seen.kelvinMethod G squash call ptr available lookahead inc) := by
  unfold kelvinMethod
  cases hentry : kelvinEntry G.toRenderer call.method with
  | batched m =>
    have hm := (kelvinEntry_eq_batched.mp hentry).1
    refine shows_ite Iff.rfl ?_ ?_
    · exact (callBatch_shows p hG hm _ inc _ _ ptr).map fun _ _ hab =>
        congrArg (fun p => (⟨p, _, false⟩ : Processed ρ)) hab
    · exact (callBatched_shows p hG hm call).map fun _ _ hab => congrArg single hab
  | setBeginEnd => exact (callSetBeginEnd_shows p hG call).map fun _ _ hab => congrArg single hab
  | drawArrays =>
    refine (callDrawArrays_shows p call).map fun a b hab => ?_
    rw [apply_ite Processed.seen, apply_ite Processed.seen]
    exact congrArg (fun p => if squash ∧ p.Squashes G ptr lookahead then
      Processed.seen ⟨p.preventConnect, 1, true⟩ else p.single.seen) hab
  | other => exact (callOther_shows p hG _ call).map fun _ _ hab => congrArg single hab

theorem dispatch_shows (hG : G.IsBlind) : Shows Processed.seen (p.dispatch G squash call ptr available lookahead inc)
      (p.seen.dispatch G squash call ptr available lookahead inc) := by
  have hcontext : (p.inContext call.subchannel).seen = (p.seen.inContext call.subchannel).seen := regWs_seen _ rfl
  refine Shows.of_view (f := fun p => if call.subchannel ≠ 0 ∧ p.graphicsClass = kelvinPrimitive
    then none else if p.graphicsClass = kelvinPrimitive then
      p.kelvinMethod G squash call ptr available lookahead inc
    else (p.callOther G p.graphicsClass call).map single) (fun p => ?_) hcontext
  exact shows_ite Iff.rfl rfl (shows_ite Iff.rfl
    (kelvinMethod_shows p squash call ptr available lookahead inc hG)
    ((callOther_shows p hG _ call).map fun _ _ hab => congrArg single hab))

theorem method_shows (hG : G.IsBlind) : Shows Processed.seen (p.method G squash call ptr available lookahead inc)
      (p.seen.method G squash call ptr available lookahead inc) := by
  have hload : Shows seen (p.loadObject G call) (p.seen.loadObject G call) :=
    shows_ite Iff.rfl (shows_ite Iff.rfl (shows_some (regWs_seen _ rfl)) rfl) rfl
  exact shows_ite Iff.rfl rfl (hload.bind_view fun p => dispatch_shows p squash call ptr available lookahead inc hG)

theorem contextSwitch_shows (channelId : Word) :
    Shows seen (p.contextSwitch channelId) (p.seen.contextSwitch channelId) :=
  shows_ite Iff.rfl rfl (shows_ite Iff.rfl rfl rfl)

end Pgraph

def Pulled.seen (r : Pulled ρ) : Pulled ρ := { r with pgraph := r.pgraph.seen }

def Machine.seen (m : Machine ρ) : Machine ρ := { m with pgraph := m.pgraph.seen, trace := [] }

theorem Pfifo.runPuller_shows {G : Gpu ρ} (hG : G.IsBlind) (squash lost : Bool) (f : Pfifo)
    (p : Pgraph ρ) (call : Call) (ptr : Word) (words lookahead : Nat) (inc : Bool) :
    Shows Pulled.seen (f.runPuller G squash lost p call ptr words lookahead inc)
      (f.runPuller G squash lost p.seen call ptr words lookahead inc) := by
  have hmethod (f : Pfifo) (p : Pgraph ρ) (call : Call) :
      Shows Pulled.seen ((p.method G squash call ptr words lookahead inc).map f.pulled)
        ((p.seen.method G squash call ptr words lookahead inc).map f.pulled) :=
    (Pgraph.method_shows p squash call ptr words lookahead inc hG).map fun _ _ hab => congrArg f.pulled hab
  refine shows_ite Iff.rfl rfl (shows_ite Iff.rfl rfl (shows_ite Iff.rfl ?_
    (shows_ite Iff.rfl ?_ rfl)))
  · -- an object: the context may have to be switched first
    refine shows_bind fun entry => shows_ite Iff.rfl (shows_ite Iff.rfl rfl ?_) rfl
    exact (Pgraph.contextSwitch_shows _ entry.channelId).bind_view fun p => shows_ite Iff.rfl rfl (hmethod _ p _)
  · exact shows_bind fun parameter => shows_ite Iff.rfl (shows_ite Iff.rfl rfl (hmethod _ _ _)) rfl

namespace Machine

variable {G : Gpu ρ} (m : Machine ρ)

theorem proceed_shows (running : Bool) : Shows seen (m.proceed running) (m.seen.proceed running) :=
  shows_ite Iff.rfl rfl rfl

theorem afterPull_seen {r s : Pulled ρ} (h : r.seen = s.seen) :
    Prod.map seen id (m.afterPull G r) = Prod.map seen id (m.seen.afterPull G s) := by
  obtain ⟨f, p, result⟩ := r
  obtain ⟨rfl, hpgraph, rfl⟩ := Pulled.mk.inj h
  unfold afterPull
  cases s.result with
  | none => exact congrArg (fun p => (Machine.mk s.pfifo p m.running [], false)) hpgraph
  | some taken => exact congrArg (fun p => (Machine.mk (s.pfifo.advance _) p m.running [], true)) hpgraph

theorem dataWord_shows (hG : G.IsBlind) (squash lost : Bool) (words : Nat) :
    Shows (Prod.map seen id) (m.dataWord G squash lost words) (m.seen.dataWord G squash lost words) :=
  (Pfifo.runPuller_shows hG squash lost _ _ _ _ words _ _).map fun _ _ => afterPull_seen m

theorem iterate_shows (hG : G.IsBlind) (squash lost : Bool) :
    Shows seen (m.iterate G squash lost) (m.seen.iterate G squash lost) := by
  refine shows_ite Iff.rfl (shows_ite Iff.rfl (proceed_shows m false) (shows_ite Iff.rfl
    (shows_ite Iff.rfl ?_ ?_) rfl)) rfl
  · exact (dataWord_shows m hG squash lost _).bind_view fun r => proceed_shows r.1 r.2
  · exact shows_bind fun f => proceed_shows { m with pfifo := f } true

theorem step_shows (hG : G.IsBlind) (squash : Bool) (e : FifoEvent) :
    Shows seen (m.step G squash e) (m.seen.step G squash e) := by
  cases e with
  | enter => exact shows_ite Iff.rfl rfl (shows_ite Iff.rfl rfl (shows_ite Iff.rfl (proceed_shows m true) rfl))
  | iterate lost => exact iterate_shows m hG squash lost
  | put v => rfl
  | control c => rfl

end Machine

namespace Device

variable {E : Env ρ ν} (d : Device ρ ν) (p : Pgraph ρ)

theorem rdiNext_shows : Shows Pgraph.seen (rdiNext p) (rdiNext p.seen) := by
  unfold rdiNext
  exact shows_ite Iff.rfl rfl rfl

theorem pgraphRegWrite_shows (addr : Nat) (val : Word) :
    Shows Pgraph.seen (pgraphRegWrite E p addr val) (pgraphRegWrite E p.seen addr val) := by
  refine shows_ite Iff.rfl ?_ (shows_ite Iff.rfl ?_ (shows_ite Iff.rfl ?_ ?_))
  · exact shows_ite Iff.rfl (shows_ite Iff.rfl rfl rfl) rfl
  · exact shows_ite Iff.rfl rfl (rdiNext_shows p)
  · exact shows_ite Iff.rfl (shows_ite Iff.rfl rfl rfl) rfl
  · exact shows_ite Iff.rfl rfl rfl

theorem pgraphRead_shows (addr : Nat) : Shows (Prod.map id seen) (d.pgraphRead addr) (d.seen.pgraphRead addr) := by
  refine shows_ite Iff.rfl rfl (shows_ite Iff.rfl rfl (shows_ite Iff.rfl ?_
    (shows_ite Iff.rfl rfl rfl)))
  exact shows_bind fun w => (rdiNext_shows d.pgraph).map fun _ _ hab =>
    congrArg (fun p => (w, { d.seen with pgraph := p })) hab

theorem read_shows (block : RegBlock) (addr size : Nat) :
    Shows (Prod.map id seen) (d.read E block addr size) (d.seen.read E block addr size) := by
  cases block
  case pgraph => exact pgraphRead_shows d addr
  case ptimer | pramdac | user => exact shows_map fun _ => rfl
  case pcrtc =>
    refine shows_some ?_
    unfold pcrtcRead
    split_ifs <;> rfl
  all_goals rfl

theorem write_shows (block : RegBlock) (addr : Nat) (val : Word) :
    Shows seen (d.write E block addr val) (d.seen.write E block addr val) := by
  cases block
  case pgraph =>
    refine shows_ite Iff.rfl rfl (shows_ite Iff.rfl rfl ?_)
    exact (pgraphRegWrite_shows d.pgraph addr val).map fun _ _ hab =>
      congrArg (fun p => { d.seen with pgraph := p }) hab
  case user => exact shows_ite Iff.rfl (shows_map fun _ => rfl) rfl
  case pfb | prmvio | prmcio | pramdac | prmdio | stub => rfl
  case pbus => exact shows_some (by split_ifs <;> rfl)
  all_goals
    refine shows_some ?_
    simp only [pmcWrite, pfifoWrite, pvideoWrite, ptimerWrite, pcrtcWrite]
    split_ifs <;> rfl

theorem fifo_shows (hE : ∀ instanceAddr, (E.gpu instanceAddr).IsBlind) (e : FifoEvent) :
    Shows seen (d.fifo E e) (d.seen.fifo E e) := by
  have hafter (d : Device ρ ν) (m : Machine ρ) :
      Shows seen (d.afterPass m) (d.seen.afterPass m.seen) := shows_ite Iff.rfl rfl rfl
  refine shows_ite Iff.rfl rfl ((Machine.step_shows _ (hE _) E.squash e).bind fun m n hmn => ?_)
  have hm := hafter d m
  rw [hmn] at hm
  exact hm.trans (hafter d.seen n).symm

theorem step_shows (hE : ∀ instanceAddr, (E.gpu instanceAddr).IsBlind) (e : DeviceEvent) :
    Shows (Prod.map id seen) (d.step E e) (d.seen.step E e) := by
  have hquiet (a b : Device ρ ν) (hab : a.seen = b.seen) :
      Prod.map id seen ((none : Option Word), a) = Prod.map id seen (none, b) :=
    congrArg (Prod.mk none) hab
  cases e with
  | read block addr size => exact (read_shows d block addr size).map fun _ _ hab => congrArg (Prod.map some id) hab
  | write block addr val => exact (write_shows d block addr val).map hquiet
  | fifo lost => exact (fifo_shows d hE (.iterate lost)).map hquiet
  | fifoEnter => exact (fifo_shows d hE .enter).map hquiet
  | raise =>
    have hraise : Shows seen d.raise d.seen.raise := shows_map fun _ => rfl
    exact hraise.map hquiet
  | vblank => rfl
  | reset pciReset => cases pciReset <;> rfl

end Device

end XogMobile.Nv2a
