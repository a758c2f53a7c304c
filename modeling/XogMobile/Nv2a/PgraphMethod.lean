import XogMobile.Nv2a.Kelvin

/-!
# `pgraph_method`

A method goes to the handler of its class. A batched Kelvin method takes all words it was given, up to
the end of its range; after a `DRAW_ARRAYS` the next six words of the push buffer are looked at, and an
end and a begin of the same primitive with another `DRAW_ARRAYS` behind them are squashed.
-/

namespace XogMobile.Nv2a

open Lib Option

variable {ρ : Type}

structure Effect where
  writes : List (Nat × Word)
  (waitingForFlip waitingForNop waitingForContextSwitch : Bool)

structure RamhtEntry where
  (instanceAddr engine channelId : Word)

/-- The memory and the code around the FIFO engine. `mem` is the DMA object the push buffer is in,
`ramht` finds valid entries, and `other` stands for the methods that take a single word: those of
the other classes, and those of the Kelvin class that are neither batched nor modelled. -/
structure Gpu (ρ : Type) extends Renderer ρ where
  mem : Word → Word
  dmaLen : Nat
  ramht : Word → Option RamhtEntry
  ramin : Word → Word
  raminSize : Nat
  other : Word → Nat → Word → Control → Option Effect
  otherAux : Word → Nat → Word → Control → Vertices → Aux ρ → Aux ρ

def ctxControl : Nat := 0x144
def ctxUser : Nat := 0x148
def ctxSwitch (i : Nat) : Nat := 0x14C + 4 * i
def ctxCache (i subchannel : Nat) : Nat := 0x160 + 0x20 * i + 4 * subchannel

def kelvinPrimitive : Word := 0x97

/-- `NV097_SET_BEGIN_END` and `NV097_DRAW_ARRAYS`. -/
def setBeginEnd : Nat := 0x17FC

def drawArrays : Nat := 0x1810

inductive KelvinEntry (ρ : Type) where
  | batched (m : KelvinMethod ρ)
  | setBeginEnd
  | drawArrays
  | other

/-- `pgraph_kelvin_methods`. -/
def kelvinEntry (R : Renderer ρ) (method : Nat) : KelvinEntry ρ :=
  if method = setBeginEnd then .setBeginEnd
  else if method = drawArrays then .drawArrays
  else match (batchedMethods R).find? (fun m => decide (m.Covers method)) with
    | some m => .batched m
    | none => .other

/-- `LAM`: the bits of a header that the squash looks at. -/
def LookaheadMethod (w : Word) (method : Nat) : Prop := w &&& 0x31FFF = BitVec.ofNat 32 method

instance (w : Word) (method : Nat) : Decidable (LookaheadMethod w method) :=
  inferInstanceAs (Decidable (_ = _))

namespace Pgraph

def called (p : Pgraph ρ) (call : Call) : Pgraph ρ := { p with calls := p.calls ++ [call] }

def callBatched (p : Pgraph ρ) (m : KelvinMethod ρ) (call : Call) : Option (Pgraph ρ) :=
  let slot := (call.method - m.base) / 4
  (m.writes slot call.parameter p.control.regs).bind fun writes =>
    (m.vertices.elim some (fun f => f slot call.parameter) p.vertices).map fun v =>
      ({ p with
        vertices := v
        aux := m.aux slot call.parameter p.control p.vertices p.aux }.regWs writes).called call

/-- `SET_BEGIN_END`. The renderer is called where a block ends or begins. -/
def callSetBeginEnd (R : Renderer ρ) (p : Pgraph ρ) (call : Call) : Option (Pgraph ρ) :=
  (p.vertices.setBeginEnd p.control.isNopDraw call.parameter).map fun v =>
    { p with
      vertices := v
      aux :=
        if call.parameter = 0 then
          if p.vertices.primitiveMode = primTypeInvalid then p.aux
          else R.drawEnd p.control p.vertices p.aux
        else if p.vertices.primitiveMode ≠ primTypeInvalid then p.aux
        else R.drawBegin p.control v p.aux }.called call

/-- `DRAW_ARRAYS`. -/
def callDrawArrays (p : Pgraph ρ) (call : Call) : Option (Pgraph ρ) :=
  (p.vertices.drawArraysMethod call.parameter).map fun v => { p with vertices := v }.called call

def callOther (G : Gpu ρ) (p : Pgraph ρ) (cls : Word) (call : Call) : Option (Pgraph ρ) :=
  (G.other cls call.method call.parameter p.control).map fun e =>
    ({ p with
      control := { p.control with
        waitingForFlip := e.waitingForFlip
        waitingForNop := e.waitingForNop
        waitingForContextSwitch := e.waitingForContextSwitch }
      aux := G.otherAux cls call.method call.parameter p.control p.vertices p.aux }.regWs
        e.writes).called call

def callBatch (G : Gpu ρ) (m : KelvinMethod ρ) (subchannel : Word) (inc : Bool) :
    Nat → Nat → Word → Pgraph ρ → Option (Pgraph ρ)
  | 0, _, _, p => some p
  | n + 1, method, ptr, p =>
    (p.callBatched m ⟨subchannel, method, G.mem ptr⟩).bind
      (callBatch G m subchannel inc n (if inc then method + 4 else method) (ptr + 4))

/-- The squash condition after a `DRAW_ARRAYS` whose word is at `ptr`. -/
def Squashes (G : Gpu ρ) (p : Pgraph ρ) (ptr : Word) (lookahead : Nat) : Prop :=
  7 ≤ lookahead ∧ p.vertices.CanSquash ∧
    LookaheadMethod (G.mem (ptr + 4)) setBeginEnd ∧ G.mem (ptr + 8) = 0 ∧
    LookaheadMethod (G.mem (ptr + 12)) setBeginEnd ∧ G.mem (ptr + 16) = p.vertices.primitiveMode ∧
    LookaheadMethod (G.mem (ptr + 20)) drawArrays

instance (G : Gpu ρ) (p : Pgraph ρ) (ptr : Word) (lookahead : Nat) :
    Decidable (p.Squashes G ptr lookahead) :=
  inferInstanceAs (Decidable (_ ∧ _ ∧ _ ∧ _ ∧ _ ∧ _ ∧ _))

def preventConnect (p : Pgraph ρ) : Pgraph ρ := { p with vertices := p.vertices.squash }

end Pgraph

namespace KelvinMethod

def loops (m : KelvinMethod ρ) (inc : Bool) : Bool := m.nonInc != inc

def batchLength (m : KelvinMethod ρ) (method available : Nat) : Nat :=
  if m.nonInc then available else min available ((m.rangeEnd - method) / 4)

end KelvinMethod

/-- What `pgraph_method` did: how many words it took as parameters, and whether four more were
squashed. -/
structure Processed (ρ : Type) where
  pgraph : Pgraph ρ
  words : Nat
  squashed : Bool

def Processed.consumed (r : Processed ρ) : Nat := r.words + if r.squashed then 4 else 0

namespace Pgraph

def single (p : Pgraph ρ) : Processed ρ := ⟨p, 1, false⟩

/-- A Kelvin method. `squash` says whether the squash is enabled. -/
def kelvinMethod (G : Gpu ρ) (squash : Bool) (p : Pgraph ρ) (call : Call) (ptr : Word)
    (available lookahead : Nat) (inc : Bool) : Option (Processed ρ) :=
  match kelvinEntry G.toRenderer call.method with
  | .batched m =>
    if m.loops inc then
      let n := m.batchLength call.method available
      (callBatch G m call.subchannel inc n call.method ptr p).map (⟨·, n, false⟩)
    else (p.callBatched m call).map single
  | .setBeginEnd => (p.callSetBeginEnd G.toRenderer call).map single
  | .drawArrays => (p.callDrawArrays call).map fun p =>
    if squash ∧ p.Squashes G ptr lookahead then ⟨p.preventConnect, 1, true⟩ else p.single
  | .other => (p.callOther G kelvinPrimitive call).map single

/-- `NV_SET_OBJECT` loads the object's context into the cache of the subchannel. -/
def loadObject (G : Gpu ρ) (p : Pgraph ρ) (call : Call) : Option (Pgraph ρ) :=
  if call.method = 0 then
    if call.parameter.toNat < G.raminSize then
      let subchannel := call.subchannel.toNat
      some (p.regWs [
        (ctxCache 0 subchannel, G.ramin call.parameter),
        (ctxCache 1 subchannel, G.ramin (call.parameter + 4)),
        (ctxCache 2 subchannel, G.ramin (call.parameter + 8)),
        (ctxCache 3 subchannel, G.ramin (call.parameter + 12)),
        (ctxCache 4 subchannel, call.parameter)])
    else none
  else some p

def contextWrites (regs : Nat → Word) (subchannel : Word) : List (Nat × Word) :=
  (List.range 5).map fun i => (ctxSwitch i, regs (ctxCache i subchannel.toNat))

def inContext (p : Pgraph ρ) (subchannel : Word) : Pgraph ρ :=
  p.regWs (contextWrites p.control.regs subchannel)

def graphicsClass (p : Pgraph ρ) : Word := getMask (p.control.regs (ctxSwitch 0)) 0x000000FF

def dispatch (G : Gpu ρ) (squash : Bool) (p : Pgraph ρ) (call : Call) (ptr : Word)
    (available lookahead : Nat) (inc : Bool) : Option (Processed ρ) :=
  let p := p.inContext call.subchannel
  if call.subchannel ≠ 0 ∧ p.graphicsClass = kelvinPrimitive then none
  else if p.graphicsClass = kelvinPrimitive then
    p.kelvinMethod G squash call ptr available lookahead inc
  else (p.callOther G p.graphicsClass call).map single

def method (G : Gpu ρ) (squash : Bool) (p : Pgraph ρ) (call : Call) (ptr : Word)
    (available lookahead : Nat) (inc : Bool) : Option (Processed ρ) :=
  if getMask (p.control.regs ctxControl) 0x00010000 = 0 then none
  else (p.loadObject G call).bind fun p =>
    p.dispatch G squash call ptr available lookahead inc

def contextSwitch (p : Pgraph ρ) (channelId : Word) : Option (Pgraph ρ) :=
  let regs := p.control.regs
  if regs ctxControl &&& 0x00010000 ≠ 0 ∧ getMask (regs ctxUser) 0x1F000000 = channelId then some p
  else
    let p := p.regW 0x704 (setMask (regs 0x704) 0x01F00000 channelId)
    if getMask (regs 0x8C) 0x00000004 = 0 then
      some { p with control := { p.control with waitingForContextSwitch := true } }
    else none

end Pgraph

variable {R : Renderer ρ} {m bm : KelvinMethod ρ} {method words lookahead : Nat} {p q : Pgraph ρ}
  {call : Call} {inc squash : Bool} {G : Gpu ρ} {ptr : Word} {r : Processed ρ}

theorem Pgraph.loadObject_vertices (hp : p.loadObject G call = some q) : q.vertices = p.vertices := by
  unfold Pgraph.loadObject at hp
  split at hp
  · obtain ⟨-, ⟨⟩⟩ := ite_none_right_eq_some.mp hp
    exact regWs_vertices _ _
  · cases hp
    rfl

theorem not_covers_plain (hm : m ∈ batchedMethods R) : ¬m.Covers setBeginEnd ∧ ¬m.Covers drawArrays := by
  have hall : ∀ r ∈ batchedRanges, ¬(r.1 ≤ setBeginEnd ∧ setBeginEnd < r.2) ∧
      ¬(r.1 ≤ drawArrays ∧ drawArrays < r.2) := by decide +kernel
  rw [← map_batchedMethods R] at hall
  exact hall _ (List.mem_map_of_mem hm)

theorem kelvinEntry_eq_batched : kelvinEntry R method = .batched m ↔ m ∈ batchedMethods R ∧ m.Covers method := by
  constructor
  · intro h
    unfold kelvinEntry at h
    split at h
    · cases h
    split at h
    · cases h
    split at h
    · next m' hfind =>
      cases h
      have hcovers := List.find?_some hfind
      exact ⟨List.mem_of_find?_eq_some hfind, by simpa using hcovers⟩
    · cases h
  · rintro ⟨hm, hcovers⟩
    obtain ⟨hbegin, hdraw⟩ := not_covers_plain hm
    have hne : method ≠ setBeginEnd := by
      rintro rfl
      exact hbegin hcovers
    have hne' : method ≠ drawArrays := by
      rintro rfl
      exact hdraw hcovers
    rw [kelvinEntry, if_neg hne, if_neg hne', find_covers (batchedMethods_disjoint R) hm hcovers]

theorem kelvinEntry_eq_drawArrays (h : kelvinEntry R method = .drawArrays) : method = drawArrays := by
  unfold kelvinEntry at h
  split at h
  · cases h
  split at h
  · assumption
  split at h <;> cases h

/-- What a batched method leaves alone. -/
structure Quiet (c c' : Control) : Prop where
  regs : ∀ addr, ¬BatchWritable addr → c'.regs addr = c.regs addr
  waitingForFlip : c'.waitingForFlip = c.waitingForFlip
  waitingForNop : c'.waitingForNop = c.waitingForNop
  waitingForContextSwitch : c'.waitingForContextSwitch = c.waitingForContextSwitch

theorem callBatched_eq_some (h : p.callBatched m call = some q) :
    ∃ ws, m.writes ((call.method - m.base) / 4) call.parameter p.control.regs = some ws ∧
      q.control = { p.control with regs := Pgraph.writeRegs p.control.regs ws } ∧
      m.vertices.elim some (fun f => f ((call.method - m.base) / 4) call.parameter) p.vertices
        = some q.vertices ∧
      q.calls = p.calls ++ [call] := by
  obtain ⟨ws, hws, h⟩ := bind_eq_some_iff.mp h
  obtain ⟨v, hv, rfl⟩ := map_eq_some_iff.mp h
  refine ⟨ws, hws, Pgraph.regWs_control _ ws, ?_, ?_⟩
  · simpa [Pgraph.called] using hv
  · simp [Pgraph.called]

theorem callBatched_quiet (h : p.callBatched m call = some q) (hcovers : m.Covers call.method) :
    Quiet p.control q.control := by
  obtain ⟨ws, hws, hcontrol, -, -⟩ := callBatched_eq_some h
  have hslot : (call.method - m.base) / 4 < m.words := by
    have := hcovers.2
    unfold KelvinMethod.rangeEnd at this
    have := hcovers.1
    omega
  rw [hcontrol]
  refine ⟨fun addr haddr => ?_, rfl, rfl, rfl⟩
  apply Pgraph.writeRegs_of_not_mem
  intro w hw heq
  exact haddr (heq ▸ m.writable _ _ _ _ hslot hws w hw)

theorem batchLength_le (available : Nat) (hcovers : bm.Covers method) (hloops : bm.loops inc) :
    bm.batchLength method available ≤ available ∧
      (inc → method + 4 * bm.batchLength method available ≤ bm.rangeEnd) := by
  have hlt := hcovers.2
  unfold KelvinMethod.batchLength
  split
  · next hnonInc =>
    refine ⟨le_rfl, fun hinc => ?_⟩
    simp [KelvinMethod.loops, hnonInc, hinc] at hloops
  · refine ⟨min_le_left _ _, fun _ => ?_⟩
    omega

theorem batchLength_pos {available : Nat} (hcovers : bm.Covers method) (hbase : 4 ∣ bm.base)
    (hdvd : 4 ∣ method) (havailable : 0 < available) : 0 < bm.batchLength method available := by
  have hlt := hcovers.2
  unfold KelvinMethod.batchLength
  split
  · exact havailable
  · have : 0 < (bm.rangeEnd - method) / 4 := by
      unfold KelvinMethod.rangeEnd at hlt ⊢
      omega
    exact lt_min havailable this

/-- What the squash has seen behind the word at `ptr`, apart from the primitive type. -/
structure Peeked (G : Gpu ρ) (ptr : Word) : Prop where
  endMethod : LookaheadMethod (G.mem (ptr + 4)) setBeginEnd
  endParameter : G.mem (ptr + 8) = 0
  beginMethod : LookaheadMethod (G.mem (ptr + 12)) setBeginEnd

/-- A method takes at least one of the words it was given and no address behind the last one, and
squashes only behind a `DRAW_ARRAYS`. -/
structure TakesWords (G : Gpu ρ) (squash : Bool) (call : Call) (ptr : Word) (words : Nat) (inc : Bool)
    (n : Nat) (squashed : Bool) : Prop where
  pos : 0 < n
  le : n ≤ words
  range : inc → call.method + 4 * n ≤ 0x2000
  squashes : squashed → squash = true ∧ n = 1 ∧ call.method = drawArrays ∧ Peeked G ptr

theorem takesWords_one (G : Gpu ρ) (squash : Bool) (ptr : Word) (inc : Bool) (hwords : 0 < words)
    (hdvd : 4 ∣ call.method) (hlt : call.method < 0x2000) :
    TakesWords G squash call ptr words inc 1 false :=
  ⟨Nat.one_pos, hwords, fun _ => by omega, nofun⟩

theorem kelvinMethod_takesWords (h : p.kelvinMethod G squash call ptr words lookahead inc = some r) (hwords : 0 < words)
    (hdvd : 4 ∣ call.method) (hlt : call.method < 0x2000) :
    TakesWords G squash call ptr words inc r.words r.squashed := by
  have hone := takesWords_one G squash ptr inc hwords hdvd hlt
  unfold Pgraph.kelvinMethod at h
  split at h
  · next bm hentry =>
    obtain ⟨hmem, hcovers⟩ := kelvinEntry_eq_batched.mp hentry
    obtain ⟨-, hend, hbase⟩ := batchedMethods_bounds hmem
    split at h
    · next hloops =>
      obtain ⟨q, -, rfl⟩ := map_eq_some_iff.mp h
      obtain ⟨hle, hrange⟩ := batchLength_le words hcovers hloops
      exact ⟨batchLength_pos hcovers hbase hdvd hwords, hle, fun hinc => (hrange hinc).trans hend, nofun⟩
    · obtain ⟨q, -, rfl⟩ := map_eq_some_iff.mp h
      exact hone
  · obtain ⟨q, -, rfl⟩ := map_eq_some_iff.mp h
    exact hone
  · next hentry =>
    obtain ⟨q, -, rfl⟩ := map_eq_some_iff.mp h
    split
    · next hsquash =>
      obtain ⟨henabled, -, -, hend, hparameter, hbegin, -, -⟩ := hsquash
      exact ⟨Nat.one_pos, hwords, hone.range, fun _ => ⟨henabled, rfl,
        kelvinEntry_eq_drawArrays hentry, hend, hparameter, hbegin⟩⟩
    · exact hone
  · obtain ⟨q, -, rfl⟩ := map_eq_some_iff.mp h
    exact hone

theorem method_takesWords (h : p.method G squash call ptr words lookahead inc = some r)
    (hwords : 0 < words) (hdvd : 4 ∣ call.method) (hlt : call.method < 0x2000) :
    TakesWords G squash call ptr words inc r.words r.squashed := by
  obtain ⟨-, h⟩ := ite_none_left_eq_some.mp h
  obtain ⟨q, -, h⟩ := bind_eq_some_iff.mp h
  obtain ⟨-, h⟩ := ite_none_left_eq_some.mp h
  split at h
  · exact kelvinMethod_takesWords h hwords hdvd hlt
  · obtain ⟨q', -, rfl⟩ := map_eq_some_iff.mp h
    exact takesWords_one G squash ptr inc hwords hdvd hlt

end XogMobile.Nv2a
