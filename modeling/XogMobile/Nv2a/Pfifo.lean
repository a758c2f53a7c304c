import XogMobile.Nv2a.PgraphMethod

/-!
# The FIFO engine

`pfifo_run_pusher` reads the push buffer and gives the data words of commands to `pfifo_run_puller`,
which calls `pgraph_method`. One event of the machine is one pass of the pusher's loop; between passes
the guest may write `DMA_PUT`, and the control state of PGRAPH may change. A puller that stalls ends
the loop, and a later `enter` takes it up where the registers say. `trace` records what was consumed.
-/

namespace XogMobile.Nv2a

open Lib Option BitVec Bool Nat

variable {ρ : Type}

@[ext] structure Pfifo where
  (mode push0 push1 pull0 pull1 engine status dmaPush dmaState dmaSubroutine dmaGet dmaPut : Word)
  (dmaDcount dataShadow rsvdShadow jmpShadow : Word)
  deriving DecidableEq

def methodTypeMask : Word := 0x00000001
def methodMask : Word := 0x00001FFC
def subchannelMask : Word := 0x0000E000
def methodCountMask : Word := 0x1FFC0000
def errorMask : Word := 0xE0000000

/-- The state of `DMA_SUBROUTINE`. -/
def subroutineMask : Word := 0x00000001

def lowMark : Word := 0x00000010

namespace Pfifo

def inc (f : Pfifo) : Bool := getMask f.dmaState methodTypeMask == 0

def method (f : Pfifo) : Nat := (getMask f.dmaState methodMask).toNat * 4

def subchannel (f : Pfifo) : Word := getMask f.dmaState subchannelMask

def methodCount (f : Pfifo) : Nat := (getMask f.dmaState methodCountMask).toNat

def error (f : Pfifo) : Word := getMask f.dmaState errorMask

def inSubroutine (f : Pfifo) : Bool := getMask f.dmaSubroutine subroutineMask != 0

def available (f : Pfifo) : Nat := (f.dmaPut - f.dmaGet).toNat / 4

end Pfifo

/-- What the pusher consumed: a data word, or the four words of a squash. -/
inductive Entry where
  | data (call : Call)
  | squashed (words : List Word)
  deriving DecidableEq

/-- `trace` has the words as the pusher hands them to the puller; `Pgraph.calls` has what the handlers are
then called with, which for an object is its instance and not its handle. -/
structure Machine (ρ : Type) where
  pfifo : Pfifo
  pgraph : Pgraph ρ
  running : Bool
  trace : List Entry

def Control.canFifoAccess (c : Control) : Bool := c.regs 0x720 &&& 0x00000001 != 0

def Control.isFlipStallComplete (c : Control) : Bool :=
  getMask (c.regs 0x710) 0x07000000 != getMask (c.regs 0x710) 0x00700000

/-- The effect of `pfifo_stall_for_flip` on the flag. -/
def Control.pollFlip (c : Control) : Control :=
  { c with waitingForFlip := c.waitingForFlip && !c.isFlipStallComplete }

/-- `pfifo_puller_should_stall`, after the flip has been polled. -/
def Control.pullerShouldStall (c : Control) : Bool :=
  c.waitingForFlip || c.waitingForNop || c.waitingForContextSwitch || !c.canFifoAccess

def Control.pusherShouldStall (c : Control) : Bool := !c.canFifoAccess || c.waitingForNop

def engineGraphics : Word := 1

def engineMask (subchannel : Word) : Word := 3 <<< (4 * subchannel.toNat)

structure Pulled (ρ : Type) where
  pfifo : Pfifo
  pgraph : Pgraph ρ
  result : Option (Nat × Bool)

namespace Pfifo

/-- The parameter a method gets: methods that take objects get the address of the instance. -/
def methodParameter (G : Gpu ρ) (method : Nat) (parameter : Word) : Option Word :=
  if 0x180 ≤ method ∧ method < 0x200 then (G.ramht parameter).map (·.instanceAddr)
  else some parameter

def pulled (f : Pfifo) (r : Processed ρ) : Pulled ρ where
  pfifo := { f with status := if 0 < r.consumed then f.status ||| lowMark else f.status }
  pgraph := r.pgraph
  result := some (r.words, r.squashed)

/-- `pfifo_run_puller`. `lost` says that FIFO access is lost while no lock is held. -/
def runPuller (G : Gpu ρ) (squash lost : Bool) (f : Pfifo) (p : Pgraph ρ) (call : Call) (ptr : Word)
    (words lookahead : Nat) (inc : Bool) : Option (Pulled ρ) :=
  let p := { p with control := p.control.pollFlip }
  if p.control.pullerShouldStall then some ⟨f, p, none⟩
  else if getMask f.pull0 0x00000001 = 0 ∨ f.status &&& lowMark ≠ 0 then some ⟨f, p, none⟩
  else if call.method = 0 then
    (G.ramht call.parameter).bind fun entry =>
      if entry.engine = engineGraphics then
        let f := { f with
          engine := setMask f.engine (engineMask call.subchannel) entry.engine
          pull1 := setMask f.pull1 0x00000003 entry.engine }
        if lost then some ⟨f, p, none⟩
        else (p.contextSwitch entry.channelId).bind fun p =>
          if p.control.waitingForContextSwitch then some ⟨f, p, none⟩
          else (p.method G squash { call with parameter := entry.instanceAddr } ptr words lookahead
            inc).map f.pulled
      else none
  else if 0x100 ≤ call.method then
    (methodParameter G call.method call.parameter).bind fun parameter =>
      let engine := getMask f.engine (engineMask call.subchannel)
      if engine = engineGraphics then
        let f := { f with pull1 := setMask f.pull1 0x00000003 engine }
        if lost then some ⟨f, p, none⟩
        else (p.method G squash { call with parameter := parameter } ptr words lookahead inc).map
          f.pulled
      else none
  else none

def advance (f : Pfifo) (n : Nat) : Pfifo :=
  let state :=
    if f.inc then setMask f.dmaState methodMask (BitVec.ofNat 32 (f.method / 4 + n)) else f.dmaState
  { f with
    dmaGet := f.dmaGet + 4 * BitVec.ofNat 32 n
    dmaState := setMask state methodCountMask (BitVec.ofNat 32 (f.methodCount - n))
    dmaDcount := f.dmaDcount + BitVec.ofNat 32 n }

/-- The fields of a method header. `type` is 0 for an increasing command and 1 for the other. -/
def command (f : Pfifo) (w type : Word) : Pfifo :=
  let state := setMask f.dmaState methodMask ((w &&& 0x1FFF) >>> 2)
  let state := setMask state subchannelMask ((w >>> 13) &&& 7)
  let state := setMask state methodCountMask ((w >>> 18) &&& 0x7FF)
  { f with
    dmaGet := f.dmaGet + 4
    dmaState := setMask state methodTypeMask type
    dmaDcount := 0 }

/-- The first word of a new command. A call inside a subroutine, a return outside of one and a
reserved command set an error, and the pusher asserts that there is none. -/
def header (f : Pfifo) (w : Word) : Option Pfifo :=
  let next := f.dmaGet + 4
  let f := { f with rsvdShadow := w }
  if w &&& 0xE0000003 = 0x20000000 then
    some { f with jmpShadow := next, dmaGet := w &&& 0x1FFFFFFF }  -- old jump
  else if w &&& 3 = 1 then
    some { f with jmpShadow := next, dmaGet := w &&& 0xFFFFFFFC }  -- jump
  else if w &&& 3 = 2 then  -- call
    if f.inSubroutine then none
    else some { f with
      dmaSubroutine := setMask next subroutineMask 1
      dmaGet := w &&& 0xFFFFFFFC }
  else if w = 0x00020000 then  -- return
    if f.inSubroutine then
      some { f with
        dmaGet := f.dmaSubroutine &&& 0xFFFFFFFC
        dmaSubroutine := setMask f.dmaSubroutine subroutineMask 0 }
    else none
  else if w &&& 0xE0030003 = 0 then some (f.command w 0)
  else if w &&& 0xE0030003 = 0x40000000 then some (f.command w 1)
  else none

end Pfifo

namespace Machine

def dataEntry (G : Gpu ρ) (f : Pfifo) (i : Nat) : Entry :=
  .data ⟨f.subchannel, if f.inc then f.method + 4 * i else f.method,
    G.mem (f.dmaGet + 4 * BitVec.ofNat 32 i)⟩

def consumed (G : Gpu ρ) (f : Pfifo) (n : Nat) (squashed : Bool) : List Entry :=
  (List.range n).map (dataEntry G f) ++
    if squashed then
      [.squashed [G.mem (f.dmaGet + 4), G.mem (f.dmaGet + 8), G.mem (f.dmaGet + 12),
        G.mem (f.dmaGet + 16)]]
    else []

def call (G : Gpu ρ) (m : Machine ρ) : Call :=
  ⟨m.pfifo.subchannel, m.pfifo.method, G.mem m.pfifo.dmaGet⟩

def dataPfifo (G : Gpu ρ) (m : Machine ρ) : Pfifo :=
  { m.pfifo with
    dataShadow := G.mem m.pfifo.dmaGet
    status := m.pfifo.status &&& ~~~lowMark }

def afterPull (G : Gpu ρ) (m : Machine ρ) (r : Pulled ρ) : Machine ρ × Bool :=
  match r.result with
  | none => ({ m with pfifo := r.pfifo, pgraph := r.pgraph }, false)
  | some (n, squashed) =>
    ({ m with
      pfifo := r.pfifo.advance (n + if squashed then 4 else 0)
      pgraph := r.pgraph
      trace := m.trace ++ consumed G m.pfifo n squashed }, true)

/-- The branch for a data word. `words` is `num_words_available`. -/
def dataWord (G : Gpu ρ) (squash lost : Bool) (words : Nat) (m : Machine ρ) :
    Option (Machine ρ × Bool) :=
  ((m.dataPfifo G).runPuller G squash lost m.pgraph (m.call G) m.pfifo.dmaGet words
    m.pfifo.available m.pfifo.inc).map (m.afterPull G)

def proceed (m : Machine ρ) (running : Bool) : Option (Machine ρ) :=
  if m.pfifo.error = 0 then some { m with running := running } else none

def enter (m : Machine ρ) : Option (Machine ρ) :=
  let f := m.pfifo
  if m.running then none
  else if getMask f.push0 0x00000001 = 0 ∨ getMask f.dmaPush 0x00000001 = 0 ∨
      getMask f.dmaPush 0x00001000 ≠ 0 then some m
  else if f.mode &&& (1 <<< (getMask f.push1 0x0000001F).toNat) ≠ 0 ∧
      getMask f.push1 0x00000100 = 1 then m.proceed true
  else none

def iterate (G : Gpu ρ) (squash lost : Bool) (m : Machine ρ) : Option (Machine ρ) :=
  let f := m.pfifo
  if m.running then
    if m.pgraph.control.pusherShouldStall ∨ f.dmaGet = f.dmaPut then m.proceed false
    else if f.dmaGet.toNat < G.dmaLen ∧ (f.dmaPut - f.dmaGet).toNat % 4 = 0 then
      if f.methodCount ≠ 0 then
        (m.dataWord G squash lost (min f.methodCount f.available)).bind fun r => r.1.proceed r.2
      else (f.header (G.mem f.dmaGet)).bind fun f => { m with pfifo := f }.proceed true
    else none
  else none

end Machine

inductive FifoEvent where
  | enter
  | iterate (lost : Bool)
  | put (v : Word)
  | control (c : Control)

/-- One step of the machine. `control` is what the guest and the interrupt handlers do. -/
def Machine.step (G : Gpu ρ) (squash : Bool) (m : Machine ρ) : FifoEvent → Option (Machine ρ)
  | .enter => m.enter
  | .iterate lost => m.iterate G squash lost
  | .put v => some { m with pfifo := { m.pfifo with dmaPut := v } }
  | .control c => some { m with pgraph := { m.pgraph with control := c } }

def bufferGpu (words : List Word) : Gpu Unit where
  drawBegin _ _ a := a
  drawEnd _ _ a := a
  flushDraw _ _ a := a
  mem addr := words.getD (addr.toNat / 4) 0
  dmaLen := 4 * words.length
  ramht _ := none
  ramin _ := 0
  raminSize := 0
  other _ _ _ c := some ⟨[], c.waitingForFlip, c.waitingForNop, c.waitingForContextSwitch⟩
  otherAux _ _ _ _ _ a := a

def bufferMachine (words : List Word) : Machine Unit where
  pfifo := {
    mode := 1, push0 := 1, push1 := 0x100, pull0 := 1, pull1 := 0, engine := 1, status := 0
    dmaPush := 1, dmaState := 0, dmaSubroutine := 0, dmaGet := 0
    dmaPut := BitVec.ofNat 32 (4 * words.length), dmaDcount := 0, dataShadow := 0
    rsvdShadow := 0, jmpShadow := 0 }
  pgraph := {
    control := {
      regs := fun addr =>
        if addr = ctxControl then 0x10000 else if addr = ctxCache 0 0 then kelvinPrimitive
        else if addr = 0x720 then 1 else 0
      waitingForFlip := false, waitingForNop := false, waitingForContextSwitch := false }
    vertices := .initial
    aux := {
      regsDirty := fun _ => false, vshConstants := ⟨fun _ _ => 0, fun _ => false⟩
      programData := fun _ _ => 0, programDataDirty := false
      ltctxa := ⟨fun _ _ => 0, fun _ => false⟩, ltctxb := ⟨fun _ _ => 0, fun _ => false⟩
      ltc1 := ⟨fun _ _ => 0, fun _ => false⟩, lightInfiniteHalfVector := fun _ _ => .zero
      lightInfiniteDirection := fun _ _ => .zero, lightLocalPosition := fun _ _ => .zero
      lightLocalAttenuation := fun _ _ => .zero, specularParams := fun _ => .zero
      specularPower := .zero, specularParamsBack := fun _ => .zero, specularPowerBack := .zero
      pointParams := fun _ => .zero, textureMatrixEnable := fun _ => false
      vertexStateShaderV0 := fun _ => 0
      vertexAttributes := fun _ =>
        ⟨false, 0, 0, 0, 0, 0, fun _ => .zero, false, fun _ _ => .zero⟩
      compressedAttrs := 0, renderer := () }
    calls := [] }
  running := false
  trace := []

theorem lowMark_cleared (w : Word) : w &&& ~~~lowMark &&& lowMark = 0 := by
  ext i hi
  grind

/-- The puller gets to PGRAPH. -/
structure PullerGoes (f : Pfifo) (c : Control) : Prop where
  goes : c.pullerShouldStall = false
  pull0 : getMask f.pull0 0x00000001 ≠ 0
  engine : getMask f.engine (engineMask f.subchannel) = engineGraphics

variable {G : Gpu ρ} {squash inc : Bool} {f : Pfifo} {p : Pgraph ρ} {ptr : Word}
  {words lookahead : Nat}

theorem runPuller_of_goes (call : Call) (h : PullerGoes f p.control.pollFlip)
    (hlow : f.status &&& lowMark = 0) (hsubchannel : call.subchannel = f.subchannel)
    (hmethod : 0x200 ≤ call.method) :
    f.runPuller G squash false p call ptr words lookahead inc
      = ({ p with control := p.control.pollFlip }.method G squash call ptr words lookahead inc).map
          { f with pull1 := setMask f.pull1 0x00000003 engineGraphics }.pulled := by
  have hobject : Pfifo.methodParameter G call.method call.parameter = some call.parameter := if_neg (by omega)
  have hstall : ¬(getMask f.pull0 0x00000001 = 0 ∨ f.status &&& lowMark ≠ 0) := by
    rintro (h0 | h0)
    · exact h.pull0 h0
    · exact h0 hlow
  unfold Pfifo.runPuller
  simp only [h.goes, false_eq_true, if_false, hobject, bind_some, hsubchannel, h.engine]
  rw [if_neg hstall, if_neg (by omega), if_pos (by omega), ← hsubchannel]
  simp only [if_true]

theorem runPuller_of_not_goes {G' : Gpu ρ} {squash' lost : Bool} {call : Call} {words' : Nat}
    (h : ¬(lost = false ∧ PullerGoes f p.control.pollFlip))
    (hsubchannel : call.subchannel = f.subchannel) (hmethod : 0x200 ≤ call.method) :
    f.runPuller G squash lost p call ptr words lookahead inc
      = f.runPuller G' squash' lost p call ptr words' lookahead inc := by
  have hmethod0 : call.method ≠ 0 := by omega
  have hobject (G : Gpu ρ) : Pfifo.methodParameter G call.method call.parameter = some call.parameter :=
    if_neg (by omega)
  unfold Pfifo.runPuller
  simp only [hmethod0, if_false, hobject, bind_some]
  by_cases hstall : p.control.pollFlip.pullerShouldStall = true
  · simp only [hstall, if_true]
  by_cases hpull0 : getMask f.pull0 0x00000001 = 0 ∨ f.status &&& lowMark ≠ 0
  · simp only [hpull0, if_true]
  by_cases hengine : getMask f.engine (engineMask call.subchannel) = engineGraphics
  · have hlost : lost = true := by
      apply eq_true_of_not_eq_false
      intro hlost
      rw [hsubchannel] at hengine
      exact h ⟨hlost, eq_false_of_not_eq_true hstall, fun h0 => hpull0 (.inl h0), hengine⟩
    simp only [hlost, if_true]
  · simp only [hengine, if_false]

namespace Machine

def polled (m : Machine ρ) : Pgraph ρ := { m.pgraph with control := m.pgraph.control.pollFlip }

def afterData (G : Gpu ρ) (m : Machine ρ) (r : Processed ρ) : Machine ρ :=
  { m with
    pfifo := ({ m.pfifo with
      dataShadow := G.mem m.pfifo.dmaGet
      status := m.pfifo.status &&& ~~~lowMark
      pull1 := setMask m.pfifo.pull1 0x00000003 engineGraphics }.pulled r).pfifo.advance r.consumed
    pgraph := r.pgraph
    trace := m.trace ++ consumed G m.pfifo r.words r.squashed }

theorem dataWord_of_goes {G : Gpu ρ} {squash : Bool} {words : Nat} {m : Machine ρ}
    (h : PullerGoes m.pfifo m.polled.control) (hmethod : 0x200 ≤ m.pfifo.method) :
    m.dataWord G squash false words
      = (m.polled.method G squash (m.call G) m.pfifo.dmaGet words m.pfifo.available
          m.pfifo.inc).map fun r => (m.afterData G r, true) := by
  have hgoes : PullerGoes (m.dataPfifo G) m.pgraph.control.pollFlip := { h with }
  rw [dataWord, runPuller_of_goes (m.call G) hgoes (lowMark_cleared _) rfl hmethod, map_map]
  rfl

end Machine

theorem methodMask_width : methodMask >>> methodMask.ctz.toNat = 0x7FF := by decide +kernel

theorem methodCountMask_width : methodCountMask >>> methodCountMask.ctz.toNat = 0x7FF := by
  decide +kernel

namespace Pfifo

variable (f : Pfifo)

theorem methodCount_lt : f.methodCount < 2048 := by
  have hle := getMask_toNat_le f.dmaState methodCountMask
  rw [methodCountMask_width] at hle
  exact lt_succ_of_le hle

theorem method_lt : f.method < 8192 := by
  have hle := getMask_toNat_le f.dmaState methodMask
  rw [methodMask_width] at hle
  have hmax : (getMask f.dmaState methodMask).toNat ≤ 2047 := hle
  unfold method
  omega

theorem method_dvd : 4 ∣ f.method := Dvd.intro_left _ rfl

theorem subchannel_lt : f.subchannel.toNat < 8 := by
  have hle := getMask_toNat_le f.dmaState subchannelMask
  have hwidth : subchannelMask >>> subchannelMask.ctz.toNat = 0x7 := by decide +kernel
  rw [hwidth] at hle
  exact lt_succ_of_le hle

theorem getMask_advance {mask : Word} (n : Nat) (hmethod : methodMask &&& mask = 0)
    (hcount : methodCountMask &&& mask = 0) :
    getMask (f.advance n).dmaState mask = getMask f.dmaState mask := by
  simp only [advance]
  rw [getMask_setMask_of_disjoint _ _ hcount]
  split
  · exact getMask_setMask_of_disjoint _ _ hmethod
  · rfl

theorem advance_inc (n : Nat) : (f.advance n).inc = f.inc := by
  rw [inc, inc, getMask_advance f n (by decide) (by decide)]

theorem advance_subchannel (n : Nat) : (f.advance n).subchannel = f.subchannel :=
  getMask_advance f n (by decide) (by decide)

theorem advance_error (n : Nat) : (f.advance n).error = f.error := getMask_advance f n (by decide) (by decide)

theorem advance_methodCount (n : Nat) : (f.advance n).methodCount = f.methodCount - n := by
  have hlt := f.methodCount_lt
  rw [methodCount, advance, getMask_setMask, methodCountMask_width, toNat_and, toNat_ofNat, mod_eq_of_lt (by omega)]
  exact (and_two_pow_sub_one_eq_mod _ 11).trans (mod_eq_of_lt (by omega))

theorem advance_method (n : Nat) :
    (f.advance n).method = if f.inc then (f.method / 4 + n) % 2048 * 4 else f.method := by
  rw [method, advance]
  rw [getMask_setMask_of_disjoint _ _ (by decide : methodCountMask &&& methodMask = 0)]
  split
  · rw [getMask_setMask, methodMask_width, toNat_and, toNat_ofNat,
      show (0x7FF : Word).toNat = 2 ^ 11 - 1 from rfl, and_two_pow_sub_one_eq_mod,
      mod_mod_of_dvd _ (Nat.pow_dvd_pow 2 (by omega))]
  · rfl

variable {n : Nat}

theorem advance_distance (h : n ≤ f.available) :
    ((f.advance n).dmaPut - (f.advance n).dmaGet).toNat = (f.dmaPut - f.dmaGet).toNat - 4 * n := by
  unfold available at h
  have hsplit : (f.advance n).dmaPut - (f.advance n).dmaGet
      = f.dmaPut - f.dmaGet - 4 * BitVec.ofNat 32 n := by
    simp only [advance]
    bv_omega
  rw [hsplit]
  bv_omega

theorem advance_available (h : n ≤ f.available) : (f.advance n).available = f.available - n := by
  rw [available, advance_distance f h, available]
  omega

theorem advance_method_of_lt (h : f.inc → f.method + 4 * n < 8192) :
    (f.advance n).method = if f.inc then f.method + 4 * n else f.method := by
  have hdvd := f.method_dvd
  rw [advance_method]
  split
  · next hinc =>
    have := h hinc
    omega
  · rfl

theorem advance_advance {a b : Nat} (hwrap : f.inc → f.method / 4 + a < 2048) :
    (f.advance a).advance b = f.advance (a + b) := by
  have hinc := f.advance_inc a
  have hcount := f.advance_methodCount a
  have hmethod := f.advance_method a
  have hstate : ((f.advance a).advance b).dmaState = (f.advance (a + b)).dmaState := by
    rw [advance, hinc, hcount, hmethod]
    simp only [advance]
    cases hi : f.inc with
    | true =>
      have hlt := hwrap hi
      simp only [if_true, mod_eq_of_lt hlt, Nat.mul_div_cancel _ (by omega : 0 < 4)]
      rw [setMask_comm _ _ _ (by decide : methodCountMask &&& methodMask = 0), setMask_setMask,
        setMask_setMask, add_assoc, Nat.sub_sub]
    | false => simp only [false_eq_true, if_false, setMask_setMask, Nat.sub_sub]
  have hget : ((f.advance a).advance b).dmaGet = (f.advance (a + b)).dmaGet := by
    simp only [advance, ofNat_add, mul_add, add_assoc]
  have hdcount : ((f.advance a).advance b).dmaDcount = (f.advance (a + b)).dmaDcount := by
    simp only [advance, ofNat_add, add_assoc]
  exact Pfifo.ext rfl rfl rfl rfl rfl rfl rfl rfl hstate rfl hget rfl hdcount rfl rfl rfl

end Pfifo

namespace Machine

theorem dataEntry_succ (G : Gpu ρ) (f : Pfifo) (i : Nat) (hwrap : f.inc → f.method + 4 < 8192) :
    dataEntry G f (i + 1) = dataEntry G (f.advance 1) i := by
  have hmethod := f.advance_method_of_lt (n := 1) hwrap
  have hget : f.dmaGet + 4 * BitVec.ofNat 32 (i + 1)
      = (f.advance 1).dmaGet + 4 * BitVec.ofNat 32 i := by
    simp only [Pfifo.advance, add_comm i 1, ofNat_add, mul_add, add_assoc]
  have haddr : (if f.inc then f.method + 4 * (i + 1) else f.method)
      = if (f.advance 1).inc then (f.advance 1).method + 4 * i else (f.advance 1).method := by
    rw [f.advance_inc, hmethod]
    split <;> omega
  rw [dataEntry, dataEntry, hget, haddr, f.advance_subchannel]

theorem consumed_succ (G : Gpu ρ) (f : Pfifo) (n : Nat) (hwrap : f.inc → f.method + 4 < 8192) :
    consumed G f (n + 1) false = consumed G f 1 false ++ consumed G (f.advance 1) n false := by
  have hrest : dataEntry G f ∘ succ = dataEntry G (f.advance 1) := funext fun i => dataEntry_succ G f i hwrap
  simp [consumed, List.range_succ_eq_map, hrest]

end Machine

structure SamePlace (f f' : Pfifo) : Prop where
  dmaState : f'.dmaState = f.dmaState
  dmaGet : f'.dmaGet = f.dmaGet
  dmaPut : f'.dmaPut = f.dmaPut
  dmaSubroutine : f'.dmaSubroutine = f.dmaSubroutine

theorem SamePlace.refl (f : Pfifo) : SamePlace f f := ⟨rfl, rfl, rfl, rfl⟩

variable {f : Pfifo} {G : Gpu ρ} {squash lost inc : Bool} {p : Pgraph ρ} {call : Call}
  {ptr : Word} {words lookahead : Nat} {r : Pulled ρ} {m m' : Machine ρ}

theorem SamePlace.advance {f' : Pfifo} (h : SamePlace f f') (n : Nat) : SamePlace (f.advance n) (f'.advance n) := by
  have hinc : f'.inc = f.inc := by rw [Pfifo.inc, h.dmaState, ← Pfifo.inc]
  have hmethod : f'.method = f.method := by rw [Pfifo.method, h.dmaState, ← Pfifo.method]
  have hcount : f'.methodCount = f.methodCount := by
    rw [Pfifo.methodCount, h.dmaState, ← Pfifo.methodCount]
  refine ⟨?_, ?_, h.dmaPut, h.dmaSubroutine⟩
  · simp only [Pfifo.advance, hinc, hmethod, hcount, h.dmaState]
  · simp only [Pfifo.advance, h.dmaGet]

theorem runPuller_method (h : f.runPuller G squash lost p call ptr words lookahead inc = some r) : SamePlace f r.pfifo ∧
      ∀ n squashed, r.result = some (n, squashed) → ∃ (q : Pgraph ρ) (parameter : Word) (processed : Processed ρ),
          q.method G squash { call with parameter := parameter } ptr words lookahead inc = some processed ∧
            processed.words = n ∧ processed.squashed = squashed := by
  have hsame : ∀ engine pull1 status : Word,
      SamePlace f { f with engine := engine, pull1 := pull1, status := status } :=
    fun _ _ _ => ⟨rfl, rfl, rfl, rfl⟩
  dsimp only [Pfifo.runPuller] at h
  split at h
  · cases h
    exact ⟨.refl f, nofun⟩
  split at h
  · cases h
    exact ⟨.refl f, nofun⟩
  split at h
  · obtain ⟨entry, -, h⟩ := bind_eq_some_iff.mp h
    obtain ⟨-, h⟩ := ite_none_right_eq_some.mp h
    split at h
    · cases h
      exact ⟨hsame _ _ _, nofun⟩
    obtain ⟨q, -, h⟩ := bind_eq_some_iff.mp h
    split at h
    · cases h
      exact ⟨hsame _ _ _, nofun⟩
    obtain ⟨processed, hprocessed, rfl⟩ := map_eq_some_iff.mp h
    refine ⟨hsame _ _ _, ?_⟩
    rintro n squashed ⟨⟩
    exact ⟨q, _, processed, hprocessed, rfl, rfl⟩
  split at h
  · obtain ⟨parameter, -, h⟩ := bind_eq_some_iff.mp h
    obtain ⟨-, h⟩ := ite_none_right_eq_some.mp h
    split at h
    · cases h
      exact ⟨hsame _ _ _, nofun⟩
    obtain ⟨processed, hprocessed, rfl⟩ := map_eq_some_iff.mp h
    refine ⟨hsame _ _ _, ?_⟩
    rintro n squashed ⟨⟩
    exact ⟨_, parameter, processed, hprocessed, rfl, rfl⟩
  · cases h

theorem runPuller_spec (h : f.runPuller G squash lost p call ptr words lookahead inc = some r)
    (hwords : 0 < words) (hdvd : 4 ∣ call.method) (hlt : call.method < 0x2000) :
    SamePlace f r.pfifo ∧ ∀ n squashed, r.result = some (n, squashed) →
        TakesWords G squash call ptr words inc n squashed := by
  obtain ⟨hplace, hmethod⟩ := runPuller_method h
  refine ⟨hplace, fun n squashed hresult => ?_⟩
  obtain ⟨q, parameter, processed, hprocessed, rfl, rfl⟩ := hmethod n squashed hresult
  have htakes := method_takesWords hprocessed hwords hdvd hlt
  exact { htakes with }

/-- Data words are left where they are, or consumed and recorded. -/
inductive DataStep (G : Gpu ρ) (squash : Bool) (words : Nat) (m m' : Machine ρ) : Bool → Prop where
  | stalled (place : SamePlace m.pfifo m'.pfifo) (trace : m'.trace = m.trace) :
      DataStep G squash words m m' false
  | processed (n : Nat) (squashed : Bool)
      (takes : TakesWords G squash (m.call G) m.pfifo.dmaGet words m.pfifo.inc n squashed)
      (place : SamePlace (m.pfifo.advance (n + if squashed then 4 else 0)) m'.pfifo)
      (trace : m'.trace = m.trace ++ Machine.consumed G m.pfifo n squashed) :
      DataStep G squash words m m' true

theorem dataWord_spec {progress : Bool} (hwords : 0 < words)
    (h : m.dataWord G squash lost words = some (m', progress)) :
    DataStep G squash words m m' progress := by
  obtain ⟨r, hr, heq⟩ := map_eq_some_iff.mp h
  obtain ⟨hplace, htakes⟩ := runPuller_spec hr hwords m.pfifo.method_dvd m.pfifo.method_lt
  have hplace' : SamePlace m.pfifo r.pfifo := { hplace with }
  unfold Machine.afterPull at heq
  split at heq
  · cases heq
    exact .stalled hplace' rfl
  · next n squashed hresult =>
    cases heq
    exact .processed n squashed (htakes n squashed hresult) (hplace'.advance _) rfl

/-- The pusher reads a word in this pass. -/
@[mk_iff] structure Reading (G : Gpu ρ) (m : Machine ρ) : Prop where
  running : m.running = true
  goes : m.pgraph.control.pusherShouldStall = false
  ne : m.pfifo.dmaGet ≠ m.pfifo.dmaPut
  inside : m.pfifo.dmaGet.toNat < G.dmaLen
  whole : (m.pfifo.dmaPut - m.pfifo.dmaGet).toNat % 4 = 0

theorem Reading.available_pos (h : Reading G m) : 0 < m.pfifo.available := by
  have hne := h.ne
  have hwhole := h.whole
  have hdistance : (m.pfifo.dmaPut - m.pfifo.dmaGet).toNat ≠ 0 := by
    intro h0
    apply hne
    bv_omega
  unfold Pfifo.available
  omega

theorem Reading.not_stopped (h : Reading G m) :
    ¬(m.pgraph.control.pusherShouldStall = true ∨ m.pfifo.dmaGet = m.pfifo.dmaPut) := by
  rintro (hstall | heq)
  · exact false_ne_true (h.goes.symm.trans hstall)
  · exact h.ne heq

theorem Reading.iterate_data (h : Reading G m) (hcount : m.pfifo.methodCount ≠ 0) : m.iterate G squash lost
      = (m.dataWord G squash lost (min m.pfifo.methodCount m.pfifo.available)).bind
          fun r => r.1.proceed r.2 := by
  rw [Machine.iterate, if_pos h.running, if_neg h.not_stopped, if_pos ⟨h.inside, h.whole⟩, if_pos hcount]

theorem Reading.iterate_header (h : Reading G m) (hcount : m.pfifo.methodCount = 0) : m.iterate G squash lost
      = (m.pfifo.header (G.mem m.pfifo.dmaGet)).bind fun f => { m with pfifo := f }.proceed true := by
  rw [Machine.iterate, if_pos h.running, if_neg h.not_stopped, if_pos ⟨h.inside, h.whole⟩, if_neg (not_not.mpr hcount)]

/-- What a pass of the loop can do. -/
inductive Pass (G : Gpu ρ) (squash lost : Bool) (m : Machine ρ) : Machine ρ → Prop where
  | stopped (running : m.running = true)
      (stop : m.pgraph.control.pusherShouldStall = true ∨ m.pfifo.dmaGet = m.pfifo.dmaPut)
      (error : m.pfifo.error = 0) : Pass G squash lost m { m with running := false }
  | data (reading : Reading G m) (count : m.pfifo.methodCount ≠ 0) (r : Machine ρ) (progress : Bool)
      (word : m.dataWord G squash lost (min m.pfifo.methodCount m.pfifo.available)
        = some (r, progress)) (error : r.pfifo.error = 0) :
      Pass G squash lost m { r with running := progress }
  | header (reading : Reading G m) (count : m.pfifo.methodCount = 0) (f : Pfifo)
      (header : m.pfifo.header (G.mem m.pfifo.dmaGet) = some f) (error : f.error = 0) :
      Pass G squash lost m { m with pfifo := f, running := true }

theorem proceed_eq_some {running : Bool} (h : m.proceed running = some m') :
    m.pfifo.error = 0 ∧ { m with running := running } = m' := by
  obtain ⟨herror, h⟩ := ite_none_right_eq_some.mp h
  exact ⟨herror, some.inj h⟩

theorem iterate_pass (h : m.iterate G squash lost = some m') : Pass G squash lost m m' := by
  obtain ⟨hrunning, h⟩ := ite_none_right_eq_some.mp h
  by_cases hstop : m.pgraph.control.pusherShouldStall = true ∨ m.pfifo.dmaGet = m.pfifo.dmaPut
  · rw [if_pos hstop] at h
    obtain ⟨herror, rfl⟩ := proceed_eq_some h
    exact .stopped hrunning hstop herror
  rw [if_neg hstop] at h
  obtain ⟨⟨hinside, hwhole⟩, h⟩ := ite_none_right_eq_some.mp h
  have hreading : Reading G m :=
    ⟨hrunning, eq_false_iff.mpr fun hstall => hstop (.inl hstall), fun heq => hstop (.inr heq), hinside, hwhole⟩
  by_cases hcount : m.pfifo.methodCount ≠ 0
  · rw [if_pos hcount] at h
    obtain ⟨⟨r, progress⟩, hword, h⟩ := bind_eq_some_iff.mp h
    obtain ⟨herror, rfl⟩ := proceed_eq_some h
    exact .data hreading hcount r progress hword herror
  · rw [if_neg hcount] at h
    obtain ⟨f, hheader, h⟩ := bind_eq_some_iff.mp h
    obtain ⟨herror, rfl⟩ := proceed_eq_some h
    exact .header hreading (not_not.mp hcount) f hheader herror

theorem enter_eq_some (h : m.enter = some m') : m' = m ∨ m' = { m with running := true } := by
  obtain ⟨-, h⟩ := ite_none_left_eq_some.mp h
  split at h
  · exact .inl (some.inj h).symm
  · obtain ⟨-, h⟩ := ite_none_right_eq_some.mp h
    exact .inr (proceed_eq_some h).2.symm

end XogMobile.Nv2a
