import XogMobile.Nv2a.Pfifo
import Mathlib.Tactic.IntervalCases

/-!
# Batches and single words

A command's data words can be given to the puller one at a time, or as many at once as the command and
`DMA_PUT` allow. A batch calls the handler on every word without coming back to the puller, and the
pusher then moves `DMA_GET`, `DMA_STATE` and `DMA_DCOUNT` by the number of words. Both ways end in the
same state: between two words of a batch the puller would find nothing changed that it looks at.
-/

namespace XogMobile.Nv2a

open Lib List Option Nat

variable {ρ : Type}

namespace Pgraph

/-- The registers hold the context of the subchannel already. -/
def Settled (p : Pgraph ρ) (subchannel : Word) : Prop :=
  ∀ i < 5, p.control.regs (ctxSwitch i) = p.control.regs (ctxCache i subchannel.toNat)

theorem inContext_regs_ctxCache (p : Pgraph ρ) (subchannel : Word) (i j : Nat) :
    (p.inContext subchannel).control.regs (ctxCache i j) = p.control.regs (ctxCache i j) := by
  rw [inContext, regWs_control]
  apply writeRegs_of_not_mem
  intro w hw
  obtain ⟨k, hk, rfl⟩ := mem_map.mp hw
  have hlt := mem_range.mp hk
  simp only [ctxSwitch, ctxCache]
  omega

theorem settled_inContext (p : Pgraph ρ) (subchannel : Word) : (p.inContext subchannel).Settled subchannel := by
  intro i hi
  rw [inContext_regs_ctxCache, inContext, regWs_control]
  interval_cases i <;> simp [contextWrites, range_succ, writeRegs, ctxSwitch]

theorem inContext_of_settled {p : Pgraph ρ} {subchannel : Word} (h : p.Settled subchannel) :
    p.inContext subchannel = p := by
  apply regWs_self
  intro w hw
  obtain ⟨i, hi, rfl⟩ := mem_map.mp hw
  exact h i (mem_range.mp hi)

theorem Settled.quiet {p q : Pgraph ρ} (h : p.Settled 0) (hquiet : Quiet p.control q.control) : q.Settled 0 := by
  intro i hi
  have hswitch : ¬BatchWritable (ctxSwitch i) := by
    unfold BatchWritable ctxSwitch
    omega
  have hcache : ¬BatchWritable (ctxCache i (0 : Word).toNat) := by
    have : (0 : Word).toNat = 0 := rfl
    unfold BatchWritable ctxCache
    omega
  rw [hquiet.regs _ hswitch, hquiet.regs _ hcache]
  exact h i hi

end Pgraph

def batchCalls (G : Gpu ρ) (subchannel : Word) (inc : Bool) : Nat → Nat → Word → List Call
  | 0, _, _ => []
  | n + 1, method, ptr =>
    ⟨subchannel, method, G.mem ptr⟩ ::
      batchCalls G subchannel inc n (if inc then method + 4 else method) (ptr + 4)

theorem length_batchCalls (G : Gpu ρ) (subchannel : Word) (inc : Bool) (n method : Nat)
    (ptr : Word) : (batchCalls G subchannel inc n method ptr).length = n := by
  induction n generalizing method ptr with
  | zero => rfl
  | succ n ih => rw [batchCalls, length_cons, ih]

theorem callBatch_succ (G : Gpu ρ) (bm : KelvinMethod ρ) (subchannel : Word) (inc : Bool)
    (n method : Nat) (ptr : Word) (p : Pgraph ρ) :
    Pgraph.callBatch G bm subchannel inc (n + 1) method ptr p
      = (p.callBatched bm ⟨subchannel, method, G.mem ptr⟩).bind
          (Pgraph.callBatch G bm subchannel inc n (if inc then method + 4 else method) (ptr + 4)) :=
  rfl

variable {G : Gpu ρ} {bm : KelvinMethod ρ} {subchannel ptr : Word} {inc : Bool} {n method : Nat}
  {p : Pgraph ρ}

theorem callBatch_calls {q : Pgraph ρ} (h : Pgraph.callBatch G bm subchannel inc n method ptr p = some q) :
    q.calls = p.calls ++ batchCalls G subchannel inc n method ptr := by
  induction n generalizing method ptr p with
  | zero =>
    cases h
    exact (append_nil _).symm
  | succ n ih =>
    obtain ⟨r, hr, hrest⟩ := bind_eq_some_iff.mp h
    obtain ⟨-, -, -, -, hcalls⟩ := callBatched_eq_some hr
    rw [ih hrest, hcalls, append_assoc]
    rfl

theorem batchCalls_covers (hcovers : bm.Covers method) (hend : inc → method + 4 * n ≤ bm.rangeEnd) :
    ∀ call ∈ batchCalls G subchannel inc n method ptr, bm.Covers call.method := by
  induction n generalizing method ptr with
  | zero => exact fun call hcall => nomatch hcall
  | succ n ih =>
    intro call hcall
    obtain rfl | hrest := mem_cons.mp hcall
    · exact hcovers
    · cases n with
      | zero => exact nomatch hrest
      | succ n =>
        refine ih ?_ ?_ call hrest
        · cases inc with
          | false => exact hcovers
          | true =>
            have := hend rfl
            exact ⟨hcovers.1.trans (le_add_right _ _), by simp; omega⟩
        · intro hinc
          have := hend hinc
          rw [if_pos hinc]
          omega

theorem Quiet.pullerShouldStall {c c' : Control} (h : Quiet c c') : c'.pullerShouldStall = c.pullerShouldStall := by
  rw [Control.pullerShouldStall, Control.pullerShouldStall, h.waitingForFlip, h.waitingForNop,
    h.waitingForContextSwitch, Control.canFifoAccess, Control.canFifoAccess,
    h.regs 0x720 (by decide)]

theorem method_of_kelvinMethod {squash squash' : Bool} {call : Call} {words words' lookahead : Nat}
    (h : ∀ p : Pgraph ρ, p.kelvinMethod G squash call ptr words lookahead inc
      = p.kelvinMethod G squash' call ptr words' lookahead inc) :
    p.method G squash call ptr words lookahead inc
      = p.method G squash' call ptr words' lookahead inc := by
  unfold Pgraph.method Pgraph.dispatch
  simp only [h]

def Machine.context (m : Machine ρ) : Pgraph ρ := m.polled.inContext m.pfifo.subchannel

section

variable {m : Machine ρ} {squash : Bool} {call : Call} {words lookahead : Nat}

/-- The Kelvin class is the current one on the first subchannel, and nothing makes the puller
stall. -/
structure KelvinGoes (m : Machine ρ) : Prop where
  goes : PullerGoes m.pfifo m.polled.control
  channel : getMask (m.polled.control.regs ctxControl) 0x00010000 ≠ 0
  subchannel : m.pfifo.subchannel = 0
  kelvin : m.context.graphicsClass = kelvinPrimitive

theorem KelvinGoes.method_eq (h : KelvinGoes m)
    (hsubchannel : call.subchannel = m.pfifo.subchannel) (hmethod : call.method ≠ 0) :
    m.polled.method G squash call ptr words lookahead inc
      = m.context.kelvinMethod G squash call ptr words lookahead inc := by
  have hzero : call.subchannel = 0 := hsubchannel.trans h.subchannel
  have hclass : (m.polled.inContext call.subchannel).graphicsClass = kelvinPrimitive := by
    rw [hsubchannel]
    exact h.kelvin
  rw [Pgraph.method, if_neg h.channel, Pgraph.loadObject, if_neg hmethod, Option.bind_some,
    Pgraph.dispatch, if_neg (fun hnot => hnot.1 hzero), if_pos hclass, hsubchannel]
  rfl

theorem KelvinGoes.dataWord (h : KelvinGoes m) (hmethod : 0x200 ≤ m.pfifo.method) : m.dataWord G squash false words
      = (m.context.kelvinMethod G squash (m.call G) m.pfifo.dmaGet words m.pfifo.available
          m.pfifo.inc).map fun r => (m.afterData G r, true) := by
  have hne : (m.call G).method ≠ 0 := ne_of_gt (lt_of_lt_of_le (by decide) hmethod)
  have hsubchannel : (m.call G).subchannel = m.pfifo.subchannel := rfl
  rw [Machine.dataWord_of_goes h.goes hmethod, h.method_eq hsubchannel hne]

end

namespace Machine

/-- The current data word goes to the batched handler `bm`. -/
structure Batched (G : Gpu ρ) (bm : KelvinMethod ρ) (m : Machine ρ) : Prop where
  entry : kelvinEntry G.toRenderer m.pfifo.method = .batched bm
  loops : bm.loops m.pfifo.inc
  goes : PullerGoes m.pfifo m.polled.control
  channel : getMask (m.polled.control.regs ctxControl) 0x00010000 ≠ 0
  subchannel : m.pfifo.subchannel = 0
  kelvin : m.context.graphicsClass = kelvinPrimitive

variable {G : Gpu ρ} {bm : KelvinMethod ρ} {m : Machine ρ} {squash batch : Bool} {n fuel : Nat}

theorem Batched.covers (h : m.Batched G bm) : bm ∈ batchedMethods G.toRenderer ∧ bm.Covers m.pfifo.method :=
  kelvinEntry_eq_batched.mp h.entry

theorem Batched.kelvinGoes (h : m.Batched G bm) : KelvinGoes m := { h with }

theorem dataWord_batched {words : Nat} (h : m.Batched G bm) : m.dataWord G squash false words
      = (Pgraph.callBatch G bm m.pfifo.subchannel m.pfifo.inc
          (bm.batchLength m.pfifo.method words) m.pfifo.method m.pfifo.dmaGet m.context).map
        fun q => (m.afterData G ⟨q, bm.batchLength m.pfifo.method words, false⟩, true) := by
  obtain ⟨hmem, hcovers⟩ := h.covers
  have hmethod : 0x200 ≤ m.pfifo.method := (batchedMethods_bounds hmem).1.trans hcovers.1
  have hentry : kelvinEntry G.toRenderer (m.call G).method = .batched bm := h.entry
  rw [h.kelvinGoes.dataWord hmethod, Pgraph.kelvinMethod]
  simp only [hentry, h.loops, if_true, Option.map_map]
  rfl

theorem dataWord_batched_one (h : m.Batched G bm) : m.dataWord G squash false 1
      = (m.context.callBatched bm (m.call G)).map fun q => (m.afterData G ⟨q, 1, false⟩, true) := by
  obtain ⟨hmem, hcovers⟩ := h.covers
  have hone : bm.batchLength m.pfifo.method 1 = 1 := by
    have hle := (batchLength_le 1 hcovers h.loops).1
    have hpos := batchLength_pos hcovers (batchedMethods_bounds hmem).2.2 m.pfifo.method_dvd
      (one_pos)
    omega
  rw [dataWord_batched h, hone]
  simp only [Pgraph.callBatch, bind_fun_some]
  rfl

theorem pollFlip_of_goes {c : Control} (h : c.pullerShouldStall = false) : c.pollFlip = c := by
  have hflip : c.waitingForFlip = false := by
    simp only [Control.pullerShouldStall, Bool.or_eq_false_iff] at h
    exact h.1.1.1
  rw [Control.pollFlip, hflip, Bool.false_and, ← hflip]

theorem Batched.next {q : Pgraph ρ} (h : m.Batched G bm) (hcall : m.context.callBatched bm (m.call G) = some q)
    (hnext : bm.Covers (if m.pfifo.inc then m.pfifo.method + 4 else m.pfifo.method)) :
    (m.afterData G ⟨q, 1, false⟩).Batched G bm ∧ (m.afterData G ⟨q, 1, false⟩).context = q := by
  obtain ⟨hmem, hcovers⟩ := h.covers
  have hquiet : Quiet m.context.control q.control := callBatched_quiet hcall hcovers
  have hmethod : (m.afterData G ⟨q, 1, false⟩).pfifo.method
      = if m.pfifo.inc then m.pfifo.method + 4 else m.pfifo.method := by
    apply Pfifo.advance_method_of_lt m.pfifo
    intro hinc
    rw [if_pos hinc] at hnext
    exact hnext.2.trans_le (batchedMethods_bounds hmem).2.1
  have hsettled : q.Settled 0 := by
    have hcontext : m.context.Settled m.pfifo.subchannel := Pgraph.settled_inContext _ _
    rw [h.subchannel] at hcontext
    exact hcontext.quiet hquiet
  have hstall : q.control.pullerShouldStall = false := by
    rw [hquiet.pullerShouldStall]
    exact h.goes.goes
  have hpolled : (m.afterData G ⟨q, 1, false⟩).polled = q := by
    change ({ q with control := q.control.pollFlip } : Pgraph ρ) = q
    rw [pollFlip_of_goes hstall]
  have hsubchannel : (m.afterData G ⟨q, 1, false⟩).pfifo.subchannel = 0 :=
    (m.pfifo.advance_subchannel 1).trans h.subchannel
  have hcontext : (m.afterData G ⟨q, 1, false⟩).context = q := by
    rw [context, hpolled, hsubchannel, Pgraph.inContext_of_settled hsettled]
  refine ⟨⟨?_, ?_, ⟨?_, h.goes.pull0, ?_⟩, ?_, hsubchannel, ?_⟩, hcontext⟩
  · rw [hmethod]
    exact kelvinEntry_eq_batched.mpr ⟨hmem, hnext⟩
  · rw [show (m.afterData G ⟨q, 1, false⟩).pfifo.inc = m.pfifo.inc from m.pfifo.advance_inc 1]
    exact h.loops
  · rw [hpolled]
    exact hstall
  · rw [hsubchannel, ← h.subchannel]
    exact h.goes.engine
  · rw [hpolled, hquiet.regs ctxControl (by decide)]
    exact h.channel
  · rw [hcontext, Pgraph.graphicsClass, hquiet.regs _ (by decide)]
    exact h.kelvin

/-- Everything but `DMA_DATA_SHADOW`, which holds the first word of a batch. -/
def forgetShadow (m : Machine ρ) : Machine ρ := { m with pfifo := { m.pfifo with dataShadow := 0 } }

theorem lowMark_again (w : Word) :
    ((w &&& ~~~lowMark ||| lowMark) &&& ~~~lowMark) ||| lowMark = w &&& ~~~lowMark ||| lowMark := by
  ext i hi
  grind

theorem forgetShadow_afterData (G : Gpu ρ) (m : Machine ρ) (q : Pgraph ρ) (hn : 0 < n) :
    (m.afterData G ⟨q, n, false⟩).forgetShadow =
      { m with
        pfifo := { m.pfifo.advance n with
          dataShadow := 0
          status := m.pfifo.status &&& ~~~lowMark ||| lowMark
          pull1 := setMask m.pfifo.pull1 0x00000003 engineGraphics }
        pgraph := q
        trace := m.trace ++ consumed G m.pfifo n false } := by
  have hpos : 0 < (⟨q, n, false⟩ : Processed ρ).consumed := hn
  simp only [afterData, Pfifo.pulled, if_pos hpos]
  rfl

theorem afterData_afterData (G : Gpu ρ) (m : Machine ρ) (q q' : Pgraph ρ) (hn : 0 < n)
    (hwrap : m.pfifo.inc → m.pfifo.method + 4 < 8192) :
    ((m.afterData G ⟨q, 1, false⟩).afterData G ⟨q', n, false⟩).forgetShadow
      = (m.afterData G ⟨q', n + 1, false⟩).forgetShadow := by
  have hadvance : (m.pfifo.advance 1).advance n = m.pfifo.advance (n + 1) := by
    rw [add_comm n 1]
    apply m.pfifo.advance_advance
    intro hinc
    have := hwrap hinc
    omega
  have hstatus : (m.afterData G ⟨q, 1, false⟩).pfifo.status
      = m.pfifo.status &&& ~~~lowMark ||| lowMark := rfl
  have hpull1 : (m.afterData G ⟨q, 1, false⟩).pfifo.pull1
      = setMask m.pfifo.pull1 0x00000003 engineGraphics := rfl
  have htrace : (m.afterData G ⟨q, 1, false⟩).trace ++ consumed G (m.afterData G ⟨q, 1, false⟩).pfifo n false
      = m.trace ++ consumed G m.pfifo (n + 1) false := by
    rw [consumed_succ G m.pfifo n hwrap, ← append_assoc]
    rfl
  rw [forgetShadow_afterData G _ q' hn, forgetShadow_afterData G m q' (Nat.add_pos_right n one_pos),
    hstatus, hpull1, htrace, lowMark_again, setMask_setMask, ← hadvance]
  rfl

def Delivered (m : Machine ρ) : Prop := m.pfifo.methodCount = 0 ∨ m.pfifo.dmaGet = m.pfifo.dmaPut

instance (m : Machine ρ) : Decidable m.Delivered := inferInstanceAs (Decidable (_ ∨ _))

/-- `num_words_available`. -/
def batchWords (batch : Bool) (m : Machine ρ) : Nat :=
  if batch then min m.pfifo.methodCount m.pfifo.available else 1

def WholeWords (m : Machine ρ) : Prop := (m.pfifo.dmaPut - m.pfifo.dmaGet).toNat % 4 = 0

instance (m : Machine ρ) : Decidable m.WholeWords := inferInstanceAs (Decidable (_ = _))

/-- The data words of the current command, up to `DMA_PUT`: as many as possible in each call of the
puller, or one by one. A call of the puller that stalls ends the delivery. -/
def deliver (G : Gpu ρ) (squash batch : Bool) : Nat → Machine ρ → Option (Machine ρ)
  | 0, m => some m
  | fuel + 1, m =>
    if m.Delivered then some m
    else if m.WholeWords then
      (m.dataWord G squash false (m.batchWords batch)).bind fun r =>
        if r.2 then deliver G squash batch fuel r.1 else some r.1
    else none

theorem deliver_of_delivered (h : m.Delivered) : deliver G squash batch fuel m = some m := by
  cases fuel with
  | zero => rfl
  | succ fuel => rw [deliver, if_pos h]

theorem deliver_forgetShadow (G : Gpu ρ) (squash batch : Bool) (fuel : Nat) (m : Machine ρ) :
    (deliver G squash batch fuel m.forgetShadow).map forgetShadow
      = (deliver G squash batch fuel m).map forgetShadow := by
  by_cases hstop : m.Delivered
  · have hforget : m.forgetShadow.Delivered := hstop
    rw [deliver_of_delivered hstop, deliver_of_delivered hforget]
    rfl
  · have hforget : ¬m.forgetShadow.Delivered := hstop
    cases fuel with
    | zero => rfl
    | succ fuel =>
      rw [deliver, deliver, if_neg hstop, if_neg hforget]
      rfl

theorem deliver_congr {m' : Machine ρ} (h : m.forgetShadow = m'.forgetShadow) :
    (deliver G squash batch fuel m).map forgetShadow
      = (deliver G squash batch fuel m').map forgetShadow := by
  rw [← deliver_forgetShadow, h, deliver_forgetShadow]

theorem not_delivered (hcount : 0 < m.pfifo.methodCount) (havailable : 0 < m.pfifo.available) : ¬m.Delivered := by
  rintro (h | h)
  · omega
  · rw [Pfifo.available, h, BitVec.sub_self] at havailable
    exact absurd havailable (by decide)

section AfterData

variable (G : Gpu ρ) (m : Machine ρ) (q : Pgraph ρ) (n : Nat)

theorem afterData_methodCount : (m.afterData G ⟨q, n, false⟩).pfifo.methodCount = m.pfifo.methodCount - n :=
  m.pfifo.advance_methodCount n

theorem afterData_inc : (m.afterData G ⟨q, n, false⟩).pfifo.inc = m.pfifo.inc := m.pfifo.advance_inc n

theorem afterData_subchannel : (m.afterData G ⟨q, n, false⟩).pfifo.subchannel = m.pfifo.subchannel :=
  m.pfifo.advance_subchannel n

variable {n}

theorem afterData_method (h : m.pfifo.inc → m.pfifo.method + 4 * n < 8192) : (m.afterData G ⟨q, n, false⟩).pfifo.method
      = if m.pfifo.inc then m.pfifo.method + 4 * n else m.pfifo.method :=
  m.pfifo.advance_method_of_lt h

theorem afterData_available (h : n ≤ m.pfifo.available) :
    (m.afterData G ⟨q, n, false⟩).pfifo.available = m.pfifo.available - n :=
  m.pfifo.advance_available h

theorem afterData_wholeWords (h : n ≤ m.pfifo.available) (hwhole : m.WholeWords) :
    (m.afterData G ⟨q, n, false⟩).WholeWords := by
  have hdistance : ((m.afterData G ⟨q, n, false⟩).pfifo.dmaPut -
      (m.afterData G ⟨q, n, false⟩).pfifo.dmaGet).toNat = _ := m.pfifo.advance_distance h
  rw [WholeWords]
  unfold WholeWords at hwhole
  omega

end AfterData

variable {G : Gpu ρ} {bm : KelvinMethod ρ} {squash inc : Bool} {m : Machine ρ} {p : Pgraph ρ}
  {call : Call} {ptr : Word} {words words' lookahead : Nat}

theorem deliver_batched_one (fuel : Nat) (h : m.Batched G bm) (hcount : 0 < m.pfifo.methodCount)
    (havailable : 0 < m.pfifo.available) (hwhole : m.WholeWords) :
    deliver G squash false (fuel + 1) m
      = (m.context.callBatched bm (m.call G)).bind fun q =>
          deliver G squash false fuel (m.afterData G ⟨q, 1, false⟩) := by
  have hwords : m.batchWords false = 1 := rfl
  rw [deliver, if_neg (not_delivered hcount havailable), if_pos hwhole, hwords, dataWord_batched_one h, bind_map]
  rfl

theorem deliver_batch_words (n fuel : Nat) (h : m.Batched G bm) (hcount : n < m.pfifo.methodCount)
    (havailable : n < m.pfifo.available) (hwhole : m.WholeWords)
    (hend : m.pfifo.inc → m.pfifo.method + 4 * (n + 1) ≤ bm.rangeEnd) :
    (deliver G squash false (fuel + n + 1) m).map forgetShadow
      = ((Pgraph.callBatch G bm m.pfifo.subchannel m.pfifo.inc (n + 1) m.pfifo.method
          m.pfifo.dmaGet m.context).bind fun q =>
        deliver G squash false fuel (m.afterData G ⟨q, n + 1, false⟩)).map forgetShadow := by
  induction n generalizing m with
  | zero =>
    have hfirst : deliver G squash false (fuel + 0 + 1) m = _ := deliver_batched_one fuel h hcount havailable hwhole
    rw [hfirst, callBatch_succ, bind_assoc]
    rfl
  | succ n ih =>
    have hfirst : deliver G squash false (fuel + (n + 1) + 1) m = _ :=
      deliver_batched_one (fuel + (n + 1)) h (by omega) (by omega) hwhole
    rw [hfirst, callBatch_succ, ← call]
    cases hcall : m.context.callBatched bm (m.call G) with
    | none => simp only [bind_none]
    | some q =>
      obtain ⟨hmem, hcovers⟩ := h.covers
      have hbound := (batchedMethods_bounds hmem).2.1
      have hwrap : m.pfifo.inc → m.pfifo.method + 4 * 1 < 8192 := by
        intro hinc
        have := hend hinc
        omega
      have hnext : bm.Covers (if m.pfifo.inc then m.pfifo.method + 4 else m.pfifo.method) := by
        split
        · next hinc =>
          have := hend hinc
          exact ⟨hcovers.1.trans (le_add_right _ _), by omega⟩
        · exact hcovers
      have hmethod := m.afterData_method G q hwrap
      have hone : 1 ≤ m.pfifo.available := by omega
      obtain ⟨hbatched, hcontext⟩ := h.next hcall hnext
      have hrest := ih hbatched
        (by rw [afterData_methodCount]; omega)
        (by rw [afterData_available G m q hone]; omega)
        (m.afterData_wholeWords G q hone hwhole)
        (by
          rw [afterData_inc, hmethod]
          intro hinc
          have := hend hinc
          rw [if_pos hinc]
          omega)
      have hget : (m.afterData G ⟨q, 1, false⟩).pfifo.dmaGet = m.pfifo.dmaGet + 4 := rfl
      rw [hcontext, afterData_inc, afterData_subchannel, hmethod] at hrest
      rw [bind_some, bind_some, ← add_assoc, hrest, map_bind, map_bind]
      apply Option.bind_congr
      intro q' _
      apply deliver_congr
      exact afterData_afterData G m q q' n.succ_pos hwrap

theorem method_words (h : ∀ bm, kelvinEntry G.toRenderer call.method = .batched bm → ¬bm.loops inc) :
    p.method G squash call ptr words lookahead inc
      = p.method G squash call ptr words' lookahead inc := by
  apply method_of_kelvinMethod
  intro p
  rw [Pgraph.kelvinMethod, Pgraph.kelvinMethod]
  cases hentry : kelvinEntry G.toRenderer call.method with
  | batched bm => simp only [h bm hentry, Bool.false_eq_true, if_false]
  | setBeginEnd | drawArrays | other => rfl

theorem method_of_not_kelvin {squash' : Bool} (hmethod : call.method ≠ 0)
    (h : ¬(getMask (p.control.regs ctxControl) 0x00010000 ≠ 0 ∧ call.subchannel = 0 ∧
      (p.inContext call.subchannel).graphicsClass = kelvinPrimitive)) :
    p.method G squash call ptr words lookahead inc
      = p.method G squash' call ptr words' lookahead inc := by
  unfold Pgraph.method Pgraph.loadObject Pgraph.dispatch
  by_cases hchannel : getMask (p.control.regs ctxControl) 0x00010000 = 0
  · simp only [hchannel, if_true]
  by_cases hkelvin : (p.inContext call.subchannel).graphicsClass = kelvinPrimitive
  · have hsubchannel : call.subchannel ≠ 0 := fun h0 => h ⟨hchannel, h0, hkelvin⟩
    simp only [hmethod, if_false, bind_some, hkelvin, hsubchannel, ne_eq, not_false_eq_true, and_self, if_true]
  · simp only [hmethod, if_false, bind_some, hkelvin]

theorem dataWord_words (h : ∀ bm, ¬m.Batched G bm) :
    m.dataWord G squash false words = m.dataWord G squash false words' := by
  apply congrArg (Option.map (m.afterPull G))
  by_cases hentry : ∀ bm, kelvinEntry G.toRenderer m.pfifo.method = .batched bm → ¬bm.loops m.pfifo.inc
  · have hmethod : ∀ (p : Pgraph ρ) (w : Word), p.method G squash { m.call G with parameter := w } m.pfifo.dmaGet words
          m.pfifo.available m.pfifo.inc
        = p.method G squash { m.call G with parameter := w } m.pfifo.dmaGet words'
          m.pfifo.available m.pfifo.inc := fun p w => method_words hentry
    unfold Pfifo.runPuller
    simp only [hmethod]
  · simp only [not_forall, not_not] at hentry
    obtain ⟨bm, hbatched, hloops⟩ := hentry
    obtain ⟨hmem, hcovers⟩ := kelvinEntry_eq_batched.mp hbatched
    have hlow : 0x200 ≤ m.pfifo.method := (batchedMethods_bounds hmem).1.trans hcovers.1
    by_cases hgoes : PullerGoes (m.dataPfifo G) m.pgraph.control.pollFlip
    · rw [runPuller_of_goes (m.call G) hgoes (lowMark_cleared _) rfl hlow,
        runPuller_of_goes (m.call G) hgoes (lowMark_cleared _) rfl hlow]
      apply congrArg (Option.map _)
      apply method_of_not_kelvin (by change m.pfifo.method ≠ 0; omega)
      rintro ⟨hchannel, hsubchannel, hkelvin⟩
      exact h bm ⟨hbatched, hloops, { hgoes with }, hchannel, hsubchannel, hkelvin⟩
    · exact runPuller_of_not_goes (fun h => hgoes h.2) rfl hlow

theorem available_pos (h : ¬m.Delivered) (hwhole : m.WholeWords) : 0 < m.pfifo.available := by
  have hne : m.pfifo.dmaGet ≠ m.pfifo.dmaPut := fun h0 => h (.inr h0)
  have hpos : (m.pfifo.dmaPut - m.pfifo.dmaGet).toNat ≠ 0 := by bv_omega
  unfold WholeWords at hwhole
  unfold Pfifo.available
  omega

theorem batchWords_true (m : Machine ρ) : m.batchWords true = min m.pfifo.methodCount m.pfifo.available := if_pos rfl

theorem deliver_batched (fuel : Nat) (h : m.Batched G bm) (hstop : ¬m.Delivered) (hwhole : m.WholeWords) :
    deliver G squash true (fuel + 1) m
      = (Pgraph.callBatch G bm m.pfifo.subchannel m.pfifo.inc
          (bm.batchLength m.pfifo.method (m.batchWords true)) m.pfifo.method m.pfifo.dmaGet
          m.context).bind fun q =>
        deliver G squash true fuel (m.afterData G ⟨q, bm.batchLength m.pfifo.method (m.batchWords true), false⟩) := by
  rw [deliver, if_neg hstop, if_pos hwhole, dataWord_batched h, bind_map]
  rfl

theorem deliver_unbatched {batch : Bool} (fuel : Nat) (h : ∀ bm, ¬m.Batched G bm)
    (hstop : ¬m.Delivered) (hwhole : m.WholeWords) :
    deliver G squash batch (fuel + 1) m
      = (m.dataWord G squash false 1).bind fun r =>
          if r.2 then deliver G squash batch fuel r.1 else some r.1 := by
  rw [deliver, if_neg hstop, if_pos hwhole, dataWord_words h]

theorem dataWord_methodCount_lt {m' : Machine ρ}
    (h : m.dataWord G squash false words = some (m', true)) (hwords : 0 < words)
    (hcount : 0 < m.pfifo.methodCount) : m'.pfifo.methodCount < m.pfifo.methodCount := by
  obtain _ | ⟨n, squashed, htakes, hplace, -⟩ := dataWord_spec hwords h
  have hpos := htakes.pos
  rw [Pfifo.methodCount, hplace.dmaState, ← Pfifo.methodCount, Pfifo.advance_methodCount]
  omega

theorem map_deliver_batch_eq_single (G : Gpu ρ) (squash : Bool) (m : Machine ρ) (fuel fuel' : Nat)
    (hfuel : m.pfifo.methodCount ≤ fuel) (hfuel' : m.pfifo.methodCount ≤ fuel') :
    (deliver G squash true fuel m).map forgetShadow
      = (deliver G squash false fuel' m).map forgetShadow := by
  -- Each call of the puller shortens the command.
  induction hcount : m.pfifo.methodCount using Nat.strong_induction_on
    generalizing m fuel fuel' with
  | _ count ih =>
    subst hcount
    by_cases hstop : m.Delivered
    · rw [deliver_of_delivered hstop, deliver_of_delivered hstop]
    have hpos : 0 < m.pfifo.methodCount := pos_of_ne_zero fun h0 => hstop (.inl h0)
    obtain ⟨fuel, rfl⟩ : ∃ k, fuel = k + 1 := ⟨fuel - 1, by omega⟩
    by_cases hwhole : m.WholeWords
    · have havailable := available_pos hstop hwhole
      by_cases hbatched : ∃ bm, m.Batched G bm
      · obtain ⟨bm, hbm⟩ := hbatched
        obtain ⟨hmem, hcovers⟩ := hbm.covers
        obtain ⟨hle, hend⟩ := batchLength_le (m.batchWords true) hcovers hbm.loops
        have hmin := m.batchWords_true
        have hlength := batchLength_pos hcovers (batchedMethods_bounds hmem).2.2
          m.pfifo.method_dvd (show 0 < m.batchWords true by omega)
        rw [deliver_batched fuel hbm hstop hwhole]
        generalize bm.batchLength m.pfifo.method (m.batchWords true) = n at hle hend hlength ⊢
        obtain ⟨n, rfl⟩ : ∃ k, n = k + 1 := ⟨n - 1, by omega⟩
        obtain ⟨fuel', rfl⟩ : ∃ k, fuel' = k + n + 1 := ⟨fuel' - (n + 1), by omega⟩
        rw [deliver_batch_words n fuel' hbm (by omega) (by omega) hwhole hend, map_bind, map_bind]
        apply Option.bind_congr
        intro q _
        have hleft := m.afterData_methodCount G q (n + 1)
        exact ih _ (by omega) _ fuel fuel' (by omega) (by omega) rfl
      · rw [not_exists] at hbatched
        obtain ⟨fuel', rfl⟩ : ∃ k, fuel' = k + 1 := ⟨fuel' - 1, by omega⟩
        rw [deliver_unbatched fuel hbatched hstop hwhole,
          deliver_unbatched fuel' hbatched hstop hwhole, map_bind, map_bind]
        apply Option.bind_congr
        rintro ⟨m', progress⟩ hm'
        cases progress with
        | false => rfl
        | true =>
          have hlt := dataWord_methodCount_lt hm' one_pos hpos
          exact ih _ hlt m' fuel fuel' (by omega) (by omega) rfl
    · obtain ⟨fuel', rfl⟩ : ∃ k, fuel' = k + 1 := ⟨fuel' - 1, by omega⟩
      rw [deliver, deliver, if_neg hstop, if_neg hstop, if_neg hwhole, if_neg hwhole]

/-- Delivering a command's words in batches or one by one ends in the same state. A batch calls its
handler inside its own range only, and takes no more words than the command has. -/
theorem batch_delivery (G : Gpu ρ) (squash : Bool) (m : Machine ρ) :
    (∀ fuel fuel', m.pfifo.methodCount ≤ fuel → m.pfifo.methodCount ≤ fuel' →
      (deliver G squash true fuel m).map forgetShadow
        = (deliver G squash false fuel' m).map forgetShadow) ∧
    ∀ bm m', m.Batched G bm → m.dataWord G squash false (m.batchWords true) = some (m', true) →
      ∃ calls, m'.pgraph.calls = m.pgraph.calls ++ calls ∧
        (∀ call ∈ calls, bm.Covers call.method) ∧ calls.length ≤ m.pfifo.methodCount ∧
        m'.pfifo.methodCount = m.pfifo.methodCount - calls.length := by
  refine ⟨map_deliver_batch_eq_single G squash m, fun bm m' hbm hdata => ?_⟩
  obtain ⟨-, hcovers⟩ := hbm.covers
  obtain ⟨hle, hend⟩ := batchLength_le (m.batchWords true) hcovers hbm.loops
  have hmin := m.batchWords_true
  rw [dataWord_batched hbm] at hdata
  obtain ⟨q, hq, heq⟩ := map_eq_some_iff.mp hdata
  cases heq
  have hcalls := callBatch_calls hq
  refine ⟨_, hcalls, batchCalls_covers hcovers hend, ?_, ?_⟩
  · rw [length_batchCalls]
    omega
  · rw [length_batchCalls]
    exact m.afterData_methodCount G q _

def elementsMachine : Machine Unit :=
  let m := bufferMachine [5, 6, 7]
  { m with pfifo := { m.pfifo with dmaState := 0x000C1809 } }

theorem batched_elementsMachine :
    elementsMachine.Batched (bufferGpu [5, 6, 7]) (arrayElement32 (bufferGpu [5, 6, 7]).toRenderer) := by
  refine ⟨kelvinEntry_eq_batched.mpr ⟨?_, by decide +kernel⟩, by decide +kernel,
    ⟨by decide +kernel, by decide +kernel, by decide +kernel⟩, by decide +kernel, by decide +kernel,
    by decide +kernel⟩
  simp [batchedMethods]

theorem batch_delivery_elements :
    let G := bufferGpu [5, 6, 7]
    (deliver G true true 3 elementsMachine).map forgetShadow
      = (deliver G true false 3 elementsMachine).map forgetShadow ∧
    (deliver G true true 1 elementsMachine).map (·.pgraph.vertices.inlineElements)
      = some [5, 6, 7] ∧
    ∃ m', elementsMachine.dataWord G true false (elementsMachine.batchWords true)
        = some (m', true) ∧
      ∃ calls, m'.pgraph.calls = calls ∧
        ∀ call ∈ calls, (arrayElement32 G.toRenderer).Covers call.method := by
  have hprogress : (elementsMachine.dataWord (bufferGpu [5, 6, 7]) true false
      (elementsMachine.batchWords true)).map (·.2) = some true := by decide +kernel
  obtain ⟨⟨m', progress⟩, hm', rfl⟩ := map_eq_some_iff.mp hprogress
  obtain ⟨hdeliver, hcalls⟩ := batch_delivery (bufferGpu [5, 6, 7]) true elementsMachine
  obtain ⟨calls, heq, hcovers, -⟩ := hcalls _ m' batched_elementsMachine hm'
  exact ⟨hdeliver 3 3 (by decide +kernel) (by decide +kernel), by decide +kernel, m', hm', calls, heq,
    hcovers⟩

end Machine

end XogMobile.Nv2a
