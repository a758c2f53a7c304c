import XogMobile.Nv2a.Pfifo
import XogMobile.Nv2a.Threads

/-!
# Context switches

A `SET_OBJECT` word names a channel. Where PGRAPH is not on that channel, `pgraph_context_switch` sets
`waiting_for_context_switch`, gives `pgraph.lock` up for the BQL, raises the interrupt and takes
`pgraph.lock` again; the word is left for later unless the flag has been cleared by then. Here the puller
runs against guest writes to the registers, which take the same locks. A FIFO without work may look again at
any time, so that `fifo_kick` and the wait for it do not appear.
-/

namespace XogMobile.Nv2a

open Lib Function Option Bool

/-- `CTX_CONTROL` marks a channel valid and `CTX_USER` names it. -/
def Control.onChannel (k : Control) (channel : Word) : Bool :=
  k.regs ctxControl &&& 0x00010000 != 0 && getMask (k.regs ctxUser) 0x1F000000 == channel

/-- `pgraph_context_switch` up to where it gives the lock up. -/
def Control.trapSwitch (k : Control) (channel : Word) : Option Control :=
  if getMask (k.regs 0x8C) 0x00000004 = 0 then
    some { k with
      regs := update k.regs 0x704 (setMask (k.regs 0x704) 0x01F00000 channel)
      waitingForContextSwitch := true }
  else none

namespace Switching

inductive Lock where
  | pfifo
  | pgraph
  | bql
  deriving DecidableEq

/-- `word` is the channel of the `SET_OBJECT` word that is not consumed yet, `invoked` the channels
`pgraph_method` was called for with the state it was called in. -/
structure Shared where
  control : Control
  pendingInterrupts : Word
  word : Option Word
  fed : List Word
  invoked : List (Word × Control)

/-- `effect` is what a call of `pgraph_method` makes of the registers and flags, for each choice. The
`ERROR` interrupt that a `NO_OPERATION` raises is left out: only this switch's interrupt matters here. -/
structure Env where
  ramin : Word → Word
  effect : Nat → Control → Option Control

def intrContextSwitch : Word := 0x00001000
def intrError : Word := 0x00100000

def Shared.setReg (x : Shared) (addr : Nat) (val : Word) : Shared :=
  { x with control := { x.control with regs := update x.control.regs addr val } }

def Shared.acknowledge (x : Shared) (val : Word) : Shared :=
  let pending := x.pendingInterrupts &&& ~~~val
  { x with
    pendingInterrupts := pending
    control := { x.control with
      waitingForNop := x.control.waitingForNop && pending &&& intrError != 0
      waitingForContextSwitch :=
        x.control.waitingForContextSwitch && pending &&& intrContextSwitch != 0 } }

def Shared.write (E : Env) (addr : Nat) (val : Word) (x : Shared) : Option Shared :=
  let regs := x.control.regs
  if addr = 0x100 then some (x.acknowledge val)
  else if addr = 0x140 then some x  -- `enabled_interrupts`
  else if addr = 0x71C then  -- `INCREMENT`
    if val &&& 2 = 0 then some x
    else if getMask (regs 0x710) 0x70000000 = 0 then none
    else some (x.setReg 0x710 (setMask (regs 0x710) 0x07000000
      ((getMask (regs 0x710) 0x07000000 + 1) % getMask (regs 0x710) 0x70000000)))
  else if addr = 0x754 then  -- `RDI_DATA`
    let address := getMask (regs 0x750) 0x00001FFC
    if address < getMask 0x00001FFC 0x00001FFC then
      some (x.setReg 0x750 (setMask (regs 0x750) 0x00001FFC (address + 1)))
    else none
  else if addr = 0x788 then  -- `CHANNEL_CTX_TRIGGER`
    if val &&& 1 = 0 then some x
    else some (x.setReg ctxUser (E.ramin (getMask (regs 0x784) 0x0000FFFF <<< 4)))
  else some (x.setReg addr val)

/-- What the write stores keeps PGRAPH on the channel it is on. -/
def Shared.staysOn (E : Env) (channel : Word) (addr : Nat) (val : Word) (x : Shared) : Bool :=
  if addr = ctxControl then val &&& 0x00010000 != 0
  else if addr = ctxUser then getMask val 0x1F000000 == channel
  else if addr = 0x788 then val &&& 1 == 0 ||
    getMask (E.ramin (getMask (x.control.regs 0x784) 0x0000FFFF <<< 4)) 0x1F000000 == channel
  else true

/-- What a guest may write while the switch is without `pgraph.lock`. An acknowledgement has to leave the
context switch pending, so it may not come before the interrupt is raised, unless PGRAPH is on the channel
already. Any other write is free as long as the flag is set; after that it has to keep the channel. -/
def Shared.mayWrite (E : Env) (channel : Word) (addr : Nat) (val : Word) (x : Shared) : Bool :=
  if addr = 0x100 then
    x.pendingInterrupts &&& ~~~val &&& intrContextSwitch != 0 || x.control.onChannel channel
  else x.control.waitingForContextSwitch || x.staysOn E channel addr val

/-- The points of the puller and of a guest write. `w` is the channel of a `SET_OBJECT` word. -/
inductive Pc where
  | threadLock
  | pusher
  | yield
  | puller (w : Option Word)
  | unlock (w : Option Word)
  | lockPgraph (w : Option Word)
  | access (w : Option Word)
  | dropPgraph (channel : Word)
  | lockBql (channel : Word)
  | raise (channel : Word)
  | unlockBql (channel : Word)
  | relockPgraph (channel : Word)
  | check (channel : Word)
  | method
  | unlockPgraph
  | relock
  | pulled
  | free
  | guestBql (addr : Nat) (val : Word)
  | guestPfifo (addr : Nat) (val : Word)
  | guestPgraph (addr : Nat) (val : Word)
  | write (addr : Nat) (val : Word)
  | writeUnlockPgraph
  | writeUnlockPfifo
  | writeUnlockBql
  deriving DecidableEq

def Shared.nextWord (c : Nat) (x : Shared) : Shared × Pc :=
  match x.word with
  | some channel => (x, .puller (some channel))
  | none =>
    match c with
    | 0 => (x, .puller none)
    | c + 1 =>
      let channel := BitVec.ofNat 32 c
      ({ x with word := some channel, fed := x.fed ++ [channel] }, .puller (some channel))

/-- With `pgraph.lock` held: the first half of the context switch. -/
def Shared.access (w : Option Word) (x : Shared) : Option (Shared × Pc) :=
  if !x.control.canFifoAccess then some (x, .unlockPgraph)
  else
    match w with
    | none => some (x, .method)
    | some channel =>
      if x.control.onChannel channel then some (x, .check channel)
      else (x.control.trapSwitch channel).map fun k =>
        ({ x with control := k }, .dropPgraph channel)

/-- The second half, and the call of `pgraph_method`. -/
def Shared.check (channel : Word) (x : Shared) : Shared × Pc :=
  if x.control.waitingForContextSwitch then (x, .unlockPgraph)
  else ({ x with word := none, invoked := x.invoked ++ [(channel, x.control)] }, .method)

def code (E : Env) : Pc → Instr Shared Pc Lock
  | .threadLock => .lock .pfifo .pusher
  | .pusher => .act fun c x => some (x.nextWord c)
  | .yield => .unlock .pfifo .threadLock
  -- 1: stalled by `PULL0` or `STATUS`
  | .puller w => .act fun c x =>
    let x := { x with control := x.control.pollFlip }
    some (x, if x.control.pullerShouldStall || c == 1 then .yield else .unlock w)
  | .unlock w => .unlock .pfifo (.lockPgraph w)
  | .lockPgraph w => .lock .pgraph (.access w)
  | .access w => .act fun _ x => x.access w
  | .dropPgraph channel => .unlock .pgraph (.lockBql channel)
  | .lockBql channel => .lock .bql (.raise channel)
  | .raise channel => .act fun _ x =>
    some ({ x with pendingInterrupts := x.pendingInterrupts ||| intrContextSwitch },
      .unlockBql channel)
  | .unlockBql channel => .unlock .bql (.relockPgraph channel)
  | .relockPgraph channel => .lock .pgraph (.check channel)
  | .check channel => .act fun _ x => some (x.check channel)
  | .method => .act fun c x =>
    (E.effect c x.control).map fun k => ({ x with control := k }, .unlockPgraph)
  | .unlockPgraph => .unlock .pgraph .relock
  | .relock => .lock .pfifo .pulled
  | .pulled => .act fun c x => some (x, if c = 0 then .pusher else .yield)
  | .free => .act fun c x => some (x, .guestBql (c / 2 ^ 32) (BitVec.ofNat 32 c))
  | .guestBql addr val => .lock .bql (.guestPfifo addr val)
  | .guestPfifo addr val => .lock .pfifo (.guestPgraph addr val)
  | .guestPgraph addr val => .lock .pgraph (.write addr val)
  | .write addr val => .act fun _ x => (x.write E addr val).map fun x => (x, .writeUnlockPgraph)
  | .writeUnlockPgraph => .unlock .pgraph .writeUnlockPfifo
  | .writeUnlockPfifo => .unlock .pfifo .writeUnlockBql
  | .writeUnlockBql => .unlock .bql .free

def holds (pfifo pgraph bql : Bool) : Lock → Bool
  | .pfifo => pfifo
  | .pgraph => pgraph
  | .bql => bql

def held : Pc → Lock → Bool
  | .threadLock | .lockPgraph _ | .lockBql _ | .relockPgraph _ | .relock | .free | .guestBql _ _ =>
    holds false false false
  | .pusher | .yield | .puller _ | .unlock _ | .pulled => holds true false false
  | .access _ | .dropPgraph _ | .check _ | .method | .unlockPgraph => holds false true false
  | .raise _ | .unlockBql _ | .guestPfifo _ _ | .writeUnlockBql => holds false false true
  | .guestPgraph _ _ | .writeUnlockPfifo => holds true false true
  | .write _ _ | .writeUnlockPgraph => holds true true true

def fifoPc : Pc → Bool
  | .free | .guestBql _ _ | .guestPfifo _ _ | .guestPgraph _ _ | .write _ _ | .writeUnlockPgraph
  | .writeUnlockPfifo | .writeUnlockBql => false
  | _ => true

section Steps

variable {E : Env} {p next : Pc} {l : Lock} {x x' : Shared} {c : Nat}
  {f : Nat → Shared → Option (Shared × Pc)} {channel : Word} {w : Option Word}

theorem access_cases (h : x.access w = some (x', next)) :
    (next = .unlockPgraph ∧ x' = x) ∨ (w = none ∧ next = .method ∧ x' = x) ∨
      (∃ channel, w = some channel ∧ x.control.onChannel channel = true ∧ next = .check channel ∧ x' = x) ∨
      ∃ channel k, w = some channel ∧ x.control.trapSwitch channel = some k ∧
        next = .dropPgraph channel ∧ x' = { x with control := k } := by
  unfold Shared.access at h
  split at h
  · cases h
    exact .inl ⟨rfl, rfl⟩
  split at h
  · cases h
    exact .inr (.inl ⟨rfl, rfl, rfl⟩)
  · next channel =>
    split at h
    · next hon =>
      cases h
      exact .inr (.inr (.inl ⟨channel, rfl, hon, rfl, rfl⟩))
    · obtain ⟨k, hk, heq⟩ := map_eq_some_iff.mp h
      cases heq
      exact .inr (.inr (.inr ⟨channel, k, rfl, hk, rfl, rfl⟩))

theorem nextWord_cases (c : Nat) (x : Shared) :
    (∃ channel, x.word = some channel ∧ x.nextWord c = (x, .puller (some channel))) ∨
      (x.word = none ∧ x.nextWord c = (x, .puller none)) ∨
      ∃ channel, x.word = none ∧ x.nextWord c =
        ({ x with word := some channel, fed := x.fed ++ [channel] }, .puller (some channel)) := by
  unfold Shared.nextWord
  cases hword : x.word with
  | some channel => exact .inl ⟨channel, rfl, rfl⟩
  | none =>
    cases c with
    | zero => exact .inr (.inl ⟨rfl, rfl⟩)
    | succ c => exact .inr (.inr ⟨BitVec.ofNat 32 c, rfl, rfl⟩)

theorem held_act (h : code E p = .act f) (hact : f c x = some (x', next)) :
    held next = held p ∧ fifoPc next = fifoPc p := by
  cases p <;> cases h
  case pusher =>
    have hnext : x.nextWord c = (x', next) := some.inj hact
    obtain ⟨_, -, heq⟩ | ⟨-, heq⟩ | ⟨_, -, heq⟩ := nextWord_cases c x <;>
      rw [heq] at hnext <;> cases hnext <;> exact ⟨rfl, rfl⟩
  case puller w =>
    obtain ⟨-, rfl⟩ := Prod.mk.inj (some.inj hact)
    split <;> exact ⟨rfl, rfl⟩
  case access w =>
    obtain ⟨rfl, -⟩ | ⟨-, rfl, -⟩ | ⟨_, -, -, rfl, -⟩ | ⟨_, _, -, -, rfl, -⟩ := access_cases hact <;> exact ⟨rfl, rfl⟩
  case check channel =>
    have hnext : x.check channel = (x', next) := some.inj hact
    rw [Shared.check] at hnext
    split at hnext <;> cases hnext <;> exact ⟨rfl, rfl⟩
  case pulled =>
    obtain ⟨-, rfl⟩ := Prod.mk.inj (some.inj hact)
    split <;> exact ⟨rfl, rfl⟩
  case method | write =>
    obtain ⟨_, -, heq⟩ := map_eq_some_iff.mp hact
    cases heq
    exact ⟨rfl, rfl⟩
  all_goals cases hact; exact ⟨rfl, rfl⟩

theorem fifoPc_goes (h : Threads.Goes (code E) p next) : fifoPc next = fifoPc p := by
  cases h with
  | lock hcode => cases p <;> cases hcode <;> rfl
  | unlock hcode => cases p <;> cases hcode <;> rfl
  | act hcode hact => exact (held_act hcode hact).2

theorem locks (E : Env) : Threads.Locks (code E) held where
  lock h := by
    rename_i p l next
    funext m
    cases p <;> cases h <;> cases m <;> rfl
  unlock h := by
    rename_i p l next
    funext m
    cases p <;> cases h <;> cases m <;> rfl
  owned h := by
    rename_i p l next
    cases p <;> cases h <;> rfl
  act hcode hact := (held_act hcode hact).1

end Steps

def carried : Pc → Option Word
  | .puller w | .unlock w | .lockPgraph w | .access w => w
  | .dropPgraph channel | .lockBql channel | .raise channel | .unlockBql channel
  | .relockPgraph channel | .check channel => some channel
  | _ => none

def switching : Pc → Option Word
  | .dropPgraph channel | .lockBql channel | .raise channel | .unlockBql channel
  | .relockPgraph channel | .check channel => some channel
  | _ => none

/-- The part of the switch without `pgraph.lock`. -/
def handover : Pc → Option Word
  | .lockBql channel | .raise channel | .unlockBql channel | .relockPgraph channel => some channel
  | _ => none

/-- Each word handed to PGRAPH was handled on its own channel. -/
structure Good (p : Pc) (x : Shared) : Prop where
  fed : x.fed = x.invoked.map Prod.fst ++ x.word.toList
  word : ∀ channel, carried p = some channel → x.word = some channel
  switch : ∀ channel, switching p = some channel →
    x.control.waitingForContextSwitch = true ∨ x.control.onChannel channel = true
  invoked : ∀ i ∈ x.invoked, i.2.onChannel i.1 = true

section Good

variable {E : Env} {p next : Pc} {l : Lock} {x x' : Shared} {c : Nat}
  {f : Nat → Shared → Option (Shared × Pc)} {channel : Word}

theorem Good.goto (h : Good p x) (hcarried : carried next = carried p)
    (hswitching : switching next = switching p) : Good next x :=
  ⟨h.fed, fun c hc => h.word c (hcarried ▸ hc), fun c hc => h.switch c (hswitching ▸ hc), h.invoked⟩

theorem Good.leave (h : Good p x) (k : Control) (hcarried : carried next = none)
    (hswitching : switching next = none) : Good next { x with control := k } :=
  ⟨h.fed, fun _ hc => absurd (hcarried.symm.trans hc) nofun,
    fun _ hc => absurd (hswitching.symm.trans hc) nofun, h.invoked⟩

theorem good_lock (h : code E p = .lock l next) (hgood : Good p x) : Good next x := by
  cases p <;> cases h <;> exact hgood.goto rfl rfl

theorem good_unlock (h : code E p = .unlock l next) (hgood : Good p x) : Good next x := by
  cases p <;> cases h <;> exact hgood.goto rfl rfl

theorem trapSwitch_waiting {k k' : Control} (h : k.trapSwitch channel = some k') :
    k'.waitingForContextSwitch = true := by
  rw [Control.trapSwitch] at h
  split at h <;> cases h
  rfl

theorem nextWord_good (c : Nat) (hgood : Good .pusher x) : Good (x.nextWord c).2 (x.nextWord c).1 := by
  obtain ⟨channel, hword, heq⟩ | ⟨hword, heq⟩ | ⟨channel, hword, heq⟩ := nextWord_cases c x <;> rw [heq]
  · exact ⟨hgood.fed, fun c hc => hword.trans hc, nofun, hgood.invoked⟩
  · exact hgood.goto rfl rfl
  · refine ⟨?_, fun c hc => hc, nofun, hgood.invoked⟩
    have hfed := hgood.fed
    rw [hword, toList_none, List.append_nil] at hfed
    exact congrArg (· ++ [channel]) hfed

theorem access_good {w : Option Word} (hgood : Good (.access w) x) (h : x.access w = some (x', next)) :
    Good next x' := by
  obtain ⟨rfl, rfl⟩ | ⟨-, rfl, rfl⟩ | ⟨channel, rfl, hon, rfl, rfl⟩ | ⟨channel, k, rfl, hk, rfl, rfl⟩ := access_cases h
  · exact hgood.leave _ rfl rfl
  · exact hgood.leave _ rfl rfl
  · refine { hgood with switch := fun c hc => .inr ?_ }
    cases hc
    exact hon
  · exact { hgood with switch := fun c hc => .inl (trapSwitch_waiting hk) }

theorem check_good (hgood : Good (.check channel) x) : Good (x.check channel).2 (x.check channel).1 := by
  rw [Shared.check]
  split
  · exact hgood.leave _ rfl rfl
  · next hwaiting =>
    have hon := (hgood.switch channel rfl).resolve_left hwaiting
    refine ⟨?_, nofun, nofun, ?_⟩
    · have hfed := hgood.fed
      rw [hgood.word channel rfl] at hfed
      simp [hfed]
    · intro i hi
      obtain hi | hi := List.mem_append.mp hi
      · exact hgood.invoked i hi
      · rw [List.mem_singleton.mp hi]
        exact hon

theorem good_act (h : code E p = .act f) (hact : f c x = some (x', next)) (hfifo : fifoPc p = true)
    (hgood : Good p x) : Good next x' := by
  cases p <;> cases h
  case pusher =>
    have hnext : x.nextWord c = (x', next) := some.inj hact
    have hgood := nextWord_good c hgood
    rw [hnext] at hgood
    exact hgood
  case puller w =>
    obtain ⟨rfl, rfl⟩ := Prod.mk.inj (some.inj hact)
    split
    · exact hgood.leave _ rfl rfl
    · exact { hgood with switch := nofun }
  case access w => exact access_good hgood hact
  case raise channel =>
    cases hact
    exact { hgood with }
  case check channel =>
    have hnext : x.check channel = (x', next) := some.inj hact
    have hgood := check_good hgood
    rw [hnext] at hgood
    exact hgood
  case method =>
    obtain ⟨k, -, heq⟩ := map_eq_some_iff.mp hact
    cases heq
    exact hgood.leave k rfl rfl
  case pulled =>
    obtain ⟨rfl, rfl⟩ := Prod.mk.inj (some.inj hact)
    split <;> exact hgood.goto rfl rfl
  all_goals cases hfifo

variable {addr : Nat} {val : Word}

theorem write_frame (h : x.write E addr val = some x') :
    x'.word = x.word ∧ x'.fed = x.fed ∧ x'.invoked = x.invoked := by
  simp only [Shared.write] at h
  repeat' split at h
  all_goals cases h
  all_goals exact ⟨rfl, rfl, rfl⟩

theorem onChannel_setReg (ha : addr ≠ ctxControl) (hb : addr ≠ ctxUser) (channel : Word) :
    (x.setReg addr val).control.onChannel channel = x.control.onChannel channel := by
  simp only [Control.onChannel, Shared.setReg, update_of_ne ha.symm, update_of_ne hb.symm]

theorem onChannel_ctxUser (hon : x.control.onChannel channel = true)
    (hval : getMask val 0x1F000000 = channel) : (x.setReg ctxUser val).control.onChannel channel = true := by
  have hne : ctxControl ≠ ctxUser := by decide
  simp_all [Control.onChannel, Shared.setReg]

theorem onChannel_ctxControl (hon : x.control.onChannel channel = true)
    (hval : (val &&& 0x00010000 != 0) = true) : (x.setReg ctxControl val).control.onChannel channel = true := by
  have hne : ctxUser ≠ ctxControl := by decide
  simp_all [Control.onChannel, Shared.setReg]

/-- The flag falls with an acknowledgement only, and not while the interrupt stays pending. -/
theorem acknowledge_waiting (hpending : (x.pendingInterrupts &&& ~~~val &&& intrContextSwitch != 0) = true) :
    (x.acknowledge val).control.waitingForContextSwitch = x.control.waitingForContextSwitch := by
  simp only [Shared.acknowledge, hpending, Bool.and_true]

theorem write_waiting (h : x.write E addr val = some x') (haddr : addr ≠ 0x100) :
    x'.control.waitingForContextSwitch = x.control.waitingForContextSwitch := by
  simp only [Shared.write, if_neg haddr] at h
  repeat' split at h
  all_goals cases h
  all_goals rfl

theorem trigger_cases (h : x.write E 0x788 val = some x') : (val &&& 1 = 0 ∧ x' = x) ∨
    (val &&& 1 ≠ 0 ∧
      x' = x.setReg ctxUser (E.ramin (getMask (x.control.regs 0x784) 0x0000FFFF <<< 4))) := by
  change (if val &&& 1 = 0 then _ else _) = _ at h
  split at h <;> cases h
  · exact .inl ⟨‹_›, rfl⟩
  · exact .inr ⟨‹_›, rfl⟩

theorem write_onChannel (h : x.write E addr val = some x') (hstays : x.staysOn E channel addr val = true)
    (hon : x.control.onChannel channel = true) : x'.control.onChannel channel = true := by
  by_cases hcontrol : addr = ctxControl
  · subst hcontrol
    cases h
    exact onChannel_ctxControl hon hstays
  by_cases huser : addr = ctxUser
  · subst huser
    cases h
    exact onChannel_ctxUser hon (eq_of_beq hstays)
  by_cases htrigger : addr = 0x788
  · subst htrigger
    simp only [Shared.staysOn, if_neg hcontrol, if_neg huser, if_true, or_eq_true, beq_iff_eq] at hstays
    obtain ⟨-, rfl⟩ | ⟨hval, rfl⟩ := trigger_cases h
    · exact hon
    · exact onChannel_ctxUser hon (hstays.resolve_left hval)
  simp only [Shared.write, if_neg htrigger] at h
  repeat' split at h
  all_goals cases h
  all_goals first
    | exact hon
    | exact (onChannel_setReg (by first | decide | assumption) (by first | decide | assumption) _).trans hon

theorem write_switch (h : x.write E addr val = some x') (hok : x.mayWrite E channel addr val = true)
    (hswitch : x.control.waitingForContextSwitch = true ∨ x.control.onChannel channel = true) :
    x'.control.waitingForContextSwitch = true ∨ x'.control.onChannel channel = true := by
  by_cases haddr : addr = 0x100
  · subst haddr
    cases h
    rw [Shared.mayWrite, if_pos rfl, or_eq_true] at hok
    rcases hok with hpending | hon
    · exact hswitch.imp_left (acknowledge_waiting hpending).trans
    · exact .inr hon
  · rw [Shared.mayWrite, if_neg haddr, or_eq_true] at hok
    rw [write_waiting h haddr]
    rcases hok with hwaiting | hstays
    · exact .inl hwaiting
    · exact hswitch.imp_right (write_onChannel h hstays)

theorem write_good (hgood : Good p x) (h : x.write E addr val = some x')
    (hok : ∀ channel, switching p = some channel → x.mayWrite E channel addr val = true) : Good p x' := by
  obtain ⟨hword, hfed, hinvoked⟩ := write_frame h
  refine ⟨?_, ?_, fun channel hc => write_switch h (hok channel hc) (hgood.switch channel hc), ?_⟩
  · rw [hfed, hinvoked, hword]
    exact hgood.fed
  · rw [hword]
    exact hgood.word
  · rw [hinvoked]
    exact hgood.invoked

end Good

abbrev State (ι : Type) := Threads Shared Pc Lock (Thread ι)

def State.init {ι : Type} (control : Control) (pendingInterrupts : Word) : State ι where
  shared := ⟨control, pendingInterrupts, none, [], []⟩
  owner _ := none
  pc
    | .pfifo => .threadLock
    | .other _ => .free

variable {ι : Type}

def keepsSwitch (E : Env) (s : State ι) (e : Turn (Thread ι)) : Bool :=
  match s.pc e.thread, handover (s.pc .pfifo) with
  | .write addr val, some channel => s.shared.mayWrite E channel addr val
  | _, _ => true

/-- Locks are owned as held, and `Good` holds where the FIFO thread is. -/
structure Inv (s : State ι) : Prop where
  owned : Threads.Owned held s
  fifo : fifoPc (s.pc .pfifo) = true
  guest : ∀ i, fifoPc (s.pc (.other i)) = false
  good : Good (s.pc .pfifo) s.shared

theorem init_inv (control : Control) (pendingInterrupts : Word) :
    Inv (State.init control pendingInterrupts : State ι) where
  owned l t := by
    refine iff_of_false (some_ne_none t).symm ?_
    cases t <;> cases l <;> exact false_ne_true
  fifo := rfl
  guest _ := rfl
  good := ⟨rfl, nofun, nofun, nofun⟩

theorem guest_act {E : Env} {p next : Pc} {x x' : Shared} {c : Nat}
    {f : Nat → Shared → Option (Shared × Pc)} (hguest : fifoPc p = false) (h : code E p = .act f)
    (hact : f c x = some (x', next)) :
    x' = x ∨ ∃ addr val, p = .write addr val ∧ x.write E addr val = some x' := by
  cases p <;> cases hguest <;> cases h
  case free =>
    cases hact
    exact .inl rfl
  case write addr val =>
    obtain ⟨x₁, hwrite, heq⟩ := map_eq_some_iff.mp hact
    cases heq
    exact .inr ⟨addr, val, rfl, hwrite⟩

theorem handover_of_switching {p : Pc} {channel : Word} (h : switching p = some channel)
    (hheld : held p .pgraph = false) : handover p = some channel := by
  cases p <;> cases h <;> first | rfl | cases hheld

variable [DecidableEq ι] {E : Env} {s s' : State ι} {e : Turn (Thread ι)}

theorem step_inv (hinv : Inv s) (hok : keepsSwitch E s e = true)
    (hstep : Threads.step (code E) s e = some s') : Inv s' := by
  have hmoves := Threads.step_moves hstep
  have hfifoPc : ∀ t, fifoPc (s'.pc t) = fifoPc (s.pc t) := by
    intro t
    by_cases ht : t = e.thread
    · rw [ht]
      exact fifoPc_goes hmoves.goes
    · rw [hmoves.pc_of_ne ht]
  refine ⟨hmoves.owned (locks E) hinv.owned, (hfifoPc _).trans hinv.fifo, fun i => (hfifoPc _).trans (hinv.guest i), ?_⟩
  cases hthread : e.thread with
  | pfifo =>
    have hgood := hinv.good
    cases hmoves <;> dsimp only <;> rw [hthread]
    case lock hcode hfree => exact good_lock (hthread ▸ hcode) hgood
    case unlock hcode => exact good_unlock (hthread ▸ hcode) hgood
    case act hcode hact => exact good_act (hthread ▸ hcode) hact hinv.fifo hgood
  | other i =>
    rw [hmoves.pc_of_ne (hthread ▸ nofun)]
    cases hmoves with
    | lock hcode hfree => exact hinv.good
    | unlock hcode => exact hinv.good
    | act hcode hact =>
      obtain rfl | ⟨addr, val, hpc, hwrite⟩ := guest_act (hthread ▸ hinv.guest i) hcode hact
      · exact hinv.good
      refine write_good hinv.good hwrite fun channel hswitching => ?_
      -- The guest holds `pgraph.lock`, so the PFIFO thread is where it has given it up.
      have hheld : held (s.pc .pfifo) .pgraph = false := by
        rw [eq_false_iff]
        intro hheld
        have hmine : held (s.pc e.thread) .pgraph = true := by rw [hpc]; rfl
        exact nomatch hthread.symm.trans (hinv.owned.unique hmine hheld)
      have hhandover := handover_of_switching hswitching hheld
      simp only [keepsSwitch, hpc, hhandover] at hok
      exact hok

/-- The puller comes back to the word: from the pusher, with nothing that stalls it and PGRAPH on the
word's channel, it calls `pgraph_method`. -/
theorem retry {channel : Word} (hpc : s.pc .pfifo = .pusher) (hword : s.shared.word = some channel)
    (hfree : s.owner .pgraph = none) (hstall : s.shared.control.pollFlip.pullerShouldStall = false)
    (hon : s.shared.control.onChannel channel = true) :
    ∃ s', run (Threads.step (code E)) s (List.replicate 6 ⟨.pfifo, 0⟩) = some s' ∧ s'.shared.word = none ∧
      s'.shared.invoked = s.shared.invoked ++ [(channel, s.shared.control.pollFlip)] := by
  obtain ⟨x, owner, pc⟩ := s
  dsimp only at hpc hword hfree hstall hon ⊢
  set k := x.control.pollFlip
  have hpass := hstall
  simp only [Control.pullerShouldStall, or_eq_false_iff] at hpass
  have hnext : x.nextWord 0 = (x, .puller (some channel)) := by
    simp only [Shared.nextWord, hword]
  have haccess : Shared.access (some channel) { x with control := k } =
      some ({ x with control := k }, .check channel) := by
    have hon' : k.onChannel channel = true := hon
    simp only [Shared.access, hpass.2, hon', false_eq_true, if_false, if_true]
  have hcheck : Shared.check channel { x with control := k } =
      ({ x with control := k, word := none, invoked := x.invoked ++ [(channel, k)] }, .method) := by
    simp only [Shared.check, hpass.1.2, false_eq_true, if_false]
  rw [← update_eq_self Thread.pfifo pc, hpc]
  refine ⟨⟨{ x with control := k, word := none, invoked := x.invoked ++ [(channel, k)] },
    update (update owner .pfifo none) .pgraph (some .pfifo),
    update pc .pfifo .method⟩, ?_, rfl, rfl⟩
  refine run_cons_eq_some.mpr ⟨_, Threads.step_at_act rfl (congrArg some hnext), ?_⟩
  have hpuller : some ({ x with control := k },
      if k.pullerShouldStall || (0 : Nat) == 1 then Pc.yield else Pc.unlock (some channel)) =
        some ({ x with control := k }, Pc.unlock (some channel)) := by
    rw [hstall]
    rfl
  refine run_cons_eq_some.mpr ⟨_, Threads.step_at_act rfl hpuller, ?_⟩
  refine run_cons_eq_some.mpr ⟨_, Threads.step_at_unlock rfl, ?_⟩
  refine run_cons_eq_some.mpr ⟨_, Threads.step_at_lock rfl hfree, ?_⟩
  refine run_cons_eq_some.mpr ⟨_, Threads.step_at_act rfl haccess, ?_⟩
  exact run_cons_eq_some.mpr ⟨_, Threads.step_at_act rfl (congrArg some hcheck), rfl⟩

/-- In every run whose guest writes during a switch are such as `Shared.mayWrite` lets through,
`pgraph_method` was called for each `SET_OBJECT` word on its channel, the words are consumed by such calls
in order with at most the current one left, and that one is tried again. -/
theorem setObject_on_channel {control : Control} {pendingInterrupts : Word}
    {es : List (Turn (Thread ι))}
    (hrun : run (Threads.step (code E)) (State.init control pendingInterrupts) es = some s)
    (hmeets : Meets (Threads.step (code E)) (fun s e => keepsSwitch E s e = true)
      (State.init control pendingInterrupts) es) :
    (∀ i ∈ s.shared.invoked, i.2.onChannel i.1 = true) ∧
      s.shared.fed = s.shared.invoked.map Prod.fst ++ s.shared.word.toList ∧
      ∀ channel, s.shared.word = some channel → s.pc .pfifo = .pusher → s.owner .pgraph = none →
        s.shared.control.pollFlip.pullerShouldStall = false →
        s.shared.control.onChannel channel = true →
        ∃ s', run (Threads.step (code E)) s (List.replicate 6 ⟨.pfifo, 0⟩) = some s' ∧
          s'.shared.word = none ∧
          s'.shared.invoked = s.shared.invoked ++ [(channel, s.shared.control.pollFlip)] := by
  have hinv := run_invariant_of_meets Inv (fun s e s' => step_inv)
    (init_inv control pendingInterrupts) hmeets hrun
  refine ⟨hinv.good.invoked, hinv.good.fed, fun channel hword hpc hfree hstall hon => ?_⟩
  exact retry hpc hword hfree hstall hon

def onChannelZero : Control where
  regs addr := if addr = ctxControl then 0x00010000 else if addr = 0x720 then 1 else 0
  waitingForFlip := false
  waitingForNop := false
  waitingForContextSwitch := false

def plainEnv : Env := ⟨fun _ => 0, fun _ k => some k⟩

def turns (t : Thread Unit) (choices : List Nat) : List (Turn (Thread Unit)) := choices.map (⟨t, ·⟩)

def guestWrite (addr val : Nat) : List (Turn (Thread Unit)) :=
  turns (.other ()) [addr * 2 ^ 32 + val, 0, 0, 0, 0, 0, 0, 0]

def switchToOne : List (Turn (Thread Unit)) := turns .pfifo [0, 2, 0, 0, 0, 0, 0]

/-- The guest answers the first switch, to channel 1, while the puller is without `pgraph.lock`: it sets
`CTX_USER`, acknowledges another interrupt once this one is pending, and then this one. It answers the
second, to channel 2, after the puller has left the word for later. -/
def switchAnswered : List (Turn (Thread Unit)) :=
  switchToOne ++ guestWrite 0x148 0x01000000 ++ turns .pfifo [0, 0, 0] ++ guestWrite 0x100 0x1 ++
    guestWrite 0x100 0x1000 ++ turns .pfifo [0, 0, 0, 0, 0, 0] ++
    turns .pfifo [3, 0, 0, 0, 0, 0, 0, 0, 0, 0, 0, 0, 0, 1, 0] ++ guestWrite 0x148 0x02000000 ++
    guestWrite 0x100 0x1000 ++ turns .pfifo [0]

theorem setObject_on_channel_answered :
    ∃ s s', run (Threads.step (code plainEnv)) (State.init onChannelZero 0) switchAnswered = some s ∧
      s.shared.invoked.map Prod.fst = [1] ∧ (∀ i ∈ s.shared.invoked, i.2.onChannel i.1 = true) ∧
      run (Threads.step (code plainEnv)) s (List.replicate 6 ⟨.pfifo, 0⟩) = some s' ∧
      s'.shared.word = none ∧
      s'.shared.invoked = s.shared.invoked ++ [(2, s.shared.control.pollFlip)] := by
  obtain ⟨s, hs, hfirst, hword, hpc, hfree, hstall, hon⟩ : ∃ s,
      run (Threads.step (code plainEnv)) (State.init onChannelZero 0) switchAnswered = some s ∧
      s.shared.invoked.map Prod.fst = [1] ∧ s.shared.word = some 2 ∧ s.pc .pfifo = .pusher ∧
      s.owner .pgraph = none ∧ s.shared.control.pollFlip.pullerShouldStall = false ∧
      s.shared.control.onChannel 2 = true := by
    decide +kernel
  obtain ⟨hinvoked, -, hretry⟩ := setObject_on_channel hs (by decide +kernel)
  obtain ⟨s', hs', hdone⟩ := hretry 2 hword hpc hfree hstall hon
  exact ⟨s, s', hs, hfirst, hinvoked, hs', hdone⟩

/-- The guest acknowledges another interrupt while the context switch is not pending yet: the word for
channel 1 is executed on channel 0. -/
theorem setObject_on_wrong_channel :
    (run (Threads.step (code plainEnv)) (State.init onChannelZero 0)
      (switchToOne ++ guestWrite 0x100 0x1 ++ turns .pfifo [0, 0, 0, 0, 0])).map
        (fun s => s.shared.invoked.map fun i => (i.1, i.2.onChannel i.1, i.2.onChannel 0)) =
      some [(1, false, true)] := by
  decide +kernel

end Switching

end XogMobile.Nv2a
