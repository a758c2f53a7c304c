import XogMobile.Nv2a.Deadlock

/-!
# Reset, save and load against the pusher

`nv2a_reset`, saving and loading set `halt` and wait until the PFIFO thread has been seen outside of the
pusher: by an event that `process_pending` sets, or by the broadcast before it sleeps. While `halt` stays
set it does not go back, so the registers are cleared, saved or loaded between methods. `halt` is one
flag for all of them and for changes of the surface scale, which clear it when they are done.
-/

namespace XogMobile.Nv2a.Locking

open Lib Lib.Threads

inductive Stage where
  | unconcerned
  | halting
  | awaitFlush
  | awaitDirty
  | awaitIdle (seen : Nat)
  | settled
  | clearing
  deriving DecidableEq

def Section.before : Section → Stage
  | .resetClear _ | .save => .settled
  | .load => .halting
  | .resetHalt | .saveHalt | .restore | .running => .unconcerned

def Section.asleep : Section → Nat → Stage
  | .resetClear _, _ | .save, _ => .settled
  | .load, seen => .awaitIdle seen
  | .resetHalt, _ | .saveHalt, _ | .restore, _ | .running, _ => .unconcerned

def Section.awake : Section → Stage
  | .resetClear _ | .save | .load => .settled
  | .resetHalt | .saveHalt | .restore | .running => .unconcerned

def After.stage : After → Stage
  | .reset _ => .awaitFlush
  | .saveHalt => .awaitDirty
  | .restore => .halting
  | .finished => .unconcerned

def stage : Pc → Stage
  | .lockFifo c | .lockBroadcast c => c.before
  | .lockSleep c seen | .lockAsleep c seen => c.asleep seen
  | .lockWake c | .lockPgraph c | .locked c => c.awake
  | .clear => .clearing
  | .unlockFifo a | .unlockPgraph a | .unlockPfifo a => a.stage
  | .resetWait _ => .awaitFlush
  | .saveWait => .awaitDirty
  | .restored => .halting
  | _ => .unconcerned

/-- What a thread relies on at its stage. `out` says that the PFIFO thread is not in the pusher. -/
def Stage.Fits (x : Flags) (out : Prop) : Stage → Prop
  | .unconcerned => True
  | .halting => x.halt = true
  | .awaitFlush => x.halt = true ∧ (x.flushComplete = true → out)
  | .awaitDirty => x.halt = true ∧ (x.dirtySurfacesDownloadComplete = true → out)
  | .awaitIdle seen => x.halt = true ∧ (x.fifoIdleCond ≠ seen → out)
  | .settled => x.halt = true ∧ out
  | .clearing => out

def unhalts : Pc → Bool
  | .locked .running | .locked (.resetClear false) | .scaleRun => true
  | _ => false

section Steps

variable {p next : Pc} {l : Lock} {x x' : Flags} {c : Nat} {f : Nat → Flags → Option (Flags × Pc)}

theorem stage_lock (h : code p = .lock l next) : stage next = stage p := by
  cases p <;> cases h
  case pendRelock k => cases k <;> rfl
  all_goals rfl

theorem stage_unlock (h : code p = .unlock l next) : stage next = stage p := by
  cases p <;> cases h
  case accessUnlock wait => cases wait <;> rfl
  case unlockPfifo a => cases a <;> rfl
  all_goals rfl

/-- What the other threads do to the flags: only the PFIFO thread sets the events and broadcasts that it
is idle. -/
structure Quiet (x x' : Flags) : Prop where
  flush : x'.flushComplete = true → x.flushComplete = true
  dirty : x'.dirtySurfacesDownloadComplete = true → x.dirtySurfacesDownloadComplete = true
  idle : x'.fifoIdleCond = x.fifoIdleCond

theorem Quiet.refl (x : Flags) : Quiet x x := ⟨id, id, rfl⟩

theorem inSection_quiet (c : Section) (x : Flags) : Quiet x (inSection c x).1 := by
  cases c with
  | resetHalt => exact ⟨nofun, id, rfl⟩
  | resetClear halted => cases halted <;> exact ⟨id, id, rfl⟩
  | saveHalt => exact ⟨id, nofun, rfl⟩
  | save => exact .refl x
  | restore | load | running => exact ⟨id, id, rfl⟩

theorem start_quiet (h : start c x = some (x', next)) : Quiet x x' ∧ x'.halt = x.halt := by
  rw [start.eq_def] at h
  split at h
  case h_4 =>
    split at h
    · cases h
      exact ⟨⟨id, id, rfl⟩, rfl⟩
    · cases h
  case h_9 => cases h
  all_goals cases h; exact ⟨.refl x, rfl⟩

theorem branch_flags {flag : Bool} {yes no : Pc}
    (h : some (x, if flag then yes else no) = some (x', next)) : x' = x := by
  cases flag <;> cases h <;> rfl

theorem await_flags {q : Prop} [Decidable q] {yes : Pc}
    (h : (if q then some (x, yes) else none) = some (x', next)) : q ∧ x' = x := by
  split at h
  · cases h
    exact ⟨‹q›, rfl⟩
  · cases h

theorem choose_flags {nexts : List Pc} (h : nexts[c]?.map (fun next => (x, next)) = some (x', next)) : x' = x := by
  obtain ⟨q, -, heq⟩ := Option.map_eq_some_iff.mp h
  cases heq
  rfl

theorem act_quiet (h : code p = .act f) (hact : f c x = some (x', next))
    (hrole : (region p).role ≠ .fifo) : Quiet x x' := by
  cases p <;> cases h <;> try exact absurd rfl hrole
  case free => exact (start_quiet hact).1
  case locked c =>
    have hx : (inSection c x).1 = x' := congrArg Prod.fst (Option.some.inj hact)
    rw [← hx]
    exact inSection_quiet c x
  case write =>
    cases hact
    split <;> exact ⟨id, id, rfl⟩
  case scaleTrigger k =>
    cases hact
    cases k
    · exact ⟨id, nofun, rfl⟩
    · exact ⟨nofun, id, rfl⟩
  case accessWait | cpuWait | lockAsleep | resetWait | saveWait | scaleWait =>
    obtain ⟨-, rfl⟩ := await_flags hact
    exact .refl x'
  case scaleFree | access | restored =>
    rw [choose_flags hact]
    exact .refl x
  all_goals cases hact; exact ⟨id, id, rfl⟩

theorem processPending_halt (x : Flags) : x.processPending.halt = x.halt := by
  simp only [Flags.processPending]
  split <;> split <;> split <;> rfl

theorem startSwitch_halt (x : Flags) : x.startSwitch.halt = x.halt := by
  rw [Flags.startSwitch]
  split <;> rfl

theorem act_halt (h : code p = .act f) (hact : f c x = some (x', next)) (hunhalts : unhalts p = false)
    (hhalt : x.halt = true) : x'.halt = true := by
  cases p <;> cases h
  case free => rw [(start_quiet hact).2, hhalt]
  case locked c =>
    have hx : (inSection c x).1 = x' := congrArg Prod.fst (Option.some.inj hact)
    rw [← hx]
    cases c with
    | resetHalt | saveHalt | restore => rfl
    | resetClear halted =>
      cases halted with
      | false => cases hunhalts
      | true => exact hhalt
    | save | load => exact hhalt
    | running => cases hunhalts
  case write =>
    cases hact
    split <;> exact hhalt
  case scaleTrigger k =>
    cases hact
    cases k <;> exact hhalt
  case scaleRun => cases hunhalts
  case pendWork =>
    cases hact
    rw [processPending_halt, hhalt]
  case switchCheck =>
    obtain ⟨rfl, -⟩ := Prod.mk.inj (Option.some.inj hact)
    split
    · rw [startSwitch_halt, hhalt]
    · exact hhalt
  case idle | pend | switchFramebuffer | haltCheck => rw [branch_flags hact, hhalt]
  case fifoAsleep | accessWait | cpuWait | lockAsleep | resetWait | saveWait | scaleWait =>
    rw [(await_flags hact).2, hhalt]
  case framebufferAsleep | methodBql | puller | pullerStall | method | pulled | pusher | scaleFree
    | access | restored => rw [choose_flags hact, hhalt]
  all_goals cases hact; first | exact hhalt | rfl

/-- A wake-up of `nv2a_pre_load` without a broadcast. -/
def spurious (p : Pc) (x : Flags) : Bool :=
  match p with
  | .lockAsleep .load seen => x.fifoIdleCond == seen
  | _ => false

theorem start_stage (h : start c x = some (x', next)) : stage next = .unconcerned := by
  rw [start.eq_def] at h
  split at h
  case h_4 =>
    split at h
    · cases h
      rfl
    · cases h
  case h_9 => cases h
  all_goals cases h; rfl

theorem inSection_fits {k : Section} {out : Prop} (hfits : k.awake.Fits x out) :
    (stage (inSection k x).2).Fits (inSection k x).1 out := by
  cases k with
  | resetHalt => exact ⟨rfl, nofun⟩
  | resetClear halted => exact hfits.2
  | saveHalt => exact ⟨rfl, nofun⟩
  | restore => exact rfl
  | save | load | running => trivial

theorem act_fits {out : Prop} (h : code p = .act f) (hact : f c x = some (x', next))
    (hspurious : spurious p x = false) (hfits : (stage p).Fits x out) :
    (stage next).Fits x' out := by
  cases p <;> cases h
  case locked k =>
    have hpair : inSection k x = (x', next) := Option.some.inj hact
    have hgoal := inSection_fits hfits
    rw [hpair] at hgoal
    exact hgoal
  case free => rw [start_stage hact]; trivial
  case lockBroadcast k =>
    cases hact
    cases k with
    | load => exact ⟨hfits, fun hne => absurd rfl hne⟩
    | resetClear | save => exact hfits
    | resetHalt | saveHalt | restore | running => trivial
  case lockAsleep k seen =>
    obtain ⟨hwake, rfl⟩ := await_flags hact
    rw [await_next hact]
    cases k with
    | load =>
      have hne : x'.fifoIdleCond ≠ seen := beq_eq_false_iff_ne.mp hspurious
      exact ⟨hfits.1, hfits.2 hne⟩
    | resetClear | save => exact hfits
    | resetHalt | saveHalt | restore | running => trivial
  case unlockFifo a =>
    cases hact
    cases a <;> exact hfits
  case resetWait halted =>
    obtain ⟨hflush, rfl⟩ := await_flags hact
    rw [await_next hact]
    exact ⟨hfits.1, hfits.2 hflush⟩
  case saveWait =>
    obtain ⟨hdirty, rfl⟩ := await_flags hact
    rw [await_next hact]
    exact ⟨hfits.1, hfits.2 hdirty⟩
  case restored =>
    have hnext := choose_next hact
    rw [choose_flags hact]
    simp only [List.mem_cons, List.not_mem_nil, or_false] at hnext
    obtain rfl | rfl := hnext
    · exact hfits
    · trivial
  case idle | switchFramebuffer | haltCheck => obtain rfl | rfl := branch_next hact <;> trivial
  case pend k => obtain rfl | rfl := branch_next hact <;> cases k <;> trivial
  case switchCheck =>
    obtain ⟨-, rfl⟩ := Prod.mk.inj (Option.some.inj hact)
    split <;> split <;> trivial
  case scaleWait k => rw [await_next hact]; cases k <;> trivial
  case fifoAsleep | accessWait | cpuWait => rw [await_next hact]; trivial
  case framebufferAsleep | methodBql | puller | pullerStall | method | pulled | pusher | scaleFree
    | access =>
    have hnext := choose_next hact
    simp only [List.mem_cons, List.not_mem_nil, or_false] at hnext
    rcases hnext with rfl | rfl | rfl <;> trivial
  all_goals cases hact; trivial

theorem act_pusher (h : code p = .act f) (hact : f c x = some (x', next)) (hnext : region next = .pusher) :
    x' = x ∧ (region p = .pusher ∨ p = .haltCheck ∧ x.halt = false) := by
  have hreached := (held_act h hact).2
  rw [hnext] at hreached
  cases p <;> cases h <;> try cases hreached
  case haltCheck =>
    refine ⟨branch_flags hact, .inr ⟨rfl, ?_⟩⟩
    cases hhalt : x.halt with
    | false => rfl
    | true =>
      dsimp only at hact
      rw [hhalt] at hact
      cases hact
      cases hnext
  all_goals exact ⟨choose_flags hact, .inl rfl⟩

theorem lock_pusher (h : code p = .lock l next) (hnext : region next = .pusher) : region p = .pusher := by
  have hreached := region_lock h
  rw [hnext] at hreached
  cases p <;> cases h <;> first | rfl | cases hreached

theorem unlock_pusher (h : code p = .unlock l next) (hnext : region next = .pusher) : region p = .pusher := by
  have hreached := region_unlock h
  rw [hnext] at hreached
  cases p <;> cases h <;> first | rfl | cases hreached

theorem stage_of_role (h : (region p).role ≠ .other) : stage p = .unconcerned := by
  cases p <;> first | rfl | exact absurd rfl h

end Steps

namespace Stage

variable {x x' : Flags} {out out' : Prop} {a : Stage}

theorem Fits.mono (h : a.Fits x out) (hquiet : Quiet x x') (hhalt : x.halt = true → x'.halt = true) :
    a.Fits x' out := by
  cases a with
  | unconcerned => trivial
  | halting => exact hhalt h
  | awaitFlush => exact ⟨hhalt h.1, fun hflush => h.2 (hquiet.flush hflush)⟩
  | awaitDirty => exact ⟨hhalt h.1, fun hdirty => h.2 (hquiet.dirty hdirty)⟩
  | awaitIdle seen => exact ⟨hhalt h.1, fun hne => h.2 (hquiet.idle ▸ hne)⟩
  | settled => exact ⟨hhalt h.1, h.2⟩
  | clearing => exact h

theorem Fits.of_out (h : a.Fits x out) (hhalt : x.halt = true → x'.halt = true) (hout : out') : a.Fits x' out' := by
  cases a with
  | unconcerned => trivial
  | halting => exact hhalt h
  | awaitFlush | awaitDirty | awaitIdle => exact ⟨hhalt h.1, fun _ => hout⟩
  | settled => exact ⟨hhalt h.1, hout⟩
  | clearing => exact hout

theorem Fits.halt (h : a.Fits x out) (ha : a ≠ .unconcerned) (ha' : a ≠ .clearing) : x.halt = true := by
  cases a with
  | unconcerned => exact absurd rfl ha
  | clearing => exact absurd rfl ha'
  | halting => exact h
  | awaitFlush | awaitDirty | awaitIdle | settled => exact h.1

end Stage

variable {ι : Type} {s s' : State ι}

def State.OutOfPusher (s : State ι) : Prop := region (s.pc .pfifo) ≠ .pusher

def StagesFit (s : State ι) : Prop := ∀ t, (stage (s.pc t)).Fits s.shared s.OutOfPusher

/-- Whether this step clears `halt` under no other thread that needs it, and is no spurious wake-up of
`nv2a_pre_load`. -/
def keepsHalt (s : State ι) (e : Turn (Thread ι)) : Prop :=
  (unhalts (s.pc e.thread) = true →
    ∀ i, Thread.other i ≠ e.thread → stage (s.pc (.other i)) = .unconcerned) ∧
  spurious (s.pc e.thread) s.shared = false

theorem init_stagesFit (scales : ι → Bool) (framebufferInUse : Bool) :
    StagesFit (State.init scales framebufferInUse) := by
  intro t
  cases t with
  | pfifo => trivial
  | other i =>
    change (stage (if scales i then .scaleFree else .free)).Fits _ _
    cases scales i <;> trivial

theorem held_of_clearing {p : Pc} (h : stage p = .clearing) : held p .pfifo = true := by
  cases p
  case clear => rfl
  case lockFifo c | lockBroadcast c | lockWake c | lockPgraph c | locked c => cases c <;> cases h
  case lockSleep c seen | lockAsleep c seen => cases c <;> cases h
  case unlockFifo a | unlockPgraph a | unlockPfifo a => cases a <;> cases h
  all_goals cases h

variable [DecidableEq ι] {scales : ι → Bool} {e : Turn (Thread ι)}

theorem moves_halt (h : Moves code s e s') (hunhalts : unhalts (s.pc e.thread) = false)
    (hhalt : s.shared.halt = true) : s'.shared.halt = true := by
  cases h with
  | lock hcode hfree => exact hhalt
  | unlock hcode => exact hhalt
  | act hcode hact => exact act_halt hcode hact hunhalts hhalt

theorem moves_quiet (h : Moves code s e s') (hrole : (region (s.pc e.thread)).role ≠ .fifo) :
    Quiet s.shared s'.shared := by
  cases h with
  | lock hcode hfree => exact .refl _
  | unlock hcode => exact .refl _
  | act hcode hact => exact act_quiet hcode hact hrole

theorem moves_fits {out : Prop} (h : Moves code s e s') (hspurious : spurious (s.pc e.thread) s.shared = false)
    (hfits : (stage (s.pc e.thread)).Fits s.shared out) :
    (stage (s'.pc e.thread)).Fits s'.shared out := by
  cases h <;> dsimp only <;> rw [Function.update_self]
  case lock hcode hfree => exact stage_lock hcode ▸ hfits
  case unlock hcode => exact stage_unlock hcode ▸ hfits
  case act hcode hact => exact act_fits hcode hact hspurious hfits

theorem moves_pusher (h : Moves code s e s') (hpfifo : e.thread = .pfifo) (hin : ¬ s'.OutOfPusher) :
    s'.shared = s.shared ∧ (¬ s.OutOfPusher ∨ s.pc .pfifo = .haltCheck ∧ s.shared.halt = false) := by
  have hnext : region (s'.pc .pfifo) = .pusher := not_not.mp hin
  simp only [State.OutOfPusher, not_not]
  cases h <;> dsimp only at hnext ⊢ <;> rw [hpfifo] at hnext
  case lock hcode hfree => exact ⟨rfl, .inl (lock_pusher (hpfifo ▸ hcode) hnext)⟩
  case unlock hcode => exact ⟨rfl, .inl (unlock_pusher (hpfifo ▸ hcode) hnext)⟩
  case act hcode hact => exact act_pusher (hpfifo ▸ hcode) hact hnext

theorem unhalts_fifo {p : Pc} (h : (region p).role = .fifo) : unhalts p = false := by
  cases p <;> first | rfl | cases h

theorem moves_stagesFit (h : Moves code s e s') (howned : Owned held s) (hroles : Roles scales s)
    (hfit : StagesFit s) (hok : keepsHalt s e) : StagesFit s' := by
  intro t
  by_cases hpfifo : e.thread = .pfifo
  · -- A step of the PFIFO thread: the others rely on it not to enter the pusher.
    by_cases ht : t = .pfifo
    · have hrole := (moves_roles h hroles).pfifo
      rw [ht, stage_of_role (hrole ▸ nofun)]
      trivial
    rw [h.pc_of_ne (hpfifo ▸ ht)]
    have hhalt := moves_halt h (unhalts_fifo (hpfifo ▸ hroles.pfifo))
    by_cases hout : s'.OutOfPusher
    · exact (hfit t).of_out hhalt hout
    obtain ⟨hsame, hin | ⟨hcheck, hclear⟩⟩ := moves_pusher h hpfifo hout
    · rw [hsame, eq_false hout, ← eq_false hin]
      exact hfit t
    · by_cases hstage : stage (s.pc t) = .unconcerned
      · rw [hstage]
        trivial
      by_cases hclearing : stage (s.pc t) = .clearing
      · have hheld : held (s.pc .pfifo) .pfifo = true := by rw [hcheck]; rfl
        exact absurd (howned.unique (held_of_clearing hclearing) hheld) ht
      · have := (hfit t).halt hstage hclearing
        rw [hclear] at this
        exact absurd this (by decide)
  · -- A step of another thread: where the PFIFO thread is does not change.
    have hsame : s'.OutOfPusher = s.OutOfPusher := by
      rw [State.OutOfPusher, h.pc_of_ne (Ne.symm hpfifo), State.OutOfPusher]
    rw [hsame]
    by_cases ht : t = e.thread
    · rw [ht]
      exact moves_fits h hok.2 (hfit e.thread)
    rw [h.pc_of_ne ht]
    cases t with
    | pfifo =>
      rw [stage_of_role (hroles.pfifo ▸ nofun)]
      trivial
    | other i =>
      cases hunhalts : unhalts (s.pc e.thread) with
      | true =>
        rw [hok.1 hunhalts i ht]
        trivial
      | false =>
        have hrole : (region (s.pc e.thread)).role ≠ .fifo := by
          cases hthread : e.thread with
          | pfifo => exact absurd hthread hpfifo
          | other j =>
            rw [hroles.other j]
            cases scales j <;> nofun
        exact (hfit (.other i)).mono (moves_quiet h hrole) (moves_halt h hunhalts)

/-- Where a thread clears the registers, or the state is being saved or loaded. -/
def touchesState : Pc → Bool
  | .clear | .locked .save | .locked .load => true
  | _ => false

/-- In every run in which `halt` is cleared under no thread that needs it and `nv2a_pre_load` is woken by
broadcasts only, the PFIFO thread is outside of the pusher whenever a reset clears the registers and
while the state is saved or loaded. -/
theorem outOfPusher_of_touchesState {framebufferInUse : Bool} {es : List (Turn (Thread ι))}
    {i : ι} (hrun : run (step code) (State.init scales framebufferInUse) es = some s)
    (hmeets : Meets (step code) keepsHalt (State.init scales framebufferInUse) es)
    (htouch : touchesState (s.pc (.other i)) = true) : s.OutOfPusher := by
  obtain ⟨-, -, hfit⟩ := run_invariant_of_meets
    (fun s => Owned held s ∧ Roles scales s ∧ StagesFit s)
    (fun s e s' hinv hok hstep =>
      have hmoves := step_moves hstep
      ⟨hmoves.owned locks hinv.1, moves_roles hmoves hinv.2.1,
        moves_stagesFit hmoves hinv.1 hinv.2.1 hinv.2.2 hok⟩)
    ⟨init_owned _ _, init_roles _ _, init_stagesFit _ _⟩ hmeets hrun
  have hfits := hfit (.other i)
  cases hpc : s.pc (.other i) with
  | clear =>
    rw [hpc] at hfits
    exact hfits
  | locked c =>
    rw [hpc] at hfits htouch
    cases c with
    | save | load => exact hfits.2
    | resetHalt | resetClear | saveHalt | restore | running => cases htouch
  | _ => rw [hpc] at htouch; cases htouch

instance [Fintype ι] (s : State ι) (e : Turn (Thread ι)) : Decidable (keepsHalt s e) :=
  inferInstanceAs (Decidable (_ ∧ _))

def turns (t : Thread ι) (choices : List Nat) : List (Turn (Thread ι)) := choices.map (⟨t, ·⟩)

def saveDuringMethod : List (Turn (Thread Bool)) :=
  turns .pfifo [0, 0, 0, 0, 0, 2, 0, 1, 0] ++ turns (.other true) [5, 0, 0, 0] ++
    turns .pfifo [0, 0, 0, 0, 0, 0, 0, 0] ++ turns (.other true) [0, 0, 0, 0, 0, 0, 0] ++
    turns .pfifo (.replicate 14 0) ++ turns (.other true) [0, 0, 0, 0] ++
    turns .pfifo (.replicate 9 0) ++ turns (.other true) [0, 0, 0]

theorem outOfPusher_of_touchesState_save :
    ∃ s : State Bool, run (step code) (State.init (fun _ => false) false) saveDuringMethod = some s ∧
      s.pc (.other true) = .locked .save ∧ s.OutOfPusher := by
  refine exists_some_and (by decide +kernel) fun s hs hpc => ?_
  exact outOfPusher_of_touchesState hs (by decide +kernel) (by rw [hpc]; rfl)

/-- A change of the surface scale (`false`) ends while a save (`true`) waits for an idle FIFO. -/
def scaleEndsDuringSave : List (Turn (Thread Bool)) :=
  turns (.other false) (.replicate 11 0) ++ turns .pfifo (.replicate 13 0) ++
    turns (.other false) (.replicate 7 0) ++ turns .pfifo (.replicate 14 0) ++
    turns (.other false) [0] ++ turns (.other true) [5, 0, 0, 0] ++ turns .pfifo (.replicate 9 0) ++
    turns (.other true) [0, 0, 0, 0, 0, 0, 0] ++ turns .pfifo (.replicate 14 0) ++
    turns (.other true) [0, 0, 0, 0] ++ turns .pfifo (.replicate 9 0) ++ turns (.other true) [0] ++
    turns (.other false) [0, 0, 0] ++ turns .pfifo [0, 0, 0, 0, 0, 0, 2, 0, 1, 0, 0] ++
    turns (.other true) [0] ++ turns .pfifo [0, 0] ++ turns (.other true) [0]

/-- The state is being saved while the PFIFO thread waits in the puller to advance `DMA_GET` over a method
that it has executed. -/
theorem pusher_interrupted_by_save :
    (run (step code) (State.init (fun i : Bool => !i) false) scaleEndsDuringSave).map
      (fun s => (s.pc (.other true), s.pc .pfifo, region (s.pc .pfifo))) =
        some (.locked .save, .pullerRelock, .pusher) := by
  decide +kernel

end XogMobile.Nv2a.Locking
