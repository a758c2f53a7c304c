import XogMobile.Apu.FrameThread

/-!
# A paused frame thread makes no frames

The frame thread is idle exactly while it is in the wait at the head of its loop, and as long as a
pause is requested it comes back there. So a call that has seen `is_idle` keeps it there until someone
clears `pause_requested`. A reset clears it, whoever had set it.
-/

namespace XogMobile.Apu

open Lib Threads Function Nat

/-- `is_idle` is set. -/
def FramePoint.idling : FramePoint → Bool
  | .idleRelease | .idleBlocked | .idleReacquire | .idleLeave => true
  | _ => false

def FramePoint.settled : FramePoint → Bool
  | .head | .idleEnter | .idleRelease | .idleBlocked | .idleReacquire | .idleLeave => true
  | _ => false

def FramePoint.arriving : FramePoint → Bool
  | .start => true
  | p => p.settled

/-- `se_frame` is under way. -/
def FramePoint.inFrame : FramePoint → Bool
  | .frame | .voices | .process | .dsp | .restRelease .voices | .restBlocked .voices
  | .restReacquire .voices => true
  | _ => false

def CallerPoint.inCall : CallerPoint → Bool
  | .out | .ready | .bqlRelease => false
  | _ => true

def CallerPoint.paused : CallerPoint → Bool
  | .request none | .test _ _ | .waitRelease _ | .waitBlocked _ | .waitReacquire _ | .quiet _
  | .resume | .unlock none | .unlock (some .stop) | .bql .stop | .returned (some .stop) => true
  | _ => false

def CallerPoint.settles : CallerPoint → Bool → Bool
  | .test _ again, _ => again
  | .waitRelease _, sleeping | .waitBlocked _, sleeping => !sleeping
  | .waitReacquire _, _ | .quiet _, _ | .resume, _ | .unlock none, _ | .unlock (some .stop), _
  | .bql .stop, _ | .returned (some .stop), _ => true
  | _, _ => false

def CallerPoint.realizing : CallerPoint → Bool
  | .request none | .test none _ | .waitRelease none | .waitBlocked none | .waitReacquire none => true
  | _ => false

def CallerPoint.resumes : CallerPoint → Bool
  | .bqlDrop .reset | .lock .reset | .request (some .reset) | .test (some .reset) _
  | .waitRelease (some .reset) | .waitBlocked (some .reset) | .waitReacquire (some .reset)
  | .quiet (some .reset) | .resume | .startLock | .startResume => true
  | _ => false

def FramePoint.rank : FramePoint → Nat
  | .idleEnter => 1
  | .head => 2
  | .start => 3
  | .dsp => 3
  | .process => 4
  | .voices => 4
  | .frame => 5
  | .throttle => 6
  | .recheck => 7
  | .irqClear => 8
  | .irqRelock => 9
  | .irqBqlUnlock => 10
  | .irqUpdate => 11
  | .irqBql => 12
  | .irqUnlock => 13
  | .restReacquire .poll => 3
  | .restBlocked .poll => 4
  | .restRelease .poll => 5
  | .restReacquire .voices => 5
  | .restBlocked .voices => 6
  | .restRelease .voices => 7
  | .restReacquire .throttle => 7
  | .restBlocked .throttle => 8
  | .restRelease .throttle => 9
  | .idleRelease | .idleBlocked | .idleReacquire | .idleLeave => 0

def CallerPoint.waiting : CallerPoint → Bool
  | .waitRelease _ | .waitBlocked _ => true
  | _ => false

theorem FramePoint.inFrame_of_settled {p : FramePoint} (h : p.settled = true) : p.inFrame = false := by
  cases p <;> first | rfl | cases h

theorem FramePoint.arriving_of_settled {p : FramePoint} (h : p.settled = true) : p.arriving = true := by
  cases p <;> first | rfl | cases h

theorem FramePoint.settled_of_idling {p : FramePoint} (h : p.idling = true) : p.settled = true := by
  cases p <;> first | rfl | cases h

variable {p : CallerPoint}

theorem CallerPoint.paused_of_realizing (h : p.realizing = true) : p.paused = true := by
  cases p
  case request c => cases c <;> first | rfl | cases h
  all_goals first | rfl | cases h

theorem CallerPoint.paused_of_settles {b : Bool} (h : p.settles b = true) : p.paused = true := by
  cases p
  case request c | unlock c | returned c =>
    rcases c with _ | _ | _ <;> first | rfl | cases h
  case bql c => cases c <;> first | rfl | cases h
  all_goals first | rfl | cases h

theorem CallerPoint.inCall_of_paused (h : p.paused = true) : p.inCall = true := by
  cases p <;> first | rfl | cases h

theorem CallerPoint.inCall_of_resumes (h : p.resumes = true) : p.inCall = true := by
  cases p <;> first | rfl | cases h

theorem CallerPoint.inCall_of_waiting (h : p.waiting = true) : p.inCall = true := by
  cases p <;> first | rfl | cases h

variable {C : ApuChoices} {c : Nat} {x x' : ApuState} {next : ApuPoint} {l : ApuLock}
  {f : Nat → ApuState → Option (ApuState × ApuPoint)}

theorem frame_act_held {p : FramePoint} (h : frameCode C p = .act f)
    (hact : f c x = some (x', next)) : next.held l = p.held l := by
  cases p <;> cases h
  case head =>
    dsimp only at hact
    split at hact <;> cases hact
    · cases l <;> rfl
    · generalize (if x.Off then { x with setIrq := true } else x) = y
      cases y.setIrq <;> cases l <;> rfl
  case recheck => cases hact; split <;> cases l <;> rfl
  case throttle => cases hact; split <;> cases l <;> rfl
  case voices =>
    dsimp only at hact
    split at hact <;> cases hact
    · cases l <;> rfl
    · split <;> cases l <;> rfl
  case idleBlocked =>
    obtain ⟨-, ⟨⟩⟩ := Option.ite_none_left_eq_some.mp hact
    cases l <;> rfl
  all_goals cases hact; cases l <;> rfl

theorem caller_act_held {k : Nat} (h : callerCode C k p = .act f) (hact : f c x = some (x', next)) :
    next.held l = p.held l := by
  cases p <;> cases h
  case ready =>
    dsimp only at hact
    split at hact <;> cases hact <;> cases l <;> rfl
  case test q again =>
    dsimp only at hact
    split at hact <;> cases hact <;> cases q <;> cases l <;> rfl
  case waitBlocked q =>
    obtain ⟨-, ⟨⟩⟩ := Option.ite_none_left_eq_some.mp hact
    cases q <;> cases l <;> rfl
  case quiet q => rcases q with _ | _ | _ <;> cases hact <;> cases l <;> rfl
  case request q => cases hact; cases q <;> cases l <;> rfl
  all_goals cases hact; cases l <;> rfl

theorem guest_act_held {p : GuestPoint} (h : guestCode C p = .act f)
    (hact : f c x = some (x', next)) : next.held l = p.held l := by
  cases p <;> cases h
  case ready => cases hact; split <;> cases l <;> rfl
  all_goals cases hact; cases l <;> rfl

theorem apuLocks (C : ApuChoices) : Locks (apuCode C) ApuPoint.held where
  lock {p l next} h := by
    rcases p with p | ⟨k, p⟩ | p
    · cases p <;> cases h <;> funext l <;> cases l <;> first | rfl | (cases ‹Rest› <;> rfl)
    · cases p <;> cases h <;> funext l <;> cases l <;> first | rfl | (cases ‹Option Quiesce› <;> rfl)
    · cases p <;> cases h <;> funext l <;> cases l <;> rfl
  unlock {p l next} h := by
    rcases p with p | ⟨k, p⟩ | p
    · cases p <;> cases h <;> funext l <;> cases l <;> rfl
    · cases p <;> cases h <;> funext l <;> cases l <;> first | rfl | (cases ‹Option Quiesce› <;> rfl)
    · cases p <;> cases h <;> funext l <;> cases l <;> rfl
  owned {p l next} h := by
    rcases p with p | ⟨k, p⟩ | p <;> cases p <;> cases h <;> rfl
  act {p f c x x' next} h hact := by
    funext l
    rcases p with p | ⟨k, p⟩ | p
    · exact frame_act_held h hact
    · exact caller_act_held h hact
    · exact guest_act_held h hact

/-- The frame thread is at the head of its loop or idle. -/
def Settled (s : ApuThreads) : Prop := ∀ p, s.pc .frame = .frame p → p.settled = true

/-- Where each thread is, and what the pause protocol promises there. -/
structure ApuInv (s : ApuThreads) : Prop where
  owned : Owned ApuPoint.held s
  frame : ∃ p, s.pc .frame = .frame p
  caller : ∀ k, ∃ p, s.pc (.caller k) = .caller k p
  guest : ∃ p, s.pc .guest = .guest p
  idle : ∀ p, s.pc .frame = .frame p → s.shared.isIdle = p.idling
  busy : ∀ k p, s.pc (.caller k) = .caller k p → p.inCall = true → s.shared.busy = some k
  paused : ∀ k p, s.pc (.caller k) = .caller k p → p.paused = true → s.shared.pauseRequested = true
  settled : ∀ k p, s.pc (.caller k) = .caller k p →
    p.settles (decide (k ∈ s.shared.sleepers)) = true → Settled s
  realizing : ∀ k p, s.pc (.caller k) = .caller k p → p.realizing = true →
    ∀ q, s.pc .frame = .frame q → q.arriving = true
  sleeping : ∀ k ∈ s.shared.sleepers, s.shared.isIdle = false ∧
    ∃ p, s.pc (.caller k) = .caller k p ∧ p.waiting = true
  one : s.shared.sleepers.length ≤ 1
  stopped : s.shared.stopped = true → s.shared.pauseRequested = true ∧ Settled s
  resumes : ∀ k p, s.pc (.caller k) = .caller k p → p.resumes = true → s.shared.stopped = false

structure FrameMove (s s' : ApuThreads) (p q : FramePoint) : Prop where
  owned : Owned ApuPoint.held s'
  here : s.pc .frame = .frame p
  pc : s'.pc = update s.pc .frame (.frame q)
  pause : s'.shared.pauseRequested = s.shared.pauseRequested
  stopped : s'.shared.stopped = s.shared.stopped
  busy : s'.shared.busy = s.shared.busy
  idle : s'.shared.isIdle = q.idling
  sleepers : (s'.shared.sleepers = s.shared.sleepers ∧
      (s'.shared.isIdle = true → s.shared.isIdle = true)) ∨
    (s'.shared.sleepers = [] ∧ q.settled = true)
  settled : s.shared.pauseRequested = true → p.arriving = true → q.settled = true
  rank : s.shared.pauseRequested = true → p.idling = false → q.rank < p.rank

section Frame

variable {s s' : ApuThreads} {p q : FramePoint}

theorem FrameMove.inv (m : FrameMove s s' p q) (h : ApuInv s) : ApuInv s' := by
  have hframe : s'.pc .frame = .frame q := by rw [m.pc, update_self]
  have hcaller : ∀ k, s'.pc (.caller k) = s.pc (.caller k) := fun k => by rw [m.pc, update_of_ne (by simp)]
  have hguest : s'.pc .guest = s.pc .guest := by rw [m.pc, update_of_ne (by simp)]
  -- the frame thread stays settled as long as a pause is requested
  have hsettled : s.shared.pauseRequested = true → Settled s → Settled s' := by
    intro hpause hs q' hq'
    rw [hframe] at hq'
    cases hq'
    exact m.settled hpause (p.arriving_of_settled (hs p m.here))
  exact {
    owned := m.owned
    frame := ⟨q, hframe⟩
    caller := by simpa only [hcaller] using h.caller
    guest := by simpa only [hguest] using h.guest
    idle := by
      intro q' hq'
      rw [hframe] at hq'
      cases hq'
      exact m.idle
    busy := by simpa only [hcaller, m.busy] using h.busy
    paused := by simpa only [hcaller, m.pause] using h.paused
    settled := by
      intro k pk hk hsettles
      rw [hcaller] at hk
      obtain ⟨hsleepers, -⟩ | ⟨-, hq⟩ := m.sleepers
      · rw [hsleepers] at hsettles
        exact hsettled (h.paused k pk hk (pk.paused_of_settles hsettles)) (h.settled k pk hk hsettles)
      · intro q' hq'
        rw [hframe] at hq'
        cases hq'
        exact hq
    realizing := by
      intro k pk hk hrealizing q' hq'
      rw [hcaller] at hk
      rw [hframe] at hq'
      cases hq'
      exact q.arriving_of_settled (m.settled (h.paused k pk hk (pk.paused_of_realizing hrealizing))
        (h.realizing k pk hk hrealizing p m.here))
    sleeping := by
      intro k hk
      obtain ⟨hsleepers, hidle⟩ | ⟨hsleepers, -⟩ := m.sleepers
      · rw [hsleepers] at hk
        obtain ⟨hfalse, hwaiting⟩ := h.sleeping k hk
        refine ⟨?_, by rw [hcaller]; exact hwaiting⟩
        rw [Bool.eq_false_iff] at hfalse ⊢
        exact fun htrue => hfalse (hidle htrue)
      · rw [hsleepers] at hk
        cases hk
    one := by
      obtain ⟨hsleepers, -⟩ | ⟨hsleepers, -⟩ := m.sleepers
      · rw [hsleepers]
        exact h.one
      · rw [hsleepers]
        exact zero_le 1
    stopped := by
      intro hstopped
      rw [m.stopped] at hstopped
      obtain ⟨hpause, hs⟩ := h.stopped hstopped
      exact ⟨m.pause ▸ hpause, hsettled hpause hs⟩
    resumes := by simpa only [hcaller, m.stopped] using h.resumes }

/-- What the calls read of the shared state. -/
def ApuState.calls (x : ApuState) : Bool × Bool × Option Nat × Bool × List Nat :=
  (x.pauseRequested, x.stopped, x.busy, x.isIdle, x.sleepers)

theorem FrameMove.of_same (howned : Owned ApuPoint.held s') (hp : s.pc .frame = .frame p)
    (hpc : s'.pc = update s.pc .frame (.frame q)) (hsame : s'.shared.calls = s.shared.calls)
    (hidle : s.shared.isIdle = q.idling)
    (hsettled : s.shared.pauseRequested = true → p.arriving = true → q.settled = true)
    (hrank : s.shared.pauseRequested = true → p.idling = false → q.rank < p.rank) :
    ∃ p q, FrameMove s s' p q := by
  simp only [ApuState.calls, Prod.mk.injEq] at hsame
  obtain ⟨hpause, hstopped, hbusy, hidle', hsleepers⟩ := hsame
  exact ⟨p, q, howned, hp, hpc, hpause, hstopped, hbusy, hidle'.trans hidle,
    .inl ⟨hsleepers, fun h => hidle' ▸ h⟩, hsettled, hrank⟩

/-- Taking or leaving a lock, the frame thread gets closer to its wait. -/
theorem frame_lock_next {next : ApuPoint} (h : frameCode C p = .lock l next ∨ frameCode C p = .unlock l next) :
    ∃ q, next = .frame q ∧ p.idling = q.idling ∧ (p.arriving = true → q.settled = true) ∧
      (p.idling = false → q.rank < p.rank) := by
  cases p
  case restRelease r | restReacquire r =>
    rcases h with h | h <;> cases h
    cases r <;> exact ⟨_, rfl, by decide⟩
  all_goals rcases h with h | h <;> cases h <;> exact ⟨_, rfl, by decide⟩

theorem eraseIdx_of_length_le_one {l : List Nat} (h : l.length ≤ 1) (c : Nat) : l.eraseIdx (c % l.length) = [] := by
  match l with
  | [] => rfl
  | [_] => rw [List.length_singleton, mod_one]; rfl

theorem FrameMove.of_head {x' : ApuState} {next : ApuPoint} (howned : Owned ApuPoint.held
      { s with shared := x', pc := update s.pc .frame next })
    (hp : s.pc .frame = .frame .head) (hidle : s.shared.isIdle = false)
    (hact : (if s.shared.pauseRequested then some (s.shared, ApuPoint.frame .idleEnter)
      else
        let x := if s.shared.Off then { s.shared with setIrq := true } else s.shared
        some (x, .frame (if x.setIrq then .irqUnlock else .recheck))) = some (x', next)) :
    ∃ p q, FrameMove s { s with shared := x', pc := update s.pc .frame next } p q := by
  split at hact
  · cases hact
    exact FrameMove.of_same howned hp rfl rfl hidle (fun _ _ => rfl) fun _ _ => lt_succ_self _
  · next hpause =>
    dsimp only at hact
    by_cases hoff : s.shared.Off
    · rw [if_pos hoff] at hact
      cases hact
      exact FrameMove.of_same howned hp rfl rfl hidle
        (fun htrue => absurd htrue hpause) fun htrue => absurd htrue hpause
    · rw [if_neg hoff] at hact
      split at hact <;> cases hact <;> exact FrameMove.of_same howned hp rfl rfl hidle
          (fun htrue => absurd htrue hpause) fun htrue => absurd htrue hpause

theorem ApuInv.frame_move (h : ApuInv s) (hmoves : Moves (apuCode C) s ⟨.frame, c⟩ s') : ∃ p q, FrameMove s s' p q := by
  have howned := hmoves.owned (apuLocks C) h.owned
  obtain ⟨p, hp⟩ := h.frame
  have hidle := h.idle p hp
  cases hmoves with rw [hp] at hcode
  | @lock l next hcode hfree =>
    obtain ⟨q, rfl, hidling, hsettled, hrank⟩ := frame_lock_next (.inl hcode)
    exact FrameMove.of_same howned hp rfl rfl (hidle.trans hidling)
      (fun _ => hsettled) fun _ => hrank
  | @unlock l next hcode =>
    obtain ⟨q, rfl, hidling, hsettled, hrank⟩ := frame_lock_next (.inr hcode)
    exact FrameMove.of_same howned hp rfl rfl (hidle.trans hidling)
      (fun _ => hsettled) fun _ => hrank
  | @act f x' next hcode hact =>
    cases p <;> cases hcode
    case head.refl => exact FrameMove.of_head howned hp hidle hact
    case recheck.refl =>
      cases hact
      by_cases hoff : s.shared.Off
      · rw [if_pos hoff] at howned ⊢
        exact FrameMove.of_same howned hp rfl rfl hidle nofun fun _ _ => by decide
      · rw [if_neg hoff] at howned ⊢
        exact FrameMove.of_same howned hp rfl rfl hidle nofun fun _ _ => lt_succ_self _
    case throttle.refl =>
      cases hact
      by_cases hpause : (s.shared.pauseRequested || c == 0) = true
      · rw [if_pos hpause] at howned ⊢
        exact FrameMove.of_same howned hp rfl rfl hidle nofun fun _ _ => lt_succ_self _
      · rw [if_neg hpause] at howned ⊢
        refine FrameMove.of_same howned hp rfl rfl hidle nofun fun htrue => ?_
        rw [htrue] at hpause
        exact absurd rfl hpause
    case frame.refl =>
      dsimp only at hact
      split at hact <;> cases hact <;> exact FrameMove.of_same howned hp rfl rfl hidle nofun fun _ _ => lt_succ_self _
    case voices.refl =>
      dsimp only at hact
      split at hact
      · cases hact
        exact FrameMove.of_same howned hp rfl rfl hidle nofun fun _ _ => lt_succ_self _
      · next hpause =>
        split at hact <;> cases hact <;>
          exact FrameMove.of_same howned hp rfl rfl hidle nofun fun htrue => absurd htrue hpause
    case restBlocked.refl r =>
      cases hact
      cases r <;> exact FrameMove.of_same howned hp rfl rfl hidle nofun fun _ _ => lt_succ_self _
    case idleEnter.refl =>
      cases hact
      exact ⟨_, _, howned, hp, rfl, rfl, rfl, rfl, rfl,
        .inr ⟨eraseIdx_of_length_le_one h.one c, rfl⟩, fun _ _ => rfl, fun _ _ => lt_succ_self _⟩
    case idleBlocked.refl =>
      obtain ⟨-, ⟨⟩⟩ := Option.ite_none_left_eq_some.mp hact
      exact FrameMove.of_same howned hp rfl rfl hidle (fun _ _ => rfl) nofun
    case idleLeave.refl =>
      cases hact
      exact ⟨_, _, howned, hp, rfl, rfl, rfl, rfl, rfl, .inl ⟨rfl, nofun⟩, fun _ _ => rfl, nofun⟩
    all_goals
      cases hact
      exact FrameMove.of_same howned hp rfl rfl hidle nofun fun _ _ => lt_succ_self _

end Frame

section Others

variable {s s' : ApuThreads} {k : Nat} {p q : CallerPoint}

theorem ApuInv.guest_step (h : ApuInv s) (hmoves : Moves (apuCode C) s ⟨.guest, c⟩ s') : ApuInv s' := by
  have howned := hmoves.owned (apuLocks C) h.owned
  have hframe : s'.pc .frame = s.pc .frame := hmoves.pc_of_ne (by simp)
  have hcaller : ∀ k, s'.pc (.caller k) = s.pc (.caller k) := fun k => hmoves.pc_of_ne (by simp)
  obtain ⟨p, hp⟩ := h.guest
  -- a vCPU changes registers and voices, and wakes the frame thread
  have hshared : (∃ q, s'.pc .guest = .guest q) ∧ s'.shared.calls = s.shared.calls := by
    cases hmoves with dsimp only at hcode ⊢
    | lock hcode hfree | unlock hcode =>
      rw [hp] at hcode
      cases p <;> cases hcode <;> exact ⟨⟨_, rfl⟩, rfl⟩
    | act hcode hact =>
      dsimp only at hcode hact ⊢
      rw [hp] at hcode
      cases p <;> cases hcode <;> cases hact <;> exact ⟨⟨_, rfl⟩, rfl⟩
  simp only [ApuState.calls, Prod.mk.injEq] at hshared
  obtain ⟨hguest, hpause, hstopped, hbusy, hidle, hsleepers⟩ := hshared
  have hsettled : Settled s' ↔ Settled s := by rw [Settled, hframe]; rfl
  exact {
    owned := howned
    frame := by rw [hframe]; exact h.frame
    caller := by simpa only [hcaller] using h.caller
    guest := hguest
    idle := by rw [hframe, hidle]; exact h.idle
    busy := by simpa only [hcaller, hbusy] using h.busy
    paused := by simpa only [hcaller, hpause] using h.paused
    settled := by simpa only [hcaller, hsleepers, hsettled] using h.settled
    realizing := by simpa only [hcaller, hframe] using h.realizing
    sleeping := by simpa only [hcaller, hsleepers, hidle] using h.sleeping
    one := by rw [hsleepers]; exact h.one
    stopped := by rw [hstopped, hpause, hsettled]; exact h.stopped
    resumes := by simpa only [hcaller, hstopped] using h.resumes }

def Alone (s : ApuThreads) (k : Nat) : Prop :=
  ∀ j ≠ k, ∀ p, s.pc (.caller j) = .caller j p → p.inCall = false

section

variable (h : ApuInv s)
include h

theorem ApuInv.alone_of_inCall (hp : s.pc (.caller k) = .caller k p) (hcall : p.inCall = true) : Alone s k := by
  intro j hj p' hp'
  rw [Bool.eq_false_iff]
  intro hcall'
  have hbusy := h.busy k p hp hcall
  rw [h.busy j p' hp' hcall'] at hbusy
  exact hj (Option.some.inj hbusy)

theorem ApuInv.alone_of_busy (hbusy : s.shared.busy = none) : Alone s k := by
  intro j _ p' hp'
  rw [Bool.eq_false_iff]
  intro hcall'
  rw [h.busy j p' hp' hcall'] at hbusy
  cases hbusy

theorem ApuInv.of_caller (howned : Owned ApuPoint.held s')
    (hpc : s'.pc = update s.pc (.caller k) (.caller k q)) (hothers : Alone s k ∨ s'.shared = s.shared)
    (hidle : s'.shared.isIdle = s.shared.isIdle)
    (hbusy : q.inCall = true → s'.shared.busy = some k)
    (hpaused : q.paused = true → s'.shared.pauseRequested = true)
    (hsettled : q.settles (decide (k ∈ s'.shared.sleepers)) = true → Settled s)
    (hrealizing : q.realizing = true → ∃ p, s.pc (.caller k) = .caller k p ∧ p.realizing = true)
    (hsleeping : ∀ j ∈ s'.shared.sleepers, (j = k ∧ s.shared.isIdle = false ∧ q.waiting = true) ∨
      (j ≠ k ∧ j ∈ s.shared.sleepers))
    (hone : s'.shared.sleepers.length ≤ 1)
    (hstopped : s'.shared.stopped = true → s'.shared.pauseRequested = true ∧ Settled s)
    (hresumes : q.resumes = true → s'.shared.stopped = false) : ApuInv s' := by
  have hframe : s'.pc .frame = s.pc .frame := by rw [hpc, update_of_ne (by simp)]
  have hguest : s'.pc .guest = s.pc .guest := by rw [hpc, update_of_ne (by simp)]
  have hself : s'.pc (.caller k) = .caller k q := by rw [hpc, update_self]
  have hne : ∀ {j}, j ≠ k → s'.pc (.caller j) = s.pc (.caller j) :=
    fun hj => by rw [hpc, update_of_ne (by simpa using hj)]
  have hsettled' : Settled s' ↔ Settled s := by rw [Settled, hframe]; rfl
  -- what holds of another thread in a call has held before
  have hcases : ∀ j p', s'.pc (.caller j) = .caller j p' → p'.inCall = true →
      (j = k ∧ p' = q) ∨ (s.pc (.caller j) = .caller j p' ∧ s'.shared = s.shared) := by
    intro j p' hp' hcall
    by_cases hj : j = k
    · subst hj
      rw [hself] at hp'
      cases hp'
      exact .inl ⟨rfl, rfl⟩
    · rw [hne hj] at hp'
      rcases hothers with halone | hshared
      · rw [halone j hj p' hp'] at hcall
        cases hcall
      · exact .inr ⟨hp', hshared⟩
  exact {
    owned := howned
    frame := by rw [hframe]; exact h.frame
    caller := by
      intro j
      by_cases hj : j = k
      · exact ⟨q, hj ▸ hself⟩
      · rw [hne hj]
        exact h.caller j
    guest := by rw [hguest]; exact h.guest
    idle := by rw [hframe, hidle]; exact h.idle
    busy := by
      intro j p' hp' hcall
      obtain ⟨rfl, rfl⟩ | ⟨hp, hshared⟩ := hcases j p' hp' hcall
      · exact hbusy hcall
      · exact hshared ▸ h.busy j p' hp hcall
    paused := by
      intro j p' hp' hpause
      obtain ⟨rfl, rfl⟩ | ⟨hp, hshared⟩ := hcases j p' hp' (p'.inCall_of_paused hpause)
      · exact hpaused hpause
      · exact hshared ▸ h.paused j p' hp hpause
    settled := by
      intro j p' hp' hsettles
      refine hsettled'.mpr ?_
      obtain ⟨rfl, rfl⟩ | ⟨hp, hshared⟩ := hcases j p' hp' (p'.inCall_of_paused (p'.paused_of_settles hsettles))
      · exact hsettled hsettles
      · exact h.settled j p' hp (hshared ▸ hsettles)
    realizing := by
      intro j p' hp' hreal
      rw [hframe]
      obtain ⟨rfl, rfl⟩ | ⟨hp, -⟩ := hcases j p' hp' (p'.inCall_of_paused (p'.paused_of_realizing hreal))
      · obtain ⟨p, hp, hreal⟩ := hrealizing hreal
        exact h.realizing j p hp hreal
      · exact h.realizing j p' hp hreal
    sleeping := by
      intro j hj
      rw [hidle]
      obtain ⟨rfl, hfalse, hwaiting⟩ | ⟨hjk, hj⟩ := hsleeping j hj
      · exact ⟨hfalse, q, hself, hwaiting⟩
      · rw [hne hjk]
        exact h.sleeping j hj
    one := hone
    stopped := fun hs => ⟨(hstopped hs).1, hsettled'.mpr (hstopped hs).2⟩
    resumes := by
      intro j p' hp' hres
      obtain ⟨rfl, rfl⟩ | ⟨hp, hshared⟩ := hcases j p' hp' (p'.inCall_of_resumes hres)
      · exact hresumes hres
      · exact hshared ▸ h.resumes j p' hp hres }

theorem ApuInv.sleepers_eq_nil (hp : s.pc (.caller k) = .caller k p)
    (halone : Alone s k) (hwaiting : p.waiting = false) : s.shared.sleepers = [] := by
  rw [List.eq_nil_iff_forall_not_mem]
  intro j hj
  obtain ⟨-, p', hp', hwaiting'⟩ := h.sleeping j hj
  by_cases hjk : j = k
  · subst hjk
    rw [hp] at hp'
    cases hp'
    rw [hwaiting] at hwaiting'
    cases hwaiting'
  · have hcall := halone j hjk p' hp'
    rw [p'.inCall_of_waiting hwaiting'] at hcall
    cases hcall

theorem ApuInv.of_awake (howned : Owned ApuPoint.held s')
    (hpc : s'.pc = update s.pc (.caller k) (.caller k q)) (halone : Alone s k)
    (hsleepers : s'.shared.sleepers = []) (hidle : s'.shared.isIdle = s.shared.isIdle)
    (hbusy : q.inCall = true → s'.shared.busy = some k)
    (hpaused : q.paused = true → s'.shared.pauseRequested = true)
    (hsettled : q.settles false = true → Settled s)
    (hrealizing : q.realizing = true → ∃ p, s.pc (.caller k) = .caller k p ∧ p.realizing = true)
    (hstopped : s'.shared.stopped = true → s'.shared.pauseRequested = true ∧ Settled s)
    (hresumes : q.resumes = true → s'.shared.stopped = false) : ApuInv s' := by
  refine h.of_caller howned hpc (.inl halone) hidle hbusy hpaused ?_ hrealizing ?_ ?_ hstopped hresumes
  · simpa only [hsleepers, List.not_mem_nil, decide_false] using hsettled
  · rw [hsleepers]
    intro j hj
    cases hj
  · rw [hsleepers]
    exact zero_le 1

theorem ApuInv.of_outside (howned : Owned ApuPoint.held s')
    (hpc : s'.pc = update s.pc (.caller k) (.caller k q)) (hshared : s'.shared = s.shared)
    (hp : s.pc (.caller k) = .caller k p) (hout : p.inCall = false) (hout' : q.inCall = false) :
    ApuInv s' := by
  have hnot : ∀ {P : Prop}, q.inCall = true → P := by
    intro P hcall
    rw [hout'] at hcall
    cases hcall
  refine h.of_caller howned hpc (.inr hshared) (by rw [hshared]) hnot
    (fun hq => hnot (q.inCall_of_paused hq))
    (fun hq => hnot (q.inCall_of_paused (q.paused_of_settles hq)))
    (fun hq => hnot (q.inCall_of_paused (q.paused_of_realizing hq)))
    (fun j hj => .inr ⟨?_, hshared ▸ hj⟩) (hshared ▸ h.one) (hshared ▸ h.stopped)
    (fun hq => hnot (q.inCall_of_resumes hq))
  rintro rfl
  obtain ⟨-, p', hp', hwaiting⟩ := h.sleeping j (hshared ▸ hj)
  rw [hp] at hp'
  cases hp'
  rw [p.inCall_of_waiting hwaiting] at hout
  cases hout

end

end Others

/-- A call is made while none is under way, and a reset only while the machine is not stopped. -/
def pauseOk (s : ApuThreads) (e : Turn ApuThread) : Prop :=
  match e.thread with
  | .caller k => s.pc (.caller k) = .caller k .ready → e.choice ≠ 0 →
      s.shared.busy = none ∧ (e.choice = 3 → s.shared.stopped = false)
  | _ => True

instance (s : ApuThreads) (e : Turn ApuThread) : Decidable (pauseOk s e) := by
  unfold pauseOk
  split <;> infer_instance

section Caller

variable {s s' : ApuThreads} {k : Nat} {p q : CallerPoint}

section

variable (h : ApuInv s)
include h

section

variable (hp : s.pc (.caller k) = .caller k p)
include hp

theorem ApuInv.of_place (howned : Owned ApuPoint.held s')
    (hpc : s'.pc = update s.pc (.caller k) (.caller k q)) (hshared : s'.shared = s.shared)
    (hcall : p.inCall = true) (hwaiting : p.waiting = false)
    (hpaused : q.paused = true → p.paused = true)
    (hsettled : q.settles false = true → p.settles false = true)
    (hrealizing : q.realizing = true → p.realizing = true)
    (hresumes : q.resumes = true → p.resumes = true) : ApuInv s' := by
  have halone := h.alone_of_inCall hp hcall
  have hnil := h.sleepers_eq_nil hp halone hwaiting
  have hsettles := h.settled k p hp
  rw [hnil] at hsettles
  refine h.of_awake howned hpc halone (by rw [hshared, hnil]) (by rw [hshared]) (fun _ => ?_)
    (fun hq => ?_) (fun hq => hsettles (hsettled hq)) (fun hq => ⟨p, hp, hrealizing hq⟩) ?_
    (fun hq => ?_)
  · rw [hshared]
    exact h.busy k p hp hcall
  · rw [hshared]
    exact h.paused k p hp (hpaused hq)
  · rw [hshared]
    exact h.stopped
  · rw [hshared]
    exact h.resumes k p hp (hresumes hq)

theorem ApuInv.eq_of_mem_sleepers (hcall : p.inCall = true) {j : Nat} (hj : j ∈ s.shared.sleepers) : j = k := by
  obtain ⟨-, p', hp', hwaiting⟩ := h.sleeping j hj
  by_contra hne
  have hout := h.alone_of_inCall hp hcall j hne p' hp'
  rw [p'.inCall_of_waiting hwaiting] at hout
  cases hout

theorem ApuInv.sleepers_eq_nil_of_not_mem
    (hcall : p.inCall = true) (hk : k ∉ s.shared.sleepers) : s.shared.sleepers = [] := by
  rw [List.eq_nil_iff_forall_not_mem]
  intro j hj
  exact hk (h.eq_of_mem_sleepers hp hcall hj ▸ hj)

end

theorem ApuInv.release_step {q : Option Quiesce} {owner : ApuLock → Option ApuThread}
    (hp : s.pc (.caller k) = .caller k (.waitRelease q))
    (howned : Owned ApuPoint.held { s with
      owner := owner
      pc := update s.pc (.caller k) (.caller k (.waitBlocked q)) }) :
    ApuInv { s with
      owner := owner
      pc := update s.pc (.caller k) (.caller k (.waitBlocked q)) } := by
  refine h.of_caller howned rfl (.inr rfl) rfl (fun _ => h.busy k _ hp rfl)
    (fun _ => h.paused k _ hp rfl) (fun hsettles => h.settled k _ hp hsettles)
    (fun hreal => ⟨_, hp, ?_⟩) (fun j hj => ?_) h.one h.stopped (fun hres => h.resumes k _ hp ?_)
  · cases q
    · rfl
    · cases hreal
  · exact .inl ⟨h.eq_of_mem_sleepers hp rfl hj, (h.sleeping j hj).1, rfl⟩
  · rcases q with _ | _ | _ <;> first | rfl | cases hres

theorem ApuInv.test_step {q : Option Quiesce} {again : Bool} {x' : ApuState} {next : ApuPoint} (hp : s.pc (.caller k) = .caller k (.test q again))
    (howned : Owned ApuPoint.held { s with shared := x', pc := update s.pc (.caller k) next })
    (hact : (if s.shared.isIdle then some (s.shared, ApuPoint.caller k (.quiet q))
      else some ({ s.shared with sleepers := s.shared.sleepers ++ [k] },
        .caller k (.waitRelease q))) = some (x', next)) :
    ApuInv { s with shared := x', pc := update s.pc (.caller k) next } := by
  have halone := h.alone_of_inCall hp rfl
  have hnil := h.sleepers_eq_nil hp halone rfl
  have hresumes : ∀ {q' : CallerPoint}, (q' = .quiet q ∨ q' = .waitRelease q) → q'.resumes = true →
      s.shared.stopped = false := by
    rintro q' (rfl | rfl) hres
    all_goals exact h.resumes k _ hp (by rcases q with _ | _ | _ <;> first | rfl | cases hres)
  split at hact
  · next hidle =>
    cases hact
    refine h.of_awake howned rfl halone hnil rfl (fun _ => h.busy k _ hp rfl)
      (fun _ => h.paused k _ hp rfl) (fun _ p' hp' => ?_) nofun h.stopped
      (hresumes (.inl rfl))
    exact p'.settled_of_idling (h.idle p' hp' ▸ hidle)
  · next hidle =>
    cases hact
    refine h.of_caller howned rfl (.inl halone) rfl (fun _ => h.busy k _ hp rfl)
      (fun _ => h.paused k _ hp rfl) (fun hsettles => ?_) (fun hreal => ⟨_, hp, ?_⟩)
      (fun j hj => ?_) ?_ h.stopped (hresumes (.inr rfl))
    · simp [CallerPoint.settles] at hsettles
    · cases q
      · rfl
      · cases hreal
    · rw [hnil, List.nil_append, List.mem_singleton] at hj
      exact .inl ⟨hj, by simpa using hidle, rfl⟩
    · rw [hnil]
      exact le_refl 1

theorem ApuInv.returned_step {q : Option Quiesce} {x' : ApuState} {next : ApuPoint} (hp : s.pc (.caller k) = .caller k (.returned q))
    (howned : Owned ApuPoint.held { s with shared := x', pc := update s.pc (.caller k) next })
    (hact : some ({ s.shared with stopped := s.shared.stopped || q == some .stop, busy := none },
      ApuPoint.caller k .ready) = some (x', next)) :
    ApuInv { s with shared := x', pc := update s.pc (.caller k) next } := by
  cases hact
  have halone := h.alone_of_inCall hp rfl
  refine h.of_awake howned rfl halone (h.sleepers_eq_nil hp halone rfl) rfl
    nofun nofun nofun nofun (fun hs => ?_) nofun
  obtain hs | hs := Bool.or_eq_true_iff.mp hs
  · exact h.stopped hs
  · obtain rfl := beq_iff_eq.mp hs
    exact ⟨h.paused k _ hp rfl, h.settled k _ hp rfl⟩

theorem ApuInv.ready_step {x' : ApuState} {next : ApuPoint} (hp : s.pc (.caller k) = .caller k .ready)
    (hok : c ≠ 0 → s.shared.busy = none ∧ (c = 3 → s.shared.stopped = false))
    (howned : Owned ApuPoint.held { s with shared := x', pc := update s.pc (.caller k) next })
    (hcode : callerCode C k .ready = .act f) (hact : f c s.shared = some (x', next)) :
    ApuInv { s with shared := x', pc := update s.pc (.caller k) next } := by
  cases hcode
  rcases c with _ | _ | _ | _ | c <;> cases hact
  · exact h.of_outside howned rfl rfl hp rfl rfl
  all_goals
    obtain ⟨hbusy, hreset⟩ := hok (by simp)
    have halone : Alone s k := h.alone_of_busy hbusy
    have hnil := h.sleepers_eq_nil hp halone rfl
  · exact h.of_awake howned rfl halone hnil rfl (fun _ => rfl) nofun nofun nofun h.stopped nofun
  · exact h.of_awake howned rfl halone hnil rfl (fun _ => rfl) nofun nofun nofun nofun
      fun _ => rfl
  · exact h.of_awake howned rfl halone hnil rfl (fun _ => rfl) nofun nofun nofun h.stopped
      fun _ => hreset rfl
  · exact h.of_awake howned rfl halone hnil rfl (fun _ => rfl) nofun nofun nofun h.stopped nofun

theorem ApuInv.caller_step (hok : pauseOk s ⟨.caller k, c⟩)
    (hmoves : Moves (apuCode C) s ⟨.caller k, c⟩ s') : ApuInv s' := by
  have howned := hmoves.owned (apuLocks C) h.owned
  obtain ⟨p, hp⟩ := h.caller k
  cases hmoves with rw [hp] at hcode
  | @lock l next hcode hfree =>
    cases p <;> cases hcode
    case out.refl => exact h.of_outside howned rfl rfl hp rfl rfl
    case lock.refl c | bql.refl c =>
      cases c <;> exact h.of_place hp howned rfl rfl rfl rfl id id id id
    case waitReacquire.refl c =>
      rcases c with _ | _ | _ <;> exact h.of_place hp howned rfl rfl rfl rfl id id id id
    all_goals exact h.of_place hp howned rfl rfl rfl rfl id id id id
  | @unlock l next hcode =>
    cases p <;> cases hcode
    case bqlRelease.refl => exact h.of_outside howned rfl rfl hp rfl rfl
    case bqlDrop.refl c =>
      cases c <;> exact h.of_place hp howned rfl rfl rfl rfl id id id id
    case waitRelease.refl c => exact h.release_step hp howned
    case unlock.refl c =>
      rcases c with _ | _ | _
      · exact h.of_place hp howned rfl rfl rfl rfl nofun nofun id id
      all_goals exact h.of_place hp howned rfl rfl rfl rfl id id id id
    all_goals exact h.of_place hp howned rfl rfl rfl rfl id id id id
  | @act f x' next hcode hact =>
    cases p <;> cases hcode
    case ready.refl => exact h.ready_step (C := C) hp (hok hp) howned rfl hact
    case request.refl c =>
      cases hact
      have halone := h.alone_of_inCall hp rfl
      refine h.of_awake howned rfl halone (h.sleepers_eq_nil hp halone rfl) rfl
        (fun _ => h.busy k _ hp rfl) (fun _ => rfl) nofun
        (fun hreal => ⟨_, hp, ?_⟩) (fun hs => ⟨rfl, (h.stopped hs).2⟩)
        (fun hres => h.resumes k _ hp ?_)
      · cases c
        · rfl
        · cases hreal
      · rcases c with _ | _ | _ <;> first | rfl | cases hres
    case test.refl c again => exact h.test_step hp howned hact
    case waitBlocked.refl c =>
      obtain ⟨hawake, ⟨⟩⟩ := Option.ite_none_left_eq_some.mp hact
      have halone := h.alone_of_inCall hp rfl
      have hsettled := h.settled k _ hp
      rw [decide_eq_false hawake] at hsettled
      refine h.of_awake howned rfl halone (h.sleepers_eq_nil_of_not_mem hp rfl hawake) rfl
        (fun _ => h.busy k _ hp rfl) (fun _ => h.paused k _ hp rfl) (fun _ => hsettled rfl)
        (fun hreal => ⟨_, hp, ?_⟩) h.stopped (fun hres => h.resumes k _ hp ?_)
      · cases c
        · rfl
        · cases hreal
      · rcases c with _ | _ | _ <;> first | rfl | cases hres
    case quiet.refl c =>
      rcases c with _ | _ | _ <;> cases hact
      case some.reset =>
        have halone := h.alone_of_inCall hp rfl
        exact h.of_awake howned rfl halone (h.sleepers_eq_nil hp halone rfl) rfl
          (fun _ => h.busy k _ hp rfl) (fun _ => h.paused k _ hp rfl)
          (fun _ => h.settled k _ hp rfl) nofun h.stopped (fun _ => h.resumes k _ hp rfl)
      all_goals exact h.of_place hp howned rfl rfl rfl rfl id id id id
    case resume.refl | startResume.refl =>
      cases hact
      have halone := h.alone_of_inCall hp rfl
      have hstopped := h.resumes k _ hp rfl
      refine h.of_awake howned rfl halone (h.sleepers_eq_nil hp halone rfl) rfl
        (fun _ => h.busy k _ hp rfl) nofun nofun nofun (fun hs => ?_) nofun
      rw [show s.shared.stopped = true from hs] at hstopped
      cases hstopped
    case returned.refl c => exact h.returned_step hp howned hact
    all_goals
      cases hact
      have halone := h.alone_of_inCall hp rfl
      exact h.of_awake howned rfl halone (h.sleepers_eq_nil hp halone rfl) rfl
        (fun _ => h.busy k _ hp rfl) nofun nofun nofun h.stopped nofun

end

end Caller

theorem ApuInv.init : ApuInv apuStart where
  owned l t := by
    rcases t with _ | (_ | k) | _ <;> cases l <;> simp [apuStart, ApuPoint.held, FramePoint.held,
      CallerPoint.held, GuestPoint.held]
  frame := ⟨_, rfl⟩
  caller k := by cases k <;> exact ⟨_, rfl⟩
  guest := ⟨_, rfl⟩
  idle p hp := by cases hp; rfl
  busy k p hp hcall := by
    cases k
    · rfl
    · cases hp; cases hcall
  paused _ _ _ _ := rfl
  settled k p hp hsettles := by cases k <;> cases hp <;> cases hsettles
  realizing _ _ _ _ q hq := by cases hq; rfl
  sleeping _ hk := nomatch hk
  one := zero_le 1
  stopped hs := nomatch hs
  resumes _ _ _ _ := rfl

variable {s s' : ApuThreads}

theorem ApuInv.step {e : Turn ApuThread} (h : ApuInv s) (hok : pauseOk s e)
    (hstep : Threads.step (apuCode C) s e = some s') : ApuInv s' := by
  have hmoves := step_moves hstep
  obtain ⟨_ | k | _, c⟩ := e
  · obtain ⟨p, q, m⟩ := h.frame_move hmoves
    exact m.inv h
  · exact h.caller_step hok hmoves
  · exact h.guest_step hmoves

theorem ApuInv.run {events : List (Turn ApuThread)} (h : ApuInv s)
    (hmeets : Meets (Threads.step (apuCode C)) pauseOk s events)
    (hrun : Lib.run (Threads.step (apuCode C)) s events = some s') : ApuInv s' :=
  run_invariant_of_meets ApuInv (fun _ _ _ h hok hstep => h.step hok hstep) h hmeets hrun

end XogMobile.Apu
