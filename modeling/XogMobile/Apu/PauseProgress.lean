import XogMobile.Apu.Pause

/-!
# Every wait for idle ends

A thread that waits for `idle_cond` is woken after a bounded number of steps of the frame thread,
whatever voices the guest holds locked, and finds `is_idle` set. As long as it sleeps, the frame thread
or one that it waits for can take a step.
-/

namespace XogMobile.Apu

open Lib Threads

variable {C : ApuChoices} {s s' : ApuThreads} {k : Nat} {c : Nat}

/-- `t` waits for a lock that `u` owns. -/
def WaitsFor (C : ApuChoices) (s : ApuThreads) (t u : ApuThread) : Prop :=
  ∃ l next, apuCode C (s.pc t) = .lock l next ∧ s.owner l = some u

def CanStep (C : ApuChoices) (s : ApuThreads) (t : ApuThread) : Prop :=
  ∃ c s', Threads.step (apuCode C) s ⟨t, c⟩ = some s'

variable {t : ApuThread} {l : ApuLock} {next : ApuPoint}

theorem canStep_of_unlock (h : apuCode C (s.pc t) = .unlock l next) : CanStep C s t :=
  ⟨0, _, by simp only [Threads.step, h]; rfl⟩

theorem canStep_of_act {f : Nat → ApuState → Option (ApuState × ApuPoint)}
    (h : apuCode C (s.pc t) = .act f) {c : Nat} {x' : ApuState}
    (hact : f c s.shared = some (x', next)) : CanStep C s t :=
  ⟨c, _, step_of_act h hact⟩

theorem canStep_of_lock (h : apuCode C (s.pc t) = .lock l next) (hfree : s.owner l = none) : CanStep C s t :=
  ⟨0, _, by simp only [Threads.step, h, hfree]; rfl⟩

theorem ApuInv.canStep_of_apu (h : ApuInv s) (hk : k ∈ s.shared.sleepers) (hframe : t ≠ .frame)
    (howner : s.owner .apu = some t) : CanStep C s t := by
  have hheld := (h.owned .apu t).mp howner
  cases t with
  | frame => exact absurd rfl hframe
  | guest =>
    obtain ⟨p, hp⟩ := h.guest
    rw [hp] at hheld
    cases p <;> cases hheld
    · exact canStep_of_act (c := 0) (by rw [hp]; rfl) rfl
    · exact canStep_of_unlock (by rw [hp]; rfl)
  | caller j =>
    obtain ⟨p, hp⟩ := h.caller j
    obtain ⟨-, p', hp', hwaiting⟩ := h.sleeping k hk
    rw [hp] at hheld
    have hcall : p.inCall = true := by cases p <;> first | rfl | cases hheld
    obtain rfl := h.eq_of_mem_sleepers hp hcall hk
    rw [hp] at hp'
    cases hp'
    cases p <;> cases hwaiting
    · exact canStep_of_unlock (by rw [hp]; rfl)
    · rename_i q
      cases q <;> cases hheld

theorem ApuInv.reaches_of_bql (h : ApuInv s) (hk : k ∈ s.shared.sleepers)
    (hpc : s.pc .frame = .frame .irqBql) (howner : s.owner .bql = some t) :
    ∃ u, Relation.ReflTransGen (WaitsFor C s) t u ∧ CanStep C s u := by
  have hheld := (h.owned .bql t).mp howner
  cases t with
  | frame =>
    rw [hpc] at hheld
    cases hheld
  | guest =>
    obtain ⟨p, hp⟩ := h.guest
    rw [hp] at hheld
    cases p <;> cases hheld
    case lock.refl =>
      cases hapu : s.owner .apu with
      | none => exact ⟨_, .refl, canStep_of_lock (by rw [hp]; rfl) hapu⟩
      | some u =>
        refine ⟨u, .single ⟨_, _, by rw [hp]; rfl, hapu⟩, h.canStep_of_apu hk ?_ hapu⟩
        rintro rfl
        have hheld := (h.owned .apu .frame).mp hapu
        rw [hpc] at hheld
        cases hheld
    case release.refl | bqlRelease.refl => exact ⟨_, .refl, canStep_of_unlock (by rw [hp]; rfl)⟩
    all_goals exact ⟨_, .refl, canStep_of_act (c := 0) (by rw [hp]; rfl) rfl⟩
  | caller j =>
    obtain ⟨p, hp⟩ := h.caller j
    rw [hp] at hheld
    cases hcall : p.inCall with
    | false =>
      cases p <;> cases hcall
      · cases hheld
      · exact ⟨_, .refl, canStep_of_act (c := 0) (by rw [hp]; rfl) rfl⟩
      · exact ⟨_, .refl, canStep_of_unlock (by rw [hp]; rfl)⟩
    | true =>
      -- only `mcpx_apu_realize` waits with the big lock, before the frame thread has run
      obtain ⟨-, p', hp', hwaiting⟩ := h.sleeping k hk
      obtain rfl := h.eq_of_mem_sleepers hp hcall hk
      rw [hp] at hp'
      cases hp'
      have hreal : p.realizing = true := by
        cases p <;> cases hwaiting <;> rename_i q <;> cases q <;> first | rfl | cases hheld
      cases h.realizing k p hp hreal _ hpc

theorem ApuInv.frame_reaches (h : ApuInv s) (hk : k ∈ s.shared.sleepers) :
    ∃ t, Relation.ReflTransGen (WaitsFor C s) .frame t ∧ CanStep C s t := by
  obtain ⟨p, hp⟩ := h.frame
  have hidle := h.idle p hp
  rw [(h.sleeping k hk).1] at hidle
  have hlock : ∀ {next}, frameCode C p = .lock .apu next →
      ∃ t, Relation.ReflTransGen (WaitsFor C s) .frame t ∧ CanStep C s t := by
    intro next hcode
    have hcode' : apuCode C (s.pc .frame) = .lock .apu next := by rw [hp]; exact hcode
    cases howner : s.owner .apu with
    | none => exact ⟨_, .refl, canStep_of_lock hcode' howner⟩
    | some u =>
      refine ⟨u, .single ⟨_, _, hcode', howner⟩, h.canStep_of_apu hk ?_ howner⟩
      rintro rfl
      have hheld := (h.owned .apu .frame).mp howner
      rw [hp] at hheld
      cases p <;> cases hcode <;> cases hheld
  cases p
  case start | irqRelock => exact hlock rfl
  case restReacquire r => exact hlock rfl
  case irqBql =>
    cases howner : s.owner .bql with
    | none => exact ⟨_, .refl, canStep_of_lock (by rw [hp]; rfl) howner⟩
    | some u =>
      obtain ⟨t, hreach, hstep⟩ := h.reaches_of_bql hk hp howner
      exact ⟨t, .head ⟨_, _, by rw [hp]; rfl, howner⟩ hreach, hstep⟩
  case irqUnlock | irqBqlUnlock | restRelease => exact ⟨_, .refl, canStep_of_unlock (by rw [hp]; rfl)⟩
  case head | voices =>
    by_cases hpause : s.shared.pauseRequested = true
    · exact ⟨_, .refl, canStep_of_act (c := 0) (by rw [hp]; rfl) (if_pos hpause)⟩
    · exact ⟨_, .refl, canStep_of_act (c := 0) (by rw [hp]; rfl) (if_neg hpause)⟩
  case idleRelease | idleBlocked | idleReacquire | idleLeave => cases hidle
  all_goals exact ⟨_, .refl, canStep_of_act (c := 0) (by rw [hp]; rfl) rfl⟩

def frameRank (s : ApuThreads) : Nat :=
  match s.pc .frame with
  | .frame p => p.rank
  | _ => 0

theorem frameRank_eq {p : FramePoint} (hp : s.pc .frame = .frame p) : frameRank s = p.rank := by
  rw [frameRank, hp]

theorem ApuInv.frameRank_step {e : Turn ApuThread} (h : ApuInv s) (hk : k ∈ s.shared.sleepers)
    (hstep : Threads.step (apuCode C) s e = some s') :
    frameRank s' + (if e.thread = .frame then 1 else 0) ≤ frameRank s := by
  have hmoves := step_moves hstep
  obtain ⟨t, c⟩ := e
  by_cases ht : t = .frame
  · subst ht
    obtain ⟨p, q, m⟩ := h.frame_move hmoves
    have hq : s'.pc .frame = .frame q := by rw [m.pc, Function.update_self]
    obtain ⟨hidle, p', hp', hwaiting⟩ := h.sleeping k hk
    have hpause := h.paused k p' hp' (by cases p' <;> first | rfl | cases hwaiting)
    rw [frameRank_eq m.here, frameRank_eq hq]
    exact m.rank hpause (h.idle p m.here ▸ hidle)
  · rw [if_neg ht, Nat.add_zero, frameRank, frameRank, hmoves.pc_of_ne (Ne.symm ht)]

theorem ApuInv.isIdle_of_test (h : ApuInv s) {q : Option Quiesce}
    (hk : s.pc (.caller k) = .caller k (.test q true)) : s.shared.isIdle = true := by
  obtain ⟨p, hp⟩ := h.frame
  have hsettled := h.settled k _ hk rfl p hp
  have hheld : p.held .apu = false := by
    rw [Bool.eq_false_iff]
    intro hheld
    cases h.owned.unique (l := .apu) (t := .frame) (u := .caller k) (by rw [hp]; exact hheld)
      (by rw [hk]; rfl)
  rw [h.idle p hp]
  cases p <;> cases hsettled <;> first | rfl | cases hheld

/-- In every run whose calls do not overlap and that resets the device only while the machine is not
stopped: no frame is under way from a stop's return to the next start, and every wait for idle ends. -/
theorem apu_pause (C : ApuChoices) (events : List (Turn ApuThread))
    (hmeets : Meets (step (apuCode C)) pauseOk apuStart events)
    (hrun : Lib.run (step (apuCode C)) apuStart events = some s) :
    (s.shared.stopped = true → ∀ p, s.pc .frame = .frame p → p.inFrame = false) ∧
      (∀ k q, s.pc (.caller k) = .caller k (.test q true) → s.shared.isIdle = true) ∧
      ∀ k ∈ s.shared.sleepers,
        (∃ t, Relation.ReflTransGen (WaitsFor C s) .frame t ∧ CanStep C s t) ∧
        ∀ more s', Meets (step (apuCode C)) pauseOk s more →
          frameRank s < more.countP (fun e => decide (e.thread = .frame)) →
          Lib.run (step (apuCode C)) s more = some s' →
          ∃ before after woken, more = before ++ after ∧
            Lib.run (step (apuCode C)) s before = some woken ∧ k ∉ woken.shared.sleepers := by
  have h : ApuInv s := ApuInv.init.run hmeets hrun
  refine ⟨fun hstopped p hp => p.inFrame_of_settled ((h.stopped hstopped).2 p hp),
    fun k q hk => h.isIdle_of_test hk, fun k hk => ⟨h.frame_reaches hk, ?_⟩⟩
  intro more s' hmore hlong hrun'
  obtain ⟨before, after, woken, hsplit, hbefore, hwoken⟩ :=
    run_exits (fun s => ApuInv s ∧ k ∈ s.shared.sleepers) frameRank
      (fun e => decide (e.thread = .frame))
      (fun s e s' hs _ hstep => by simpa using hs.1.frameRank_step hs.2 hstep) ⟨h, hk⟩ hmore hlong hrun'
  refine ⟨before, after, woken, hsplit, hbefore, fun hk' => hwoken ⟨?_, hk'⟩⟩
  rw [hsplit] at hmore
  exact h.run (meets_append.mp hmore).1 hbefore

def lockedVoice : ApuChoices := ⟨fun _ => (0x8, 0), fun _ => [5], fun _ => false, fun _ => false, fun _ => [5]⟩

def turns (plan : List (ApuThread × List Nat)) : List (Turn ApuThread) :=
  plan.flatMap fun (t, cs) => cs.map (⟨t, ·⟩)

/-- The machine runs, a frame waits for a voice that the guest has locked, and a stop is asked for. -/
def askEvents : List (Turn ApuThread) := turns
  [(.caller 0, [0, 0, 0]), (.frame, [0, 0, 0, 0]), (.caller 0, [0, 0, 0, 0, 0, 0]),
    (.caller 0, [2, 0, 0, 0, 0, 0, 0]), (.guest, [0, 0, 0, 0, 0, 1, 0, 0, 0, 0]),
    (.frame, [0, 0, 0, 0, 0, 0, 0, 0, 0]), (.caller 0, [0, 1, 0, 0, 0, 0, 0])]

def idleEvents : List (Turn ApuThread) := turns [(.frame, [0, 0, 0, 0, 0, 0, 0])]

theorem apu_pause_stop :
    (∃ s, Lib.run (step (apuCode lockedVoice)) apuStart askEvents = some s ∧ s.shared.frames = 1 ∧
      (∃ t, Relation.ReflTransGen (WaitsFor lockedVoice s) .frame t ∧ CanStep lockedVoice s t) ∧
      ∃ before after woken, idleEvents = before ++ after ∧
        Lib.run (step (apuCode lockedVoice)) s before = some woken ∧ 0 ∉ woken.shared.sleepers) ∧
    (∃ s, Lib.run (step (apuCode lockedVoice)) apuStart (askEvents ++ idleEvents ++ turns [(.caller 0, [0, 0])]) =
      some s ∧ s.pc (.caller 0) = .caller 0 (.test (some .stop) true) ∧ s.shared.isIdle = true) ∧
    ∃ s, Lib.run (step (apuCode lockedVoice)) apuStart
        (askEvents ++ idleEvents ++ turns [(.caller 0, [0, 0, 0, 0, 0, 0, 0])]) = some s ∧
      s.shared.stopped = true ∧ ∀ p, s.pc .frame = .frame p → p.inFrame = false := by
  have hmeets : Meets (step (apuCode lockedVoice)) pauseOk apuStart (askEvents ++ idleEvents) := by decide +kernel
  obtain ⟨hask, hidle⟩ := meets_append.mp hmeets
  refine ⟨?_, ?_, ?_⟩
  · obtain ⟨s, hrun, hframes, hsleeps, hrank, hgoes⟩ : ∃ s,
        Lib.run (step (apuCode lockedVoice)) apuStart askEvents = some s ∧ s.shared.frames = 1 ∧
          0 ∈ s.shared.sleepers ∧ frameRank s < idleEvents.countP (fun e => decide (e.thread = .frame)) ∧
          (Lib.run (step (apuCode lockedVoice)) s idleEvents).isSome = true := by decide +kernel
    obtain ⟨s', hrun'⟩ := Option.isSome_iff_exists.mp hgoes
    obtain ⟨hstep, hwoken⟩ := (apu_pause lockedVoice askEvents hask hrun).2.2 0 hsleeps
    exact ⟨s, hrun, hframes, hstep, hwoken idleEvents s' (hidle s hrun) hrank hrun'⟩
  · refine exists_some_and (by decide +kernel) fun s hrun htest => ?_
    exact (apu_pause lockedVoice _ (by decide +kernel) hrun).2.1 0 _ htest
  · refine exists_some_and (by decide +kernel) fun s hrun hstopped => ?_
    exact (apu_pause lockedVoice _ (by decide +kernel) hrun).1 hstopped

def running : ApuChoices := ⟨fun _ => (0x8, 0), fun _ => [], fun _ => false, fun _ => false, fun _ => []⟩

def stopEvents : List (Turn ApuThread) :=
  [(.caller 0, [0, 0, 0]), (.frame, [0, 0, 0, 0]), (.caller 0, [0, 0, 0, 0, 0, 0]),
    (.caller 0, [1, 0, 0, 0, 0, 0, 0, 0, 0])].flatMap fun (t, cs) => cs.map (⟨t, ·⟩)

def loadEvents : List (Turn ApuThread) :=
  stopEvents ++ [(.caller 0, [3, 0, 0, 0, 0, 0, 0, 0, 0, 0]), (.caller 0, [4, 0, 0, 0, 0, 0]),
    (.frame, [0, 0, 0, 0, 0, 0, 0])].flatMap fun (t, cs) => cs.map (⟨t, ·⟩)

/-- A frame is made before the machine is started again. -/
theorem frame_while_stopped :
    ∃ s, Lib.run (step (apuCode running)) apuStart loadEvents = some s ∧ s.shared.stopped = true ∧
      s.pc .frame = .frame .voices ∧ s.shared.frames = 1 := by
  decide +kernel

end XogMobile.Apu
