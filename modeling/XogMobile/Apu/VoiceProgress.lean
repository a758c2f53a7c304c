import XogMobile.Apu.VoiceFrames
import Mathlib.Algebra.Order.BigOperators.Group.Finset

/-!
# A frame comes to its end

While the dispatching thread sleeps, some thread can always take a step, and every step brings a
thread closer to its own wait. So the dispatching thread is woken, and by then no worker has a voice
left.
-/

namespace XogMobile.Apu

open Lib Threads

variable {α : Type} {n : Nat} {C : Choices α} {s s' : VoiceThreads α n}

theorem step_of_held {t : Option (Fin n)} (hheld : voiceHeld (s.pc t) () = true)
    (hschedule : s.pc t ≠ .schedule) (hfailed : s.pc t ≠ .failed)
    (hfirst : s.pc t = .workerFirst → s.shared.lowestPending n ≠ none) :
    ∃ s', step (voiceCode n C) s ⟨t, 0⟩ = some s' := by
  cases hp : s.pc t <;> rw [hp] at hheld <;> try cases hheld
  case schedule => exact absurd hp hschedule
  case failed => exact absurd hp hfailed
  case releaseFinished | unlock | workerUnlock | workerRelease =>
    exact ⟨_, by rw [step, hp]; rfl⟩
  case check first =>
    by_cases hnone : s.shared.NonePending n
    · exact ⟨_, step_of_act (by rw [hp]; rfl) (if_pos hnone)⟩
    · exact ⟨_, step_of_act (by rw [hp]; rfl) (if_neg hnone)⟩
  case workerFirst =>
    obtain ⟨i, hi⟩ := Option.ne_none_iff_exists'.mp (hfirst hp)
    exact ⟨_, step_of_act (by rw [hp]; rfl) (by rw [hi]; rfl)⟩
  all_goals exact ⟨_, step_of_act (by rw [hp]; rfl) rfl⟩

theorem step_of_lock {t : Option (Fin n)} {next : Point}
    (hcode : voiceCode n C (s.pc t) = .lock () next) (hfree : s.owner () = none) :
    ∃ s', step (voiceCode n C) s ⟨t, 0⟩ = some s' :=
  ⟨_, by simp only [step, hcode, hfree]; rfl⟩

variable {t : Fin n} {i : Nat} {q : Point} {w : Worker α} {e : Turn (Option (Fin n))}

theorem step_of_pending (hfree : s.owner () = none) (hid : (s.pc (some t)).id = some i)
    (hheld : voiceHeld (s.pc (some t)) () = false) (hasleep : (s.shared.workers i).asleep = false) :
    ∃ s', step (voiceCode n C) s ⟨some t, 0⟩ = some s' := by
  cases hp : s.pc (some t) <;> rw [hp] at hid hheld <;> try cases hid
  case workerRelock | workerReacquire => exact step_of_lock (by rw [hp]; rfl) hfree
  case workerClearBins => exact ⟨_, step_of_act (by rw [hp]; rfl) rfl⟩
  case workerProcess k =>
    cases hk : (s.shared.workers i).queue[k]? with
    | none => exact ⟨_, step_of_act (by rw [hp]; rfl) (by rw [hk])⟩
    | some v => exact ⟨_, step_of_act (by rw [hp]; rfl) (by rw [hk])⟩
  case workerBlocked => exact ⟨_, step_of_act (by rw [hp]; rfl) (by rw [hasleep]; rfl)⟩
  all_goals cases hheld

theorem VoiceInv.lowestPending_ne_none (h : VoiceInv s) (ht : s.pc (some t) = .workerFirst) :
    s.shared.lowestPending n ≠ none := by
  intro hnone
  have hid : (s.pc (some t)).id = none := by
    rw [ht]
    rfl
  obtain ⟨i, hi, hunassigned⟩ := exists_unassigned hid
  exact List.find?_eq_none.mp hnone i (List.mem_range.mpr hi) (h.fresh i hi hunassigned).pending

theorem VoiceInv.enabled (h : VoiceInv s) (hasleep : s.shared.asleep = true) :
    ∃ e s', Threads.step (voiceCode n C) s e = some s' := by
  obtain ⟨first, hnone⟩ := h.asleep hasleep
  cases howner : s.owner () with
  | some t =>
    have hheld := (h.owned () t).mp howner
    have hpoint : s.pc t ≠ .schedule ∧ s.pc t ≠ .failed := by
      cases t with
      | none => obtain hnone | hnone := hnone <;> rw [hnone] <;> exact ⟨nofun, nofun⟩
      | some t =>
        have hstarting := h.starting t
        refine ⟨fun hp => ?_, fun hp => ?_⟩ <;> rw [hp] at hstarting <;> cases hstarting rfl
    refine ⟨⟨t, 0⟩, step_of_held hheld hpoint.1 hpoint.2 fun hp => ?_⟩
    cases t with
    | none => obtain hnone | hnone := hnone <;> rw [hnone] at hp <;> cases hp
    | some t => exact h.lowestPending_ne_none hp
  | none =>
    have hheld : ∀ t, voiceHeld (s.pc t) () = false := by
      intro t
      rw [Bool.eq_false_iff]
      intro ht
      rw [(h.owned () t).mpr ht] at howner
      cases howner
    by_cases hids : ∀ t, (s.pc (some t)).id ≠ none
    · obtain hsome | ⟨t, i, ht⟩ := h.busy (.inl hasleep)
      · simp only [Dispatch.NonePending, not_forall, Bool.not_eq_false] at hsome
        obtain ⟨i, hi, hpending⟩ := hsome
        obtain ⟨t, ht⟩ := h.exists_thread hids hi
        refine ⟨_, step_of_pending howner ht (hheld _) ?_⟩
        rw [Bool.eq_false_iff]
        intro hworker
        have hbroadcast := h.woken i hi hworker hpending
        obtain hnone | hnone := hnone <;> rw [hnone] at hbroadcast <;> cases hbroadcast
      · have hfalse := hheld (some t)
        rw [ht] at hfalse
        cases hfalse
    · push Not at hids
      obtain ⟨t, ht⟩ := hids
      have hstarting := h.starting t ht
      have hfalse := hheld (some t)
      cases hp : s.pc (some t) <;> rw [hp] at hstarting hfalse <;> cases hstarting
      · exact ⟨_, step_of_lock (t := some t) (by rw [hp]; rfl) howner⟩
      · cases hfalse

def threadRank (s : VoiceThreads α n) (t : Option (Fin n)) : Nat :=
  (s.pc t).rank (s.shared.workers ((s.pc t).id.getD 0))

def voiceRank (s : VoiceThreads α n) : Nat := ∑ t, threadRank s t

theorem Point.rank_of_id_eq_none {p : Point} (h : p.id = none) (w w' : Worker α) : p.rank w = p.rank w' := by
  cases p <;> first | rfl | cases h

theorem VoiceInv.id_none (h : VoiceInv s) : (s.pc none).id = none := by
  have hdispatching := h.dispatching
  cases hp : s.pc none <;> rw [hp] at hdispatching <;> first | rfl | cases hdispatching

theorem WorkerMove.threadRank_of_ne (m : WorkerMove s s' t i q w) (h : VoiceInv s)
    {u : Option (Fin n)} (hu : u ≠ some t) : threadRank s' u = threadRank s u := by
  have hpc : s'.pc u = s.pc u := by rw [m.pc, Function.update_of_ne hu]
  rw [threadRank, threadRank, hpc]
  cases hid : (s.pc u).id with
  | none => exact Point.rank_of_id_eq_none hid _ _
  | some j =>
    cases u with
    | none =>
      rw [h.id_none] at hid
      cases hid
    | some u =>
      have hji : j ≠ i := fun heq => hu (congrArg some (h.unique u t i (heq ▸ hid) m.id))
      rw [Option.getD_some, m.worker_of_ne hji]

theorem WorkerMove.threadRank_lt (m : WorkerMove s s' t i q w)
    (hrank : q.rank w < (s.pc (some t)).rank (s.shared.workers i)) :
    threadRank s' (some t) < threadRank s (some t) := by
  rw [threadRank, threadRank, m.pc_self, m.next, m.id, Option.getD_some, m.worker_self]
  exact hrank

theorem VoiceInv.threadRank_step (h : VoiceInv s) (hasleep : s.shared.asleep = true)
    (hstep : Threads.step (voiceCode n C) s e = some s') :
    (∀ u ≠ e.thread, threadRank s' u = threadRank s u) ∧ threadRank s' e.thread < threadRank s e.thread := by
  have hmoves := step_moves hstep
  have hsame : s'.shared = s.shared → ∀ u ≠ e.thread, threadRank s' u = threadRank s u := by
    intro hshared u hu
    rw [threadRank, threadRank, hshared, hmoves.pc_of_ne hu]
  obtain ⟨_ | t, c⟩ := e
  · obtain ⟨first, hnone | hnone⟩ := h.asleep hasleep
    · rw [Threads.step, hnone] at hstep
      cases hstep
      refine ⟨hsame rfl, ?_⟩
      simp [threadRank, hnone, Point.rank]
    · rw [Threads.step, hnone] at hstep
      simp [voiceCode, hasleep] at hstep
  · cases hid : (s.pc (some t)).id with
    | none =>
      obtain ⟨hshared, ⟨hpc, hpc'⟩ | ⟨hpc, i, hpc', hi, hunassigned⟩⟩ := h.start_move hid hmoves
      · refine ⟨hsame hshared, ?_⟩
        simp [threadRank, hpc, hpc', Point.rank]
      · refine ⟨hsame hshared, ?_⟩
        simp [threadRank, hpc, hpc', hshared, Point.rank, Point.id, (h.fresh i hi hunassigned).queue]
    | some i =>
      obtain ⟨q, w, m, hrank⟩ := h.worker_move hid hmoves
      exact ⟨fun u hu => m.threadRank_of_ne h hu, m.threadRank_lt hrank⟩

theorem VoiceInv.voiceRank_lt (h : VoiceInv s) (hasleep : s.shared.asleep = true)
    (hstep : Threads.step (voiceCode n C) s e = some s') : voiceRank s' < voiceRank s := by
  obtain ⟨hne, hlt⟩ := h.threadRank_step hasleep hstep
  refine Finset.sum_lt_sum (fun u _ => ?_) ⟨e.thread, Finset.mem_univ _, hlt⟩
  by_cases hu : u = e.thread
  · exact hu ▸ hlt.le
  · exact (hne u hu).le

/-- In every run a frame that is not dropped is processed and mixed whole, each voice once; the
dispatching thread leaves its wait with all workers done, so its assertion holds; and as long as it
sleeps a thread can go on, for a bounded number of steps. -/
theorem voice_frames (hn : 0 < n) (C : Choices α) (events : List (Turn (Option (Fin n))))
    (hrun : Lib.run (step (voiceCode n C)) (voiceStart n) events = some s) :
    (∀ f ∈ s.shared.frames, f.Ok) ∧ s.pc none ≠ .failed ∧
      (∀ first, s.pc none = .reacquireFinished first ∨ s.pc none = .check first →
        s.shared.NonePending n ∧ (∀ i < n, (s.shared.workers i).Done) ∧
          (first = false → (s.shared.mixbins : Multiset α) = s.shared.queue)) ∧
      (s.shared.asleep = true → (∃ e s', step (voiceCode n C) s e = some s') ∧
        ∀ more s', voiceRank s < more.length → Lib.run (step (voiceCode n C)) s more = some s' →
          ∃ before after woken, more = before ++ after ∧
            Lib.run (step (voiceCode n C)) s before = some woken ∧ woken.shared.asleep = false) := by
  have h : VoiceInv s := (VoiceInv.init hn).run hn hrun
  refine ⟨h.frames, fun hfailed => ?_, fun first hfirst => ?_, fun hasleep => ⟨h.enabled hasleep, ?_⟩⟩
  · have hdispatching := h.dispatching
    rw [hfailed] at hdispatching
    cases hdispatching
  · have hnone : s.shared.NonePending n := by
      refine h.quiet ?_
      obtain hp | hp := hfirst <;> rw [hp] <;> rfl
    refine ⟨hnone, fun i hi => h.done hnone hi, fun hframe => ?_⟩
    have haccounts : s.shared.Accounts n := by
      refine h.accounts ?_
      obtain hp | hp := hfirst <;> rw [hp, hframe] <;> rfl
    exact haccounts.mixbins fun i hi => (h.done hnone hi).queue
  · intro more s' hlong hmore
    have hmeets : Meets (Threads.step (voiceCode n C)) (fun _ _ => True) s more :=
      meets_of_forall s fun _ _ => trivial
    obtain ⟨before, after, woken, hsplit, hbefore, hwoken⟩ :=
      run_exits (fun s => VoiceInv s ∧ s.shared.asleep = true) voiceRank
        (fun _ => true) (fun s e s' hs _ hstep => hs.1.voiceRank_lt hs.2 hstep) ⟨h, hasleep⟩
        hmeets (by simpa using hlong) hmore
    refine ⟨before, after, woken, hsplit, hbefore, ?_⟩
    rw [Bool.eq_false_iff]
    exact fun hasleep => hwoken ⟨h.run hn hbefore, hasleep⟩

def twoVoices : Choices Nat := ⟨fun _ => [7, 8], fun _ _ => ⟨0, 0, 0⟩⟩

def twoWorkers : List (Turn (Option (Fin 2))) :=
  [(none, 2), (some 0, 7), (some 1, 7), (none, 11), (some 0, 13), (some 1, 13), (none, 3)].flatMap
    fun (t, k) => List.replicate k ⟨t, 1⟩

theorem voice_frames_twoWorkers :
    ∃ s, Lib.run (step (voiceCode 2 twoVoices)) (voiceStart 2) twoWorkers = some s ∧
      s.shared.frames.map (·.queue) = [[7, 8]] ∧ ∀ f ∈ s.shared.frames, f.Ok := by
  refine exists_some_and (by decide +kernel) fun s hrun _ => ?_
  exact (voice_frames (by decide) twoVoices twoWorkers hrun).1

def pausedFrame : List (Turn (Option (Fin 1))) :=
  [(none, 2), (some 0, 7), (none, 6)].flatMap fun (t, k) => List.replicate k ⟨t, 0⟩

/-- The voices of that frame are never processed. -/
theorem paused_frame_dropped :
    ∃ s, Lib.run (step (voiceCode 1 twoVoices)) (voiceStart 1) pausedFrame = some s ∧
      ∃ f ∈ s.shared.frames, f.queue = [7, 8] ∧ f.processed = 0 := by
  decide +kernel

end XogMobile.Apu
