import XogMobile.Apu.VoiceWork
import Mathlib.Algebra.BigOperators.Intervals

/-!
# Every voice of a frame is processed once

The invariant says for each place of a worker what its record holds, and for each place of the
dispatching thread whether some bit of `workers_pending` may be set. Bits are set by the schedule
alone, which holds the lock and finds all of them clear, so no worker is outside its wait with work
left. The thread that dispatches is woken only by a worker that has seen all bits clear.
-/

namespace XogMobile.Apu

open Lib Threads Function List Option Nat

variable {α : Type} {n : Nat}

/-- The schedule gives `g i` to worker `i`, and each voice to one worker. -/
structure Given (n : Nat) (queue : List α) (before after : Nat → Worker α) (g : Nat → List α) :
    Prop where
  sum : ∑ i ∈ Finset.range n, (g i : Multiset α) = queue
  worker : ∀ i, after i = { before i with
    pending := (before i).pending || !(g i).isEmpty
    queue := (before i).queue ++ g i
    assigned := (before i).assigned ++ g i }

theorem scheduleFrom_given {bins : α → Bins} {queue : List α} {next : Nat} {group : Bool}
    {dirty : BitVec 32} {before after : Nat → Worker α} (hnext : next < n)
    (h : scheduleFrom n bins queue next group dirty before = some after) :
    ∃ g, Given n queue before after g := by
  induction queue generalizing next group dirty before with
  | nil =>
    cases h
    exact ⟨fun _ => [], by simp, fun i => by simp⟩
  | cons v queue ih =>
    obtain ⟨-, h⟩ := ite_none_right_eq_some.mp h
    have hnext' : ∀ b : Bool, (if b then next else (next + 1) % n) < n := by
      intro b
      cases b
      · exact mod_lt _ (by omega)
      · exact hnext
    obtain ⟨g, hsum, hworker⟩ := ih (hnext' _) h
    refine ⟨update g next (v :: g next), ?_, fun i => ?_⟩
    · have hmem : next ∈ Finset.range n := Finset.mem_range.mpr hnext
      rw [← Finset.add_sum_erase _ _ hmem] at hsum ⊢
      rw [update_self, Finset.sum_congr rfl fun i hi => by
        rw [update_of_ne (Finset.ne_of_mem_erase hi)], ← Multiset.cons_coe,
        Multiset.cons_add, hsum, Multiset.cons_coe]
    · rw [hworker i]
      by_cases hi : i = next
      · subst hi
        simp [Worker.give]
      · simp [update_of_ne hi]

def Worker.Ready (w : Worker α) : Prop :=
  (w.pending = true ∧ w.queue = w.assigned ∧ w.calls = []) ∨
    (w.pending = false ∧ w.queue = [] ∧ w.calls = w.assigned)

/-- The worker has processed the voices it was given, in order. -/
structure Worker.Done (w : Worker α) : Prop where
  queue : w.queue = []
  calls : w.calls = w.assigned

def Point.Place (p : Point) (w : Worker α) : Prop :=
  match p with
  | .workerTop _ | .workerReacquire _ => w.Ready ∧ w.asleep = false
  | .workerUnlock _ =>
    (w.pending = true ∧ w.queue = w.assigned ∧ w.calls = [] ∧ w.queue ≠ []) ∧ w.asleep = false
  | .workerClearBins _ =>
    (w.pending = true ∧ w.queue = w.assigned ∧ w.calls = []) ∧ w.asleep = false
  | .workerProcess _ k =>
    (w.pending = true ∧ w.queue = w.assigned ∧ w.calls = w.assigned.take k ∧
      w.mixbins = w.assigned.take k ∧ k ≤ w.assigned.length) ∧ w.asleep = false
  | .workerRelock _ | .workerAdd _ =>
    (w.pending = true ∧ w.queue = w.assigned ∧ w.calls = w.assigned ∧
      w.mixbins = w.assigned) ∧ w.asleep = false
  | .workerClear _ => w.Done ∧ w.asleep = false
  | .workerSignal _ | .workerEnqueue _ => (w.pending = false ∧ w.Done) ∧ w.asleep = false
  | .workerRelease _ => (w.pending = false ∧ w.Done) ∧ w.asleep = true
  | .workerBlocked _ => w.Ready
  | _ => False

structure Worker.Fresh (w : Worker α) : Prop where
  pending : w.pending = true
  queue : w.queue = []
  assigned : w.assigned = []
  calls : w.calls = []
  asleep : w.asleep = false

def Point.rank (p : Point) (w : Worker α) : Nat :=
  match p with
  | .releaseFinished _ => 1
  | .workerStart => 13
  | .workerFirst => 12
  | .workerTop _ => w.queue.length + 11
  | .workerUnlock _ => w.queue.length + 10
  | .workerClearBins _ => w.queue.length + 9
  | .workerProcess _ k => w.queue.length - k + 8
  | .workerRelock _ => 7
  | .workerAdd _ => 6
  | .workerClear _ => 5
  | .workerSignal _ => 4
  | .workerEnqueue _ => 3
  | .workerRelease _ => 2
  | .workerBlocked _ => if w.asleep then 1 else w.queue.length + 13
  | .workerReacquire _ => w.queue.length + 12
  | _ => 0

def Point.dispatching : Point → Bool
  | .enqueueFinished _ | .releaseFinished _ | .blockedFinished _ | .reacquireFinished _ | .check _
  | .unlock | .idle | .loop | .lock | .schedule | .broadcast => true
  | _ => false

def Point.starting : Point → Bool
  | .workerStart | .workerFirst => true
  | _ => false

def Point.initial : Point → Bool
  | .enqueueFinished true | .releaseFinished true | .blockedFinished true => true
  | _ => false

def Point.awaiting : Point → Bool → Bool
  | .enqueueFinished _, _ | .broadcast, _ => true
  | .releaseFinished _, asleep | .blockedFinished _, asleep => asleep
  | _, _ => false

def Point.inFrame : Point → Bool
  | .broadcast | .enqueueFinished false | .releaseFinished false | .blockedFinished false
  | .reacquireFinished false | .check false => true
  | _ => false

/-- A frame is dropped whole, or each of its voices was processed once and is in the mix. -/
def Frame.Ok (f : Frame α) : Prop :=
  if f.dropped then f.processed = 0 ∧ f.mixbins = []
  else f.processed = f.queue ∧ (f.mixbins : Multiset α) = f.queue

/-- The workers were given the queue, and have what is not mixed. -/
structure Dispatch.Accounts (n : Nat) (x : Dispatch α) : Prop where
  given : ∑ i ∈ Finset.range n, ((x.workers i).assigned : Multiset α) = x.queue
  left : (x.mixbins : Multiset α) + ∑ i ∈ Finset.range n, ((x.workers i).queue : Multiset α) = x.queue

theorem Dispatch.Accounts.mixbins {x : Dispatch α} (h : x.Accounts n)
    (hempty : ∀ i < n, (x.workers i).queue = []) : (x.mixbins : Multiset α) = x.queue := by
  have hzero : ∑ i ∈ Finset.range n, ((x.workers i).queue : Multiset α) = 0 := by
    refine Finset.sum_eq_zero fun i hi => ?_
    rw [hempty i (Finset.mem_range.mp hi), Multiset.coe_nil]
  have hleft := h.left
  rwa [hzero, add_zero] at hleft

/-- The dispatcher and the workers agree on who holds which voices. -/
structure VoiceInv (s : VoiceThreads α n) : Prop where
  owned : Owned voiceHeld s
  dispatching : (s.pc none).dispatching = true
  starting : ∀ t, (s.pc (some t)).id = none → (s.pc (some t)).starting = true
  place : ∀ t i, (s.pc (some t)).id = some i → i < n ∧ (s.pc (some t)).Place (s.shared.workers i)
  unique : ∀ t u i, (s.pc (some t)).id = some i → (s.pc (some u)).id = some i → t = u
  fresh : ∀ i < n, (∀ t, (s.pc (some t)).id ≠ some i) → (s.shared.workers i).Fresh
  initial : ∀ t, (s.pc (some t)).id = none → (s.pc none).initial = true ∧
    ∀ u i, (s.pc (some u)).id = some i → (s.shared.workers i).pending = true →
      voiceHeld (s.pc (some u)) () = true ∧ (s.shared.workers i).queue = []
  quiet : (s.pc none).awaiting s.shared.asleep = false → s.shared.NonePending n
  accounts : (s.pc none).inFrame = true → s.shared.Accounts n
  frames : ∀ f ∈ s.shared.frames, f.Ok
  woken : ∀ i < n, (s.shared.workers i).asleep = true → (s.shared.workers i).pending = true →
    s.pc none = .broadcast
  busy : (s.shared.asleep = true ∨ (s.pc none).awaiting false = true) →
    ¬s.shared.NonePending n ∨ ∃ t i, s.pc (some t) = .workerSignal i
  asleep : s.shared.asleep = true →
    ∃ first, s.pc none = .releaseFinished first ∨ s.pc none = .blockedFinished first

theorem voiceLocks (C : Choices α) : Locks (voiceCode n C) voiceHeld where
  lock {p l next} h := by
    cases p <;> cases h <;> funext l <;> rfl
  unlock {p l next} h := by
    cases p <;> cases h <;> funext l <;> rfl
  owned {p l next} h := by
    cases p <;> cases h <;> rfl
  act {p f c x x' next} h hact := by
    cases p <;> cases h
    case blockedFinished first =>
      obtain ⟨-, ⟨⟩⟩ := ite_none_left_eq_some.mp hact
      rfl
    case workerBlocked i =>
      obtain ⟨-, ⟨⟩⟩ := ite_none_left_eq_some.mp hact
      rfl
    case check first =>
      dsimp only at hact
      split at hact <;> cases hact <;> rfl
    case failed => cases hact
    case loop =>
      have heq := some.inj hact
      split at heq
      · cases heq; rfl
      split at heq <;> cases heq <;> rfl
    case schedule =>
      dsimp only at hact
      split at hact
      · cases hact; rfl
      · obtain ⟨y, -, ⟨⟩⟩ := map_eq_some_iff.mp hact
        rfl
    case workerFirst =>
      obtain ⟨i, -, ⟨⟩⟩ := map_eq_some_iff.mp hact
      rfl
    case workerTop i =>
      cases hact
      split <;> rfl
    case workerProcess i k =>
      dsimp only at hact
      split at hact <;> cases hact <;> rfl
    all_goals cases hact; rfl

/-- What a step of worker `i` may do to its record `w`, and to what all share. -/
structure WorkerMove (s s' : VoiceThreads α n) (t : Fin n) (i : Nat) (q : Point) (w : Worker α) :
    Prop where
  owned : Owned voiceHeld s'
  pc : s'.pc = update s.pc (some t) q
  id : (s.pc (some t)).id = some i
  next : q.id = some i
  workers : s'.shared.workers = update s.shared.workers i w
  queue : s'.shared.queue = s.shared.queue
  frames : s'.shared.frames = s.shared.frames
  place : q.Place w
  assigned : w.assigned = (s.shared.workers i).assigned
  pending : w.pending = (s.shared.workers i).pending ∨
    (w.pending = false ∧ q = .workerSignal i ∧ voiceHeld (s.pc (some t)) () = true)
  held : w.pending = true → (s.shared.workers i).queue = [] →
    voiceHeld (s.pc (some t)) () = true → voiceHeld q () = true ∧ w.queue = []
  left : (s'.shared.mixbins : Multiset α) + (w.queue : Multiset α) =
    s.shared.mixbins + ((s.shared.workers i).queue : Multiset α)
  asleep : s'.shared.asleep = true → s.shared.asleep = true
  awake : s'.shared.asleep = false → s.shared.asleep = false ∨ s'.shared.NonePending n
  signal : ∀ j, s.pc (some t) = .workerSignal j → s'.shared.asleep = true →
    ¬s'.shared.NonePending n
  woken : w.asleep = true → w.pending = true →
    (s.shared.workers i).asleep = true ∧ (s.shared.workers i).pending = true

namespace WorkerMove

variable {s s' : VoiceThreads α n} {t : Fin n} {i : Nat} {q : Point} {w : Worker α}

section

variable (m : WorkerMove s s' t i q w)
include m

theorem pc_none : s'.pc none = s.pc none := by
  rw [m.pc, update_of_ne (by simp)]

theorem pc_self : s'.pc (some t) = q := by
  rw [m.pc, update_self]

theorem pc_of_ne {u : Fin n} (hu : u ≠ t) : s'.pc (some u) = s.pc (some u) := by
  rw [m.pc, update_of_ne fun h => hu (some.inj h)]

theorem id_eq (u : Fin n) : (s'.pc (some u)).id = (s.pc (some u)).id := by
  by_cases hu : u = t
  · rw [hu, m.pc_self, m.next, m.id]
  · rw [m.pc_of_ne hu]

theorem worker_self : s'.shared.workers i = w := by
  rw [m.workers, update_self]

theorem worker_of_ne {j : Nat} (hj : j ≠ i) : s'.shared.workers j = s.shared.workers j := by
  rw [m.workers, update_of_ne hj]

theorem pending_of {j : Nat} (h : (s'.shared.workers j).pending = true) : (s.shared.workers j).pending = true := by
  by_cases hj : j = i
  · subst hj
    rw [m.worker_self] at h
    obtain heq | ⟨hfalse, -⟩ := m.pending
    · exact heq ▸ h
    · rw [hfalse] at h
      cases h
  · rwa [m.worker_of_ne hj] at h

theorem nonePending (h : s.shared.NonePending n) : s'.shared.NonePending n := by
  intro j hj
  rw [Bool.eq_false_iff]
  intro hpending
  have := h j hj
  rw [m.pending_of hpending] at this
  cases this

theorem accounts (hi : i < n) (h : s.shared.Accounts n) : s'.shared.Accounts n := by
  have hmem : i ∈ Finset.range n := Finset.mem_range.mpr hi
  refine ⟨?_, ?_⟩
  · rw [m.queue, ← h.given]
    refine Finset.sum_congr rfl fun j _ => ?_
    by_cases hj : j = i
    · rw [hj, m.worker_self, m.assigned]
    · rw [m.worker_of_ne hj]
  · have hleft := h.left
    rw [← Finset.add_sum_erase _ _ hmem] at hleft ⊢
    rw [m.queue, m.worker_self, ← add_assoc, m.left, add_assoc, Finset.sum_congr rfl fun j hj => by
      rw [m.worker_of_ne (Finset.ne_of_mem_erase hj)]]
    exact hleft

theorem inv (h : VoiceInv s) : VoiceInv s' where
  owned := m.owned
  dispatching := m.pc_none ▸ h.dispatching
  starting u hu := by
    by_cases hut : u = t
    · rw [hut, m.id_eq, m.id] at hu
      cases hu
    · rw [m.pc_of_ne hut] at hu ⊢
      exact h.starting u hu
  place u j hj := by
    by_cases hut : u = t
    · subst hut
      rw [m.id_eq, m.id] at hj
      cases hj
      rw [m.pc_self, m.worker_self]
      exact ⟨(h.place u i m.id).1, m.place⟩
    · rw [m.id_eq] at hj
      have hji : j ≠ i := fun heq => hut (h.unique u t i (heq ▸ hj) m.id)
      rw [m.pc_of_ne hut, m.worker_of_ne hji]
      exact h.place u j hj
  unique u v j hu hv := h.unique u v j (m.id_eq u ▸ hu) (m.id_eq v ▸ hv)
  fresh j hj hnone := by
    have hji : j ≠ i := fun heq => hnone t (by rw [m.id_eq, m.id, heq])
    rw [m.worker_of_ne hji]
    exact h.fresh j hj fun u hu => hnone u (by rw [m.id_eq, hu])
  initial v hv := by
    rw [m.id_eq] at hv
    obtain ⟨hinitial, hall⟩ := h.initial v hv
    refine ⟨m.pc_none ▸ hinitial, fun u j hu hpending => ?_⟩
    rw [m.id_eq] at hu
    obtain ⟨hheld, hqueue⟩ := hall u j hu (m.pending_of hpending)
    by_cases hut : u = t
    · subst hut
      cases m.id.symm.trans hu
      rw [m.worker_self] at hpending ⊢
      rw [m.pc_self]
      exact m.held hpending hqueue hheld
    · have hji : j ≠ i := fun heq => hut (h.unique u t i (heq ▸ hu) m.id)
      rw [m.pc_of_ne hut, m.worker_of_ne hji]
      exact ⟨hheld, hqueue⟩
  quiet hquiet := by
    rw [m.pc_none] at hquiet
    cases hasleep : s'.shared.asleep with
    | false =>
      obtain hawake | hnone := m.awake hasleep
      · rw [hasleep] at hquiet
        exact m.nonePending (h.quiet (by rw [hawake, hquiet]))
      · exact hnone
    | true =>
      rw [hasleep] at hquiet
      exact m.nonePending (h.quiet (by rw [m.asleep hasleep, hquiet]))
  accounts hframe := m.accounts (h.place t i m.id).1 (h.accounts (m.pc_none ▸ hframe))
  frames := m.frames ▸ h.frames
  woken j hj hasleep hpending := by
    rw [m.pc_none]
    by_cases hji : j = i
    · subst hji
      rw [m.worker_self] at hasleep hpending
      obtain ⟨hasleep, hpending⟩ := m.woken hasleep hpending
      exact h.woken j hj hasleep hpending
    · rw [m.worker_of_ne hji] at hasleep hpending
      exact h.woken j hj hasleep hpending
  busy hbusy := by
    rw [m.pc_none] at hbusy
    obtain heq | ⟨-, hsignal, -⟩ := m.pending
    · have hsame : ∀ j, (s'.shared.workers j).pending = (s.shared.workers j).pending := by
        intro j
        by_cases hji : j = i
        · rw [hji, m.worker_self, heq]
        · rw [m.worker_of_ne hji]
      obtain hsome | ⟨u, j, hu⟩ := h.busy (hbusy.imp_left m.asleep)
      · exact .inl fun hnone => hsome fun j hj => hsame j ▸ hnone j hj
      · by_cases hut : u = t
        · subst hut
          refine hbusy.elim (fun hasleep => .inl (m.signal j hu hasleep)) fun hawaiting => ?_
          -- both threads would hold the lock
          have hheld : voiceHeld (s.pc none) () = true := by
            cases hp : s.pc none <;> rw [hp] at hawaiting <;> first | rfl | cases hawaiting
          have hheld' : voiceHeld (s.pc (some u)) () = true := by rw [hu]; rfl
          cases h.owned.unique hheld hheld'
        · exact .inr ⟨u, j, by rw [m.pc_of_ne hut, hu]⟩
    · exact .inr ⟨t, i, by rw [m.pc_self, hsignal]⟩
  asleep hasleep := by
    rw [m.pc_none]
    exact h.asleep (m.asleep hasleep)

end

end WorkerMove

section Worker

variable {s s' : VoiceThreads α n} {t : Fin n} {i c : Nat} {q : Point} {w : Worker α} {C : Choices α}

section

variable (howned : Owned voiceHeld s')
include howned

theorem WorkerMove.of_record (hpc : s'.pc = update s.pc (some t) q) (hid : (s.pc (some t)).id = some i)
    (hnext : q.id = some i) (hshared : s'.shared = s.shared.setWorker i w) (hplace : q.Place w)
    (hassigned : w.assigned = (s.shared.workers i).assigned)
    (hqueue : w.queue = (s.shared.workers i).queue)
    (hpending : w.pending = (s.shared.workers i).pending ∨
      (w.pending = false ∧ q = .workerSignal i ∧ voiceHeld (s.pc (some t)) () = true))
    (hheld : w.pending = true → w.queue = [] → voiceHeld (s.pc (some t)) () = true → voiceHeld q () = true)
    (hsignal : ∀ j, s.pc (some t) ≠ .workerSignal j)
    (hasleep : w.asleep = true → w.pending = true →
      (s.shared.workers i).asleep = true ∧ (s.shared.workers i).pending = true) :
    WorkerMove s s' t i q w where
  owned := howned
  pc := hpc
  id := hid
  next := hnext
  workers := by rw [hshared]; rfl
  queue := by rw [hshared]; rfl
  frames := by rw [hshared]; rfl
  place := hplace
  assigned := hassigned
  pending := hpending
  held hpending hempty hp := ⟨hheld hpending (hqueue.trans hempty) hp, hqueue.trans hempty⟩
  left := by rw [hshared, hqueue]; rfl
  asleep h := by rwa [hshared] at h
  awake h := .inl (by rwa [hshared] at h)
  signal j hj := absurd hj (hsignal j)
  woken := hasleep

theorem WorkerMove.of_same (hpc : s'.pc = update s.pc (some t) q) (hid : (s.pc (some t)).id = some i)
    (hnext : q.id = some i) (hshared : s'.shared = s.shared) (hplace : q.Place (s.shared.workers i))
    (hheld : (s.shared.workers i).pending = true → (s.shared.workers i).queue = [] →
      voiceHeld (s.pc (some t)) () = true → voiceHeld q () = true)
    (hsignal : ∀ j, s.pc (some t) ≠ .workerSignal j) :
    WorkerMove s s' t i q (s.shared.workers i) :=
  .of_record howned hpc hid hnext
    (by rw [hshared, Dispatch.setWorker, update_eq_self]) hplace rfl rfl (.inl rfl) hheld
    hsignal fun h h' => ⟨h, h'⟩

theorem WorkerMove.of_signal (hpc : s'.pc = update s.pc (some t) (.workerEnqueue i))
    (hp : s.pc (some t) = .workerSignal i)
    (hshared : s'.shared = if s.shared.NonePending n then { s.shared with asleep := false } else s.shared)
    (hplace : (Point.workerSignal i).Place (s.shared.workers i)) :
    WorkerMove s s' t i (.workerEnqueue i) (s.shared.workers i) := by
  have hworkers : s'.shared.workers = s.shared.workers := by rw [hshared]; split <;> rfl
  have hnone : s'.shared.NonePending n ↔ s.shared.NonePending n := by
    rw [Dispatch.NonePending, hworkers]; rfl
  exact {
    owned := howned
    pc := hpc
    id := by rw [hp]; rfl
    next := rfl
    workers := by rw [hworkers, update_eq_self]
    queue := by rw [hshared]; split <;> rfl
    frames := by rw [hshared]; split <;> rfl
    place := hplace
    assigned := rfl
    pending := .inl rfl
    held := fun _ hempty _ => ⟨rfl, hempty⟩
    left := by rw [hshared]; split <;> rfl
    asleep := by
      rw [hshared]
      split
      · intro hfalse; cases hfalse
      · exact fun h => h
    awake := by
      rw [hshared]
      split
      · next h => exact fun _ => .inr h
      · exact .inl
    signal := by
      rw [hshared]
      intro _ _
      split
      · intro hfalse; cases hfalse
      · next h => exact fun _ => h
    woken := fun h h' => ⟨h, h'⟩ }

end

theorem VoiceInv.worker_move (h : VoiceInv s) (hid : (s.pc (some t)).id = some i)
    (hmoves : Moves (voiceCode n C) s ⟨some t, c⟩ s') :
    ∃ q w, WorkerMove s s' t i q w ∧ q.rank w < (s.pc (some t)).rank (s.shared.workers i) := by
  have howned := hmoves.owned (voiceLocks C) h.owned
  have hplace := (h.place t i hid).2
  have hid' := hid
  cases hmoves with
  | @lock l next hcode hfree =>
    cases hp : s.pc (some t) <;> rw [hp] at hcode hplace hid' <;> cases hid' <;> cases hcode
    case workerRelock.refl.refl | workerReacquire.refl.refl =>
      exact ⟨_, _, .of_same howned rfl hid rfl rfl hplace (fun _ _ _ => rfl) (by simp [hp]), lt_succ_self _⟩
  | @unlock l next hcode =>
    cases hp : s.pc (some t) <;> rw [hp] at hcode hplace hid' <;> cases hid' <;> cases hcode
    case workerUnlock.refl.refl =>
      obtain ⟨⟨hpending, hqueue, hcalls, hne⟩, hasleep⟩ := hplace
      exact ⟨_, _, .of_same howned rfl hid rfl rfl ⟨⟨hpending, hqueue, hcalls⟩, hasleep⟩
        (fun _ hempty => absurd hempty hne) (by simp [hp]), lt_succ_self _⟩
    case workerRelease.refl.refl =>
      obtain ⟨⟨hpending, hdone⟩, hasleep⟩ := hplace
      refine ⟨_, _, .of_same howned rfl hid rfl rfl (.inr ⟨hpending, hdone.queue, hdone.calls⟩)
        (fun htrue => ?_) (by simp [hp]), by simp [Point.rank, hasleep]⟩
      rw [hpending] at htrue
      cases htrue
  | @act f shared next hcode hact =>
    cases hp : s.pc (some t) <;> rw [hp] at hcode hplace hid' <;> cases hid' <;> cases hcode
    case workerTop.refl.refl =>
      cases hact
      obtain ⟨hready, hasleep⟩ := hplace
      by_cases hempty : (s.shared.workers i).queue = []
      · rw [if_pos hempty] at howned ⊢
        refine ⟨_, _, .of_same howned rfl hid rfl rfl ⟨⟨hempty, ?_⟩, hasleep⟩ (fun _ _ _ => rfl)
          (by simp [hp]), by simp only [Point.rank]; omega⟩
        obtain ⟨-, hqueue, hcalls⟩ | ⟨-, -, hcalls⟩ := hready
        · rw [hcalls, ← hqueue, hempty]
        · exact hcalls
      · rw [if_neg hempty] at howned ⊢
        obtain ⟨hpending, hqueue, hcalls⟩ | ⟨-, hqueue, -⟩ := hready
        · exact ⟨_, _, .of_same howned rfl hid rfl rfl
            ⟨⟨hpending, hqueue, hcalls, hempty⟩, hasleep⟩ (fun _ _ _ => rfl) (by simp [hp]),
            lt_succ_self _⟩
        · exact absurd hqueue hempty
    case workerClearBins.refl.refl =>
      cases hact
      obtain ⟨⟨hpending, hqueue, hcalls⟩, hasleep⟩ := hplace
      exact ⟨_, _, .of_record howned rfl hid rfl rfl
        ⟨⟨hpending, hqueue, hcalls, rfl, zero_le _⟩, hasleep⟩ rfl rfl (.inl rfl)
        (by simp [hp, voiceHeld]) (by simp [hp]) fun h h' => ⟨h, h'⟩, lt_succ_self _⟩
    case workerProcess.refl.refl k =>
      obtain ⟨⟨hpending, hqueue, hcalls, hmix, hk⟩, hasleep⟩ := hplace
      dsimp only at hact
      split at hact
      · next hnone =>
        cases hact
        rw [hqueue, getElem?_eq_none_iff] at hnone
        rw [take_of_length_le hnone] at hcalls hmix
        exact ⟨_, _, .of_same howned rfl hid rfl rfl
          ⟨⟨hpending, hqueue, hcalls, hmix⟩, hasleep⟩ (by simp [hp, voiceHeld]) (by simp [hp]),
          by simp only [Point.rank]; omega⟩
      · next v hv =>
        cases hact
        rw [hqueue] at hv
        obtain ⟨hlt, hv⟩ := List.getElem?_eq_some_iff.mp hv
        refine ⟨_, _, .of_record howned rfl hid rfl rfl
          ⟨⟨hpending, hqueue, ?_, ?_, hlt⟩, hasleep⟩ rfl rfl (.inl rfl)
          (by simp [hp, voiceHeld]) (by simp [hp]) fun h h' => ⟨h, h'⟩, ?_⟩
        · rw [hcalls, take_succ_eq_append_getElem hlt, hv]
        · rw [hmix, take_succ_eq_append_getElem hlt, hv]
        · simp only [Point.rank, hqueue]
          omega
    case workerAdd.refl.refl =>
      cases hact
      obtain ⟨⟨hpending, hqueue, hcalls, hmix⟩, hasleep⟩ := hplace
      refine ⟨.workerClear i, { s.shared.workers i with queue := [] },
        { owned := howned
          pc := rfl
          id := hid
          next := rfl
          workers := rfl
          queue := rfl
          frames := rfl
          place := ⟨⟨rfl, hcalls⟩, hasleep⟩
          assigned := rfl
          pending := .inl rfl
          held := fun _ _ _ => ⟨rfl, rfl⟩
          left := ?_
          asleep := id
          awake := .inl
          signal := by simp [hp]
          woken := fun h h' => ⟨h, h'⟩ }, lt_succ_self _⟩
      simp [hmix, hqueue]
    case workerClear.refl.refl =>
      cases hact
      obtain ⟨hdone, hasleep⟩ := hplace
      exact ⟨_, _, .of_record howned rfl hid rfl rfl
        ⟨⟨rfl, hdone.queue, hdone.calls⟩, hasleep⟩ rfl rfl
        (.inr ⟨rfl, rfl, by rw [hp]; rfl⟩) nofun (by simp [hp])
        nofun, lt_succ_self _⟩
    case workerSignal.refl.refl =>
      cases hact
      exact ⟨_, _, .of_signal howned rfl hp rfl hplace, lt_succ_self _⟩
    case workerEnqueue.refl.refl =>
      cases hact
      obtain ⟨⟨hpending, hdone⟩, -⟩ := hplace
      refine ⟨_, _, .of_record howned rfl hid rfl rfl
        ⟨⟨hpending, hdone.queue, hdone.calls⟩, rfl⟩ rfl rfl (.inl rfl) (fun _ _ _ => rfl)
        (by simp [hp]) fun _ htrue => ?_, lt_succ_self _⟩
      rw [show (s.shared.workers i).pending = true from htrue] at hpending
      cases hpending
    case workerBlocked.refl.refl =>
      obtain ⟨hasleep, ⟨⟩⟩ := ite_none_left_eq_some.mp hact
      exact ⟨_, _, .of_same howned rfl hid rfl rfl ⟨hplace, by simpa using hasleep⟩
        (by simp [hp, voiceHeld]) (by simp [hp]), by simp [Point.rank, hasleep]⟩

theorem VoiceInv.worker_step (h : VoiceInv s) (hid : (s.pc (some t)).id = some i)
    (hmoves : Moves (voiceCode n C) s ⟨some t, c⟩ s') : VoiceInv s' := by
  obtain ⟨q, w, m, -⟩ := h.worker_move hid hmoves
  exact m.inv h

end Worker

section Start

variable {s s' : VoiceThreads α n} {t : Fin n} {i c : Nat} {C : Choices α}

theorem exists_unassigned {pc : Option (Fin n) → Point} (ht : (pc (some t)).id = none) :
    ∃ i < n, ∀ u, (pc (some u)).id ≠ some i := by
  by_contra hall
  push Not at hall
  choose thread hthread using hall
  have hinj : Injective fun i : Fin n => thread i i.isLt := by
    intro i j hij
    have hi := hthread i i.isLt
    rw [show thread i i.isLt = thread j j.isLt from hij, hthread j j.isLt] at hi
    exact Fin.ext (some.inj hi).symm
  obtain ⟨i, hi⟩ := Finite.surjective_of_injective hinj t
  have hi' := hthread i i.isLt
  rw [show thread i i.isLt = t from hi, ht] at hi'
  cases hi'

theorem VoiceInv.id_ne_none (h : VoiceInv s) (hnone : s.shared.NonePending n) (t : Fin n) :
    (s.pc (some t)).id ≠ none := by
  intro ht
  obtain ⟨i, hi, hunassigned⟩ := exists_unassigned ht
  have hpending := (h.fresh i hi hunassigned).pending
  rw [hnone i hi] at hpending
  cases hpending

theorem VoiceInv.unassigned (h : VoiceInv s) (ht : s.pc (some t) = .workerFirst)
    (hi : s.shared.lowestPending n = some i) : i < n ∧ ∀ u, (s.pc (some u)).id ≠ some i := by
  have hpending := find?_some hi
  have hmem := mem_range.mp (mem_of_find?_eq_some hi)
  refine ⟨hmem, fun u hu => ?_⟩
  obtain ⟨hheld, -⟩ := (h.initial t (by rw [ht]; rfl)).2 u i hu hpending
  cases h.owned.unique hheld (show voiceHeld (s.pc (some t)) () = true by rw [ht]; rfl)
  rw [ht] at hu
  cases hu

theorem VoiceInv.start_move (h : VoiceInv s) (hid : (s.pc (some t)).id = none)
    (hmoves : Moves (voiceCode n C) s ⟨some t, c⟩ s') :
    s'.shared = s.shared ∧ ((s.pc (some t) = .workerStart ∧ s'.pc (some t) = .workerFirst) ∨
      (s.pc (some t) = .workerFirst ∧ ∃ i, s'.pc (some t) = .workerTop i ∧ i < n ∧
        ∀ u, (s.pc (some u)).id ≠ some i)) := by
  have hstarting := h.starting t hid
  cases hmoves with
  | lock hcode hfree =>
    cases hp : s.pc (some t) <;> rw [hp] at hcode hstarting <;> cases hstarting <;> cases hcode
    exact ⟨rfl, .inl ⟨rfl, update_self ..⟩⟩
  | unlock hcode => cases hp : s.pc (some t) <;> rw [hp] at hcode hstarting <;> cases hstarting <;> cases hcode
  | act hcode hact =>
    cases hp : s.pc (some t) <;> rw [hp] at hcode hstarting <;> cases hstarting <;> cases hcode
    obtain ⟨i, hi, ⟨⟩⟩ := map_eq_some_iff.mp hact
    obtain ⟨hlt, hunassigned⟩ := h.unassigned hp hi
    refine ⟨?_, .inr ⟨rfl, i, update_self .., hlt, hunassigned⟩⟩
    have hqueue := (h.fresh i hlt hunassigned).queue
    rw [Dispatch.setWorker, ← hqueue, update_eq_self]

theorem VoiceInv.start_step (h : VoiceInv s) (hid : (s.pc (some t)).id = none)
    (hmoves : Moves (voiceCode n C) s ⟨some t, c⟩ s') : VoiceInv s' := by
  have howned := hmoves.owned (voiceLocks C) h.owned
  have hnone : s'.pc none = s.pc none := hmoves.pc_of_ne (by simp)
  have hne : ∀ {u}, u ≠ t → s'.pc (some u) = s.pc (some u) := fun hu => hmoves.pc_of_ne fun heq => hu (some.inj heq)
  obtain ⟨hshared, hpoint⟩ := h.start_move hid hmoves
  have hids : ∀ u j, (s'.pc (some u)).id = some j → (u ≠ t ∧ (s.pc (some u)).id = some j) ∨
      (u = t ∧ s'.pc (some t) = .workerTop j ∧ j < n ∧ ∀ u, (s.pc (some u)).id ≠ some j) := by
    intro u j hu
    by_cases hut : u = t
    · subst hut
      obtain ⟨-, hfirst⟩ | ⟨-, i, htop, hi⟩ := hpoint
      · rw [hfirst] at hu
        cases hu
      · rw [htop] at hu
        cases hu
        exact .inr ⟨rfl, htop, hi⟩
    · exact .inl ⟨hut, hne hut ▸ hu⟩
  have hids' : ∀ u j, (s.pc (some u)).id = some j → u ≠ t ∧ (s'.pc (some u)).id = some j := by
    intro u j hu
    have hut : u ≠ t := fun heq => by rw [heq, hid] at hu; cases hu
    exact ⟨hut, by rw [hne hut, hu]⟩
  exact {
    owned := howned
    dispatching := hnone ▸ h.dispatching
    starting := by
      intro u hu
      by_cases hut : u = t
      · subst hut
        obtain ⟨-, hfirst⟩ | ⟨-, i, htop, -⟩ := hpoint
        · rw [hfirst]; rfl
        · rw [htop] at hu
          cases hu
      · rw [hne hut] at hu ⊢
        exact h.starting u hu
    place := by
      intro u j hu
      rw [hshared]
      obtain ⟨hut, hu⟩ | ⟨rfl, htop, hj, hunassigned⟩ := hids u j hu
      · rw [hne hut]
        exact h.place u j hu
      · have hfresh := h.fresh j hj hunassigned
        rw [htop]
        exact ⟨hj, .inl ⟨hfresh.pending, hfresh.queue.trans hfresh.assigned.symm, hfresh.calls⟩, hfresh.asleep⟩
    unique := by
      intro u v j hu hv
      obtain ⟨-, hu⟩ | ⟨rfl, -, -, hunassigned⟩ := hids u j hu <;>
        obtain ⟨-, hv⟩ | ⟨rfl, -, -, hunassigned'⟩ := hids v j hv
      · exact h.unique u v j hu hv
      · exact absurd hu (hunassigned' u)
      · exact absurd hv (hunassigned v)
      · rfl
    fresh := by
      intro j hj hunassigned
      rw [hshared]
      exact h.fresh j hj fun u hu => hunassigned u (hids' u j hu).2
    initial := by
      intro v hv
      obtain ⟨hinitial, hall⟩ := h.initial t hid
      refine ⟨hnone ▸ hinitial, fun u j hu hpending => ?_⟩
      rw [hshared] at hpending ⊢
      obtain ⟨hut, hu⟩ | ⟨rfl, htop, hj, hunassigned⟩ := hids u j hu
      · rw [hne hut]
        exact hall u j hu hpending
      · rw [htop]
        exact ⟨rfl, (h.fresh j hj hunassigned).queue⟩
    quiet := by rw [hnone, hshared]; exact h.quiet
    accounts := by rw [hnone, hshared]; exact h.accounts
    frames := by rw [hshared]; exact h.frames
    woken := by rw [hnone, hshared]; exact h.woken
    busy := by
      rw [hnone, hshared]
      intro hbusy
      refine (h.busy hbusy).imp_right fun ⟨u, j, hu⟩ => ⟨u, j, ?_⟩
      rw [hne (hids' u j (by rw [hu]; rfl)).1, hu]
    asleep := by rw [hnone, hshared]; exact h.asleep }

end Start

section Dispatching

variable {s s' : VoiceThreads α n} {q : Point} {c : Nat} {C : Choices α}

theorem VoiceInv.of_dispatching (h : VoiceInv s) (howned : Owned voiceHeld s') (hpc : s'.pc = update s.pc none q)
    (hworkers : s'.shared.workers = s.shared.workers) (hnot : s.pc none ≠ .broadcast)
    (hdispatching : q.dispatching = true)
    (hinitial : ∀ t, (s.pc (some t)).id = none → q.initial = true)
    (hquiet : q.awaiting s'.shared.asleep = false → s.shared.NonePending n)
    (haccounts : q.inFrame = true → s'.shared.Accounts n)
    (hframes : ∀ f ∈ s'.shared.frames, f.Ok)
    (hbusy : s'.shared.asleep = true ∨ q.awaiting false = true →
      s.shared.asleep = true ∨ (s.pc none).awaiting false = true)
    (hasleep : s'.shared.asleep = true →
      ∃ first, q = .releaseFinished first ∨ q = .blockedFinished first) : VoiceInv s' := by
  have hnone : s'.pc none = q := by rw [hpc, update_self]
  have hsome : ∀ t, s'.pc (some t) = s.pc (some t) := fun t => by rw [hpc, update_of_ne (by simp)]
  have hpending : s'.shared.NonePending n ↔ s.shared.NonePending n := by
    rw [Dispatch.NonePending, hworkers]; rfl
  exact {
    owned := howned
    dispatching := by rw [hnone]; exact hdispatching
    starting := by simpa only [hsome] using h.starting
    place := by simpa only [hsome, hworkers] using h.place
    unique := by simpa only [hsome] using h.unique
    fresh := by simpa only [hsome, hworkers] using h.fresh
    initial := by
      intro t ht
      rw [hsome] at ht
      refine ⟨by rw [hnone]; exact hinitial t ht, ?_⟩
      simpa only [hsome, hworkers] using (h.initial t ht).2
    quiet := by rw [hnone, hpending]; exact hquiet
    accounts := by rw [hnone]; exact haccounts
    frames := hframes
    woken := by
      intro i hi hasleep hpending
      rw [hworkers] at hasleep hpending
      exact absurd (h.woken i hi hasleep hpending) hnot
    busy := by
      rw [hnone, hpending]
      simpa only [hsome] using fun h' => h.busy (hbusy h')
    asleep := by rw [hnone]; exact hasleep }

variable {i : Nat} {w : Worker α} {p : Point}

theorem VoiceInv.exists_thread (h : VoiceInv s) (hids : ∀ t, (s.pc (some t)).id ≠ none)
    (hi : i < n) : ∃ t, (s.pc (some t)).id = some i := by
  have hall : ∀ t, ∃ j : Fin n, (s.pc (some t)).id = some j.val := by
    intro t
    obtain ⟨j, hj⟩ := ne_none_iff_exists'.mp (hids t)
    exact ⟨⟨j, (h.place t j hj).1⟩, hj⟩
  choose worker hworker using hall
  have hinj : Injective worker := fun t u htu => h.unique t u (worker t) (hworker t) (by rw [htu, hworker u])
  obtain ⟨t, ht⟩ := Finite.surjective_of_injective hinj ⟨i, hi⟩
  exact ⟨t, by rw [hworker t, ht]⟩

theorem Worker.Ready.done (h : w.Ready) (hpending : w.pending = false) : w.Done := by
  obtain ⟨htrue, -⟩ | ⟨-, hqueue, hcalls⟩ := h
  · rw [hpending] at htrue
    cases htrue
  · exact ⟨hqueue, hcalls⟩

theorem Point.Place.done (h : p.Place w) (hpending : w.pending = false) : w.Done := by
  cases p <;> try exact h.elim
  case workerTop | workerReacquire => exact h.1.done hpending
  case workerBlocked => exact Worker.Ready.done h hpending
  case workerClear => exact h.1
  case workerSignal | workerEnqueue | workerRelease => exact h.1.2
  all_goals
    have htrue := h.1.1
    rw [hpending] at htrue
    cases htrue

section

variable (h : VoiceInv s)
include h

theorem VoiceInv.done (hnone : s.shared.NonePending n) (hi : i < n) : (s.shared.workers i).Done := by
  obtain ⟨t, ht⟩ := h.exists_thread (h.id_ne_none hnone) hi
  exact (h.place t i ht).2.done (hnone i hi)

theorem VoiceInv.not_held (hheld : voiceHeld (s.pc none) () = true) (t : Fin n) :
    voiceHeld (s.pc (some t)) () = false := by
  rw [Bool.eq_false_iff]
  intro hheld'
  cases h.owned.unique hheld hheld'

theorem VoiceInv.asleep_eq_false (hrelease : ∀ b, s.pc none ≠ .releaseFinished b)
    (hblocked : ∀ b, s.pc none ≠ .blockedFinished b) : s.shared.asleep = false := by
  rw [Bool.eq_false_iff]
  intro hasleep
  obtain ⟨first, hfirst | hfirst⟩ := h.asleep hasleep
  · exact hrelease first hfirst
  · exact hblocked first hfirst

theorem VoiceInv.finish_ok (hp : s.pc none = .check false)
    (hnone : s.shared.NonePending n) : ∀ f ∈ (s.shared.finish n).frames, f.Ok := by
  intro f hf
  obtain hf | hf := mem_append.mp hf
  · exact h.frames f hf
  rw [mem_singleton] at hf
  subst hf
  have haccounts := h.accounts (by rw [hp]; rfl)
  have hcalls : ∑ i ∈ Finset.range n, ((s.shared.workers i).calls : Multiset α) = s.shared.queue := by
    rw [← haccounts.given]
    refine Finset.sum_congr rfl fun i hi => ?_
    rw [(h.done hnone (Finset.mem_range.mp hi)).calls]
  exact ⟨hcalls, haccounts.mixbins fun i hi => (h.done hnone hi).queue⟩

theorem VoiceInv.of_workers (howned : Owned voiceHeld s')
    (hpc : s'.pc = update s.pc none q) (hinitial : (s.pc none).initial = false)
    (hdispatching : q.dispatching = true)
    (hplace : ∀ t i, (s.pc (some t)).id = some i → (s.pc (some t)).Place (s'.shared.workers i))
    (hquiet : q.awaiting s'.shared.asleep = true) (haccounts : s'.shared.Accounts n)
    (hframes : s'.shared.frames = s.shared.frames)
    (hwoken : ∀ i < n, (s'.shared.workers i).asleep = true → (s'.shared.workers i).pending = true → q = .broadcast)
    (hbusy : ¬s'.shared.NonePending n ∨ ∃ t i, s.pc (some t) = .workerSignal i)
    (hasleep : s'.shared.asleep = false) : VoiceInv s' := by
  have hnone : s'.pc none = q := by rw [hpc, update_self]
  have hsome : ∀ t, s'.pc (some t) = s.pc (some t) := fun t => by rw [hpc, update_of_ne (by simp)]
  have hid : ∀ t, (s.pc (some t)).id ≠ none := by
    intro t ht
    rw [(h.initial t ht).1] at hinitial
    cases hinitial
  exact {
    owned := howned
    dispatching := by rw [hnone]; exact hdispatching
    starting := fun t ht => absurd (hsome t ▸ ht) (hid t)
    place := by
      intro t i hi
      rw [hsome] at hi ⊢
      exact ⟨(h.place t i hi).1, hplace t i hi⟩
    unique := by simpa only [hsome] using h.unique
    fresh := by
      intro i hi hunassigned
      obtain ⟨t, ht⟩ := h.exists_thread hid hi
      exact absurd (by rw [hsome, ht]) (hunassigned t)
    initial := fun t ht => absurd (hsome t ▸ ht) (hid t)
    quiet := by
      rw [hnone, hquiet]
      intro hfalse
      cases hfalse
    accounts := fun _ => haccounts
    frames := by rw [hframes]; exact h.frames
    woken := by rw [hnone]; exact hwoken
    busy := by simpa only [hsome] using fun _ => hbusy
    asleep := by
      rw [hasleep]
      intro hfalse
      cases hfalse }

end

theorem Point.Place.waiting (h : p.Place w) (hpending : w.pending = false) (hheld : voiceHeld p () = false) :
    (∃ i, p = .workerBlocked i) ∨ ∃ i, p = .workerReacquire i ∧ w.asleep = false := by
  cases p <;> try exact h.elim
  case workerBlocked i => exact .inl ⟨i, rfl⟩
  case workerReacquire i => exact .inr ⟨i, rfl, h.2⟩
  case workerClearBins | workerProcess | workerRelock =>
    have htrue := h.1.1
    rw [hpending] at htrue
    cases htrue
  all_goals cases hheld

theorem Point.Place.awake (h : p.Place w) (hheld : voiceHeld p () = false) : p.Place { w with asleep := false } := by
  cases p <;> try exact h.elim
  case workerBlocked => exact h
  case workerClearBins | workerProcess | workerRelock | workerReacquire => exact ⟨h.1, rfl⟩
  all_goals cases hheld

theorem Given.ready {queue : List α} {before after : Nat → Worker α} {g : Nat → List α}
    (h : Given n queue (fun i => (before i).forget) after g)
    (hpending : (before i).pending = false) (hqueue : (before i).queue = []) : (after i).Ready := by
  rw [h.worker i]
  cases hg : g i with
  | nil => exact .inr ⟨by simp [Worker.forget, hpending], by simp [Worker.forget, hqueue], rfl⟩
  | cons v vs => exact .inl ⟨by simp, by simp [Worker.forget, hqueue], rfl⟩

section

variable (h : VoiceInv s)
include h

theorem VoiceInv.schedule_step (hn : 0 < n) (hp : s.pc none = .schedule)
    (hqueue : s.shared.queue ≠ []) {x' : Dispatch α}
    (hschedule : schedule n (C.bins c) s.shared = some x')
    (howned : Owned voiceHeld { s with shared := x', pc := update s.pc none .broadcast }) :
    VoiceInv { s with shared := x', pc := update s.pc none .broadcast } := by
  have hnone := h.quiet (by rw [hp]; rfl)
  have hinitial : (s.pc none).initial = false := by rw [hp]; rfl
  obtain ⟨workers, hworkers, rfl⟩ := map_eq_some_iff.mp hschedule
  obtain ⟨g, hgiven⟩ := scheduleFrom_given hn hworkers
  have hdone : ∀ i < n, (s.shared.workers i).Done := fun i hi => h.done hnone hi
  refine h.of_workers howned rfl hinitial rfl (fun t i hi => ?_) rfl ⟨?_, ?_⟩ rfl
    (fun _ _ _ _ => rfl) (.inl fun hnone' => hqueue ?_) ?_
  · -- the worker does not hold the lock, so it waits
    obtain ⟨hlt, hplace⟩ := h.place t i hi
    have hheld := h.not_held (by rw [hp]; rfl) t
    have hready := hgiven.ready (hnone i hlt) (hdone i hlt).queue
    obtain ⟨j, hj⟩ | ⟨j, hj, hasleep⟩ := hplace.waiting (hnone i hlt) hheld
    · rw [hj]
      exact hready
    · rw [hj]
      refine ⟨hready, ?_⟩
      dsimp only
      rw [hgiven.worker i]
      exact hasleep
  · rw [← hgiven.sum]
    refine Finset.sum_congr rfl fun i _ => ?_
    dsimp only
    rw [hgiven.worker i]
    rfl
  · rw [← hgiven.sum, Multiset.coe_nil, zero_add]
    refine Finset.sum_congr rfl fun i hi => ?_
    dsimp only
    rw [hgiven.worker i]
    simp [Worker.forget, (hdone i (Finset.mem_range.mp hi)).queue]
  · rw [← Multiset.coe_eq_zero, ← hgiven.sum]
    refine Finset.sum_eq_zero fun i hi => ?_
    have hpending := hnone' i (Finset.mem_range.mp hi)
    dsimp only at hpending
    rw [hgiven.worker i] at hpending
    simpa using (Bool.or_eq_false_iff.mp hpending).2
  · exact h.asleep_eq_false (by simp [hp]) (by simp [hp])

theorem VoiceInv.broadcast_step (hp : s.pc none = .broadcast) (hs' : s' = { s with
      shared := { s.shared with workers := fun i => { s.shared.workers i with asleep := false } }
      pc := update s.pc none (.enqueueFinished false) })
    (howned : Owned voiceHeld s') : VoiceInv s' := by
  subst hs'
  obtain ⟨hgiven, hleft⟩ := h.accounts (by rw [hp]; rfl)
  refine h.of_workers howned rfl (by rw [hp]; rfl) rfl (fun t i hi => ?_) rfl ⟨hgiven, hleft⟩ rfl
    (fun i hi hfalse => nomatch hfalse) (h.busy (.inr (by rw [hp]; rfl))) ?_
  · have hplace := (h.place t i hi).2
    have hheld := h.not_held (by rw [hp]; rfl) t
    exact hplace.awake hheld
  · exact h.asleep_eq_false (by simp [hp]) (by simp [hp])

theorem VoiceInv.of_quiet (hquiet : (s.pc none).awaiting s.shared.asleep = false)
    (howned : Owned voiceHeld s') (hpc : s'.pc = update s.pc none q)
    (hworkers : s'.shared.workers = s.shared.workers)
    (hasleep : s'.shared.asleep = s.shared.asleep)
    (hnext : q.dispatching = true ∧ q.awaiting false = false)
    (haccounts : q.inFrame = true → s'.shared.Accounts n)
    (hframes : ∀ f ∈ s'.shared.frames, f.Ok) : VoiceInv s' := by
  have hnone := h.quiet hquiet
  have hawake : s'.shared.asleep = false := by
    rw [hasleep, Bool.eq_false_iff]
    intro htrue
    obtain ⟨first, hfirst | hfirst⟩ := h.asleep htrue <;> rw [hfirst, htrue] at hquiet <;> cases hquiet
  refine h.of_dispatching howned hpc hworkers (fun hp => ?_) hnext.1
    (fun t ht => absurd ht (h.id_ne_none hnone t)) (fun _ => hnone) haccounts hframes ?_ ?_
  · rw [hp] at hquiet
    cases hquiet
  · rw [hawake, hnext.2]
    intro hfalse
    simp at hfalse
  · rw [hawake]
    intro hfalse
    cases hfalse

theorem VoiceInv.drop_ok (hnone : s.shared.NonePending n) : ∀ f ∈ (s.shared.drop n).frames, f.Ok := by
  intro f hf
  obtain hf | hf := mem_append.mp hf
  · exact h.frames f hf
  · rw [mem_singleton] at hf
    subst hf
    refine ⟨?_, rfl⟩
    change ∑ i ∈ Finset.range n, ((s.shared.workers i).queue : Multiset α) = 0
    refine Finset.sum_eq_zero fun i hi => ?_
    rw [(h.done hnone (Finset.mem_range.mp hi)).queue, Multiset.coe_nil]

theorem VoiceInv.dispatching_step (hn : 0 < n) (hmoves : Moves (voiceCode n C) s ⟨none, c⟩ s') : VoiceInv s' := by
  have howned := hmoves.owned (voiceLocks C) h.owned
  have hdispatching := h.dispatching
  cases hmoves with
  | @lock l next hcode hfree =>
    cases hp : s.pc none <;> rw [hp] at hcode hdispatching <;> cases hdispatching <;> cases hcode
    case reacquireFinished.refl.refl first =>
      refine h.of_quiet (hp ▸ rfl) howned rfl rfl rfl ⟨rfl, rfl⟩ (fun hframe => ?_) h.frames
      exact h.accounts (by rw [hp]; cases first <;> first | rfl | cases hframe)
    case lock.refl.refl =>
      exact h.of_quiet (hp ▸ rfl) howned rfl rfl rfl ⟨rfl, rfl⟩ nofun h.frames
  | @unlock l next hcode =>
    cases hp : s.pc none <;> rw [hp] at hcode hdispatching <;> cases hdispatching <;> cases hcode
    case releaseFinished.refl.refl first =>
      refine h.of_dispatching howned rfl rfl (by simp [hp]) rfl (fun t ht => ?_) (fun hquiet => ?_)
        (fun hframe => ?_) h.frames (fun hbusy => ?_) fun _ => ⟨first, .inr rfl⟩
      · have hinitial := (h.initial t ht).1
        rw [hp] at hinitial
        cases first
        · cases hinitial
        · rfl
      · exact h.quiet (by rw [hp]; exact hquiet)
      · exact h.accounts (by rw [hp]; cases first <;> first | rfl | cases hframe)
      · exact hbusy.imp_right nofun
    case unlock.refl.refl =>
      exact h.of_quiet (hp ▸ rfl) howned rfl rfl rfl ⟨rfl, rfl⟩ nofun h.frames
  | @act f shared next hcode hact =>
    cases hp : s.pc none <;> rw [hp] at hcode hdispatching <;> cases hdispatching <;> cases hcode
    case enqueueFinished.refl.refl first =>
      cases hact
      refine h.of_dispatching howned rfl rfl (by simp [hp]) rfl (fun t ht => ?_)
        nofun (fun hframe => ?_) h.frames (fun _ => .inr (by rw [hp]; rfl))
        fun _ => ⟨first, .inl rfl⟩
      · have hinitial := (h.initial t ht).1
        rw [hp] at hinitial
        cases first
        · cases hinitial
        · rfl
      · obtain ⟨hgiven, hleft⟩ := h.accounts (by
          rw [hp]; cases first <;> first | rfl | cases hframe)
        exact ⟨hgiven, hleft⟩
    case blockedFinished.refl.refl first =>
      obtain ⟨hasleep, ⟨⟩⟩ := ite_none_left_eq_some.mp hact
      rw [Bool.not_eq_true] at hasleep
      refine h.of_quiet (hp ▸ hasleep) howned rfl rfl rfl ⟨rfl, rfl⟩ (fun hframe => ?_) h.frames
      exact h.accounts (by rw [hp]; cases first <;> first | rfl | cases hframe)
    case check.refl.refl first =>
      have hnone := h.quiet (by rw [hp]; rfl)
      dsimp only at hact
      rw [if_pos hnone] at hact
      cases hact
      cases first
      · exact h.of_quiet (hp ▸ rfl) howned rfl rfl rfl ⟨rfl, rfl⟩ nofun (h.finish_ok hp hnone)
      · exact h.of_quiet (hp ▸ rfl) howned rfl rfl rfl ⟨rfl, rfl⟩ nofun h.frames
    case idle.refl.refl =>
      cases hact
      exact h.of_quiet (hp ▸ rfl) howned rfl rfl rfl ⟨rfl, rfl⟩ nofun h.frames
    case loop.refl.refl =>
      have heq := some.inj hact
      split at heq
      · cases heq
        exact h.of_quiet (hp ▸ rfl) howned rfl rfl rfl ⟨rfl, rfl⟩ nofun (h.drop_ok (h.quiet (hp ▸ rfl)))
      split at heq <;> cases heq <;> exact h.of_quiet (hp ▸ rfl) howned rfl rfl rfl ⟨rfl, rfl⟩ nofun h.frames
    case schedule.refl.refl =>
      dsimp only at hact
      split at hact
      · cases hact
        exact h.of_quiet (hp ▸ rfl) howned rfl rfl rfl ⟨rfl, rfl⟩ nofun h.frames
      · next hqueue =>
        obtain ⟨y, hschedule, ⟨⟩⟩ := map_eq_some_iff.mp hact
        exact h.schedule_step hn hp hqueue hschedule howned
    case broadcast.refl.refl =>
      cases hact
      exact h.broadcast_step hp rfl howned

end

end Dispatching

theorem VoiceInv.init (hn : 0 < n) : VoiceInv (voiceStart n : VoiceThreads α n) where
  owned l t := by cases t <;> simp [voiceStart, voiceHeld]
  dispatching := rfl
  starting _ _ := rfl
  place _ _ hi := nomatch hi
  unique _ _ _ hi := nomatch hi
  fresh i hi _ := ⟨decide_eq_true hi, rfl, rfl, rfl, rfl⟩
  initial _ _ := ⟨rfl, nofun⟩
  quiet hquiet := nomatch hquiet
  accounts hframe := nomatch hframe
  frames _ hf := nomatch hf
  woken _ _ hasleep := nomatch hasleep
  busy _ := by
    refine .inl fun hnone => ?_
    have hpending := hnone 0 hn
    rw [show ((voiceStart n : VoiceThreads α n).shared.workers 0).pending = true from decide_eq_true hn] at hpending
    cases hpending
  asleep hasleep := nomatch hasleep

variable {C : Choices α} {s s' : VoiceThreads α n}

theorem VoiceInv.step {e : Turn (Option (Fin n))} (h : VoiceInv s) (hn : 0 < n)
    (hstep : Threads.step (voiceCode n C) s e = some s') : VoiceInv s' := by
  have hmoves := step_moves hstep
  obtain ⟨_ | t, c⟩ := e
  · exact h.dispatching_step hn hmoves
  · cases hid : (s.pc (some t)).id with
    | none => exact h.start_step hid hmoves
    | some i => exact h.worker_step hid hmoves

theorem VoiceInv.run {events : List (Turn (Option (Fin n)))} (h : VoiceInv s) (hn : 0 < n)
    (hrun : Lib.run (Threads.step (voiceCode n C)) s events = some s') : VoiceInv s' :=
  run_invariant VoiceInv (fun _ _ _ h hstep => h.step hn hstep) h hrun

end XogMobile.Apu
