import XogMobile.Nv2a.Vk.Downloads

/-!
# Every download is done

A call that waits has left `downloads_pending` set or a scan under way, so the PFIFO thread is not asleep
for good, and before it has passed the head of its loop twice it sets the event.
-/

namespace XogMobile.Nv2a.Vk.Downloads

open Lib Function Option Bool Prod

/-- The call has reset the event and not yet set `downloads_pending`. -/
def requesting : Pc → Bool
  | .mark _ | .request _ => true
  | _ => false

/-- The PFIFO thread has looked at `downloads_pending` for the last time in this round. -/
def lookedAt : Pc → Bool
  | .scan force _ | .download force _ _ | .clearPending force _ _ | .clearDirty force _ _ => force
  | .setComplete | .pendingDirty | .clearDirtyDownloads | .unlockPgraph | .relock | .pusher
  | .drawUnlock _ | .drawLock _ | .draw _ | .drawUnlockPgraph | .kickCheck => true
  | _ => false

def sleepsSince : Pc → Option Nat
  | .sleep seen | .asleep seen => some seen
  | _ => none

/-- A request is not slept through. -/
structure Awake (pf : Pc) (x : Shared) : Prop where
  kick : lookedAt pf = true → x.fifoKick = true
  sleep : ∀ n, sleepsSince pf = some n → n < x.fifoCond

def entering : Pc → Bool
  | .pendingCheck | .unlock | .lockPgraph | .pendingDownloads => true
  | _ => false

def Committed (pf : Pc) (x : Shared) : Prop :=
  (remaining pf).isSome = true ∨ entering pf = true ∧ x.r.downloadsPending = true

section Acts

variable {pf pf' p next : Pc} {x x' : Shared} {c : Nat} {f : Nat → Shared → Option (Shared × Pc)}

theorem Awake.goto (h : Awake pf x) (hlooked : lookedAt pf' = lookedAt pf)
    (hsleep : sleepsSince pf' = sleepsSince pf) (hkick : x'.fifoKick = x.fifoKick)
    (hcond : x'.fifoCond = x.fifoCond) : Awake pf' x' :=
  ⟨fun hp => hkick.trans (h.kick (hlooked ▸ hp)), fun n hn => hcond ▸ h.sleep n (hsleep ▸ hn)⟩

theorem Awake.of_not_lookedAt (hlooked : lookedAt pf = false) (hsleep : sleepsSince pf = none) : Awake pf x :=
  ⟨fun h => absurd (hlooked.symm.trans h) false_ne_true, fun _ h => nomatch hsleep.symm.trans h⟩

theorem fifo_awake (h : code pf = .act f) (hact : f c x = some (x', pf')) (hfifo : fifoPc pf = true)
    (hpending : x'.r.downloadsPending = true)
    (hawake : x.r.downloadsPending = true → Awake pf x) : Awake pf' x' := by
  cases pf <;> cases h
  case pendingCheck | pendingDownloads =>
    obtain ⟨rfl, rfl⟩ := mk.inj (some.inj hact)
    simp only [hpending, if_true]
    exact .of_not_lookedAt rfl rfl
  case scan force todo =>
    obtain ⟨rfl, rfl⟩ := mk.inj (some.inj hact)
    obtain ⟨rfl, heq⟩ | ⟨q, rest, rfl, ⟨heq, -⟩ | ⟨heq, -⟩⟩ := scanNext_cases x force todo <;> rw [heq] <;> cases force
    all_goals exact (hawake hpending).goto rfl rfl rfl rfl
  case clearDownloads =>
    cases hact
    cases hpending
  case pendingDirty | pusher =>
    obtain ⟨rfl, rfl⟩ := mk.inj (some.inj hact)
    split <;> exact (hawake hpending).goto rfl rfl rfl rfl
  case kickCheck =>
    obtain ⟨rfl, rfl⟩ := mk.inj (some.inj hact)
    rw [(hawake hpending).kick rfl]
    exact .of_not_lookedAt rfl rfl
  case asleep =>
    dsimp only at hact
    split at hact <;> cases hact
    exact .of_not_lookedAt rfl rfl
  case top =>
    cases hact
    exact .of_not_lookedAt rfl rfl
  case download | clearPending | clearDirty | setComplete | clearDirtyDownloads | draw =>
    cases hact
    exact (hawake hpending).goto rfl rfl rfl rfl
  all_goals cases hfifo

/-- A pass over the surfaces is requested or under way. -/
def Due (pf : Pc) (x : Shared) : Prop := x.r.downloadsPending = true ∨ (remaining pf).isSome = true

theorem due_of_neither (hremaining : remaining pf = none) (hentering : entering pf = false)
    (hpending : x'.r.downloadsPending = x.r.downloadsPending) :
    (Due pf x → Due pf' x') ∧ (Committed pf x → Committed pf' x') := by
  refine ⟨fun h => .inl ?_, fun h => ?_⟩
  · rw [hpending]
    exact h.resolve_right (by rw [hremaining]; exact false_ne_true)
  · rw [Committed, hremaining, hentering] at h
    obtain h | ⟨h, -⟩ := h <;> cases h

theorem fifo_due (h : code pf = .act f) (hact : f c x = some (x', pf')) (hfifo : fifoPc pf = true)
    (hcomplete : x'.downloadsComplete = false) :
    (Due pf x → Due pf' x') ∧ (Committed pf x → Committed pf' x') := by
  cases pf <;> cases h
  case pendingCheck | pendingDownloads =>
    obtain ⟨rfl, rfl⟩ := mk.inj (some.inj hact)
    refine ⟨fun h => .inl (h.resolve_right false_ne_true), fun h => ?_⟩
    obtain h | ⟨-, hpending⟩ := h
    · cases h
    · simp only [hpending, if_true]
      first | exact .inl rfl | exact .inr ⟨rfl, hpending⟩
  case scan force todo =>
    obtain ⟨rfl, rfl⟩ := mk.inj (some.inj hact)
    obtain ⟨rfl, heq⟩ | ⟨q, rest, rfl, ⟨heq, -⟩ | ⟨heq, -⟩⟩ := scanNext_cases x force todo <;> rw [heq] <;> cases force
    all_goals first
      | exact ⟨fun _ => .inr rfl, fun _ => .inl rfl⟩
      | exact due_of_neither rfl rfl rfl
  case download force q todo | clearPending force q todo | clearDirty force q todo =>
    cases hact
    cases force
    · exact ⟨fun _ => .inr rfl, fun _ => .inl rfl⟩
    · exact due_of_neither rfl rfl rfl
  case clearDownloads =>
    cases hact
    exact ⟨fun _ => .inr rfl, fun _ => .inl rfl⟩
  case setComplete =>
    cases hact
    cases hcomplete
  case asleep =>
    dsimp only at hact
    split at hact <;> cases hact
    exact due_of_neither rfl rfl rfl
  case top | clearDirtyDownloads | draw | pendingDirty | pusher | kickCheck =>
    cases hact
    exact due_of_neither rfl rfl rfl
  all_goals cases hfifo

structure CallMoves (p : Pc) (x : Shared) (next : Pc) (x' : Shared) : Prop where
  pending : x.r.downloadsPending = true → x'.r.downloadsPending = true
  asks : x'.r.downloadsPending = true → x.r.downloadsPending = true ∨ ∃ seen, next = .kick seen
  resets : x'.downloadsComplete = false → x.downloadsComplete = false ∨ requesting next = true
  awaits : awaits next = true → awaits p = true ∨ requesting next = true
  stays : Downloads.awaits p = true → x.downloadsComplete = false → Downloads.awaits next = true
  requests : requesting p = true → requesting next = true ∨ x'.r.downloadsPending = true
  kicks : (∃ seen, p = .kick seen) → x'.fifoKick = true ∧ x.fifoCond < x'.fifoCond
  kick : x.fifoKick = true → x'.fifoKick = true
  cond : x.fifoCond ≤ x'.fifoCond

theorem CallMoves.plain (hp : Downloads.awaits p = false) (hnext : Downloads.awaits next = false)
    (hpending : x'.r.downloadsPending = x.r.downloadsPending)
    (hcomplete : x'.downloadsComplete = x.downloadsComplete) (hkick : x'.fifoKick = x.fifoKick)
    (hcond : x'.fifoCond = x.fifoCond) : CallMoves p x next x' where
  pending h := hpending.trans h
  asks h := .inl (hpending.symm.trans h)
  resets h := .inl (hcomplete.symm.trans h)
  awaits h := nomatch hnext.symm.trans h
  stays h := nomatch hp.symm.trans h
  requests h := by cases p <;> first | cases hp; done | cases h
  kicks := by
    rintro ⟨seen, rfl⟩
    cases hp
  kick h := hkick.trans h
  cond := hcond.ge

theorem call_lock_moves {l : Lock} (h : code p = .lock l next) (hcall : fifoPc p = false) : CallMoves p x next x := by
  cases p <;> cases h <;> first
    | cases hcall; done
    | exact .plain rfl rfl rfl rfl rfl rfl

theorem call_unlock_moves {l : Lock} (h : code p = .unlock l next) (hcall : fifoPc p = false) :
    CallMoves p x next x := by
  cases p <;> cases h
  case accessUnlock seen =>
    cases seen <;> exact .plain rfl rfl rfl rfl rfl rfl
  case unlockFifo seen =>
    exact ⟨id, .inl, .inl, fun _ => .inl rfl, fun _ _ => rfl, nofun, nofun, id, le_rfl⟩
  all_goals cases hcall

theorem call_act_moves (h : code p = .act f) (hact : f c x = some (x', next))
    (hcall : fifoPc p = false) : CallMoves p x next x' := by
  cases p <;> cases h
  case free =>
    have hnext : x.call c = (x', next) := some.inj hact
    rw [Shared.call] at hnext
    split at hnext
    · cases hnext
      exact .plain rfl rfl rfl rfl rfl rfl
    · split at hnext <;> cases hnext <;> exact .plain rfl rfl rfl rfl rfl rfl
  case displayRead =>
    dsimp only at hact
    split at hact <;> cases hact
    split <;> exact .plain rfl rfl rfl rfl rfl rfl
  case wait =>
    dsimp only at hact
    split at hact <;> cases hact
    next hcomplete =>
    exact ⟨id, .inl, .inl, by rintro ⟨⟩, fun _ h => absurd (h.symm.trans hcomplete) false_ne_true,
      by rintro ⟨⟩, by rintro ⟨_, ⟨⟩⟩, id, le_rfl⟩
  case displayReset | accessReset =>
    cases hact
    exact ⟨id, .inl, fun _ => .inr rfl, fun _ => .inr rfl, by rintro ⟨⟩, by rintro ⟨⟩, by rintro ⟨_, ⟨⟩⟩, id, le_rfl⟩
  case mark =>
    cases hact
    exact ⟨id, .inl, .inl, fun _ => .inl rfl, fun _ _ => rfl, fun _ => .inl rfl, by rintro ⟨_, ⟨⟩⟩, id, le_rfl⟩
  case access addr len write todo seen =>
    have hnext : x.accessNext addr len write seen todo = (x', next) := some.inj hact
    cases todo with
    | nil =>
      cases hnext
      exact .plain rfl rfl rfl rfl rfl rfl
    | cons q rest =>
      rw [Shared.accessNext] at hnext
      split at hnext <;> cases hnext <;> exact .plain rfl rfl rfl rfl rfl rfl
  case request seen =>
    cases hact
    exact ⟨fun _ => rfl, fun _ => .inr ⟨seen, rfl⟩, .inl, fun _ => .inl rfl, fun _ _ => rfl,
      fun _ => .inr rfl, by rintro ⟨_, ⟨⟩⟩, id, le_rfl⟩
  case kick =>
    cases hact
    exact ⟨id, .inl, .inl, fun _ => .inl rfl, fun _ _ => rfl, by rintro ⟨⟩,
      fun _ => ⟨rfl, Nat.lt_succ_self _⟩, fun _ => rfl, Nat.le_succ _⟩
  case accessStart | returned =>
    cases hact
    exact .plain rfl rfl rfl rfl rfl rfl
  all_goals cases hcall

end Acts

variable {ι : Type} [DecidableEq ι] {s s' : State ι} {e : Turn (Thread ι)}

structure FifoMoves (pf : Pc) (x : Shared) (pf' : Pc) (x' : Shared) : Prop where
  due : x'.downloadsComplete = false → Due pf x → Due pf' x'
  committed : x'.downloadsComplete = false → Committed pf x → Committed pf' x'
  awake : x'.r.downloadsPending = true → (x.r.downloadsPending = true → Awake pf x) → Awake pf' x'
  sleep : (∀ n, sleepsSince pf = some n → n ≤ x.fifoCond) →
    ∀ n, sleepsSince pf' = some n → n ≤ x'.fifoCond
  complete : x.downloadsComplete = true → x'.downloadsComplete = true

variable {pf pf' : Pc} {x : Shared} {j i : ι} {es : List (Turn (Thread ι))}

theorem FifoMoves.of_goes (hremaining : remaining pf = none)
    (hentering : entering pf = true → entering pf' = true) (hlooked : lookedAt pf' = lookedAt pf)
    (hsleep : sleepsSince pf' = sleepsSince pf) : FifoMoves pf x pf' x where
  due _ h := .inl (h.resolve_right (by rw [hremaining]; exact false_ne_true))
  committed _ h := by
    obtain h | ⟨h, hpending⟩ := h
    · rw [hremaining] at h
      cases h
    · exact .inr ⟨hentering h, hpending⟩
  awake hpending h := (h hpending).goto hlooked hsleep rfl rfl
  sleep h n hn := h n (hsleep ▸ hn)
  complete h := h

theorem fifo_act_sleep {x' : Shared} {c : Nat} {f : Nat → Shared → Option (Shared × Pc)}
    (h : code pf = .act f) (hact : f c x = some (x', pf')) (hfifo : fifoPc pf = true) :
    (∀ n, sleepsSince pf' = some n → n ≤ x'.fifoCond) ∧ (x.downloadsComplete = true → x'.downloadsComplete = true) := by
  cases pf <;> cases h
  case scan force todo =>
    obtain ⟨rfl, rfl⟩ := mk.inj (some.inj hact)
    refine ⟨fun n hn => ?_, id⟩
    obtain ⟨rfl, heq⟩ | ⟨q, rest, rfl, ⟨heq, -⟩ | ⟨heq, -⟩⟩ := scanNext_cases x force todo <;>
      rw [heq] at hn <;> cases force <;> cases hn
  case kickCheck =>
    obtain ⟨rfl, rfl⟩ := mk.inj (some.inj hact)
    refine ⟨fun n hn => ?_, id⟩
    split at hn <;> cases hn
    exact le_rfl
  case pendingCheck | pendingDownloads | pendingDirty | pusher =>
    obtain ⟨rfl, rfl⟩ := mk.inj (some.inj hact)
    refine ⟨fun n hn => ?_, id⟩
    split at hn <;> cases hn
  case asleep =>
    dsimp only at hact
    split at hact <;> cases hact
    exact ⟨nofun, id⟩
  case setComplete =>
    cases hact
    exact ⟨nofun, fun _ => rfl⟩
  case top | download | clearPending | clearDirty | clearDownloads | clearDirtyDownloads | draw =>
    cases hact
    exact ⟨nofun, id⟩
  all_goals cases hfifo

theorem fifo_lock_moves {l : Lock} (h : code pf = .lock l pf') (hfifo : fifoPc pf = true) : FifoMoves pf x pf' x := by
  cases pf <;> cases h <;> first
    | cases hfifo; done
    | exact .of_goes rfl (fun _ => rfl) rfl rfl
    | exact .of_goes rfl nofun rfl rfl

theorem fifo_unlock_moves {l : Lock} (h : code pf = .unlock l pf') (hfifo : fifoPc pf = true) :
    FifoMoves pf x pf' x := by
  cases pf <;> cases h <;> first
    | cases hfifo; done
    | exact .of_goes rfl (fun _ => rfl) rfl rfl
    | exact .of_goes rfl nofun rfl rfl

theorem fifo_moves (hfifo : fifoPc (s.pc .pfifo) = true) (hmoves : Threads.Moves code s e s')
    (hthread : e.thread = .pfifo) :
    FifoMoves (s.pc .pfifo) s.shared (s'.pc .pfifo) s'.shared := by
  cases hmoves <;> dsimp only <;> rw [hthread]
  case lock hcode hfree => exact fifo_lock_moves (hthread ▸ hcode) hfifo
  case unlock hcode => exact fifo_unlock_moves (hthread ▸ hcode) hfifo
  case act hcode hact =>
    rw [hthread] at hcode
    have hsleep := fifo_act_sleep hcode hact hfifo
    exact ⟨fun h => (fifo_due hcode hact hfifo h).1, fun h => (fifo_due hcode hact hfifo h).2,
      fifo_awake hcode hact hfifo, fun _ => hsleep.1, hsleep.2⟩

theorem call_moves (hcall : fifoPc (s.pc (.other j)) = false) (hmoves : Threads.Moves code s e s')
    (hthread : e.thread = .other j) :
    CallMoves (s.pc (.other j)) s.shared (s'.pc (.other j)) s'.shared := by
  cases hmoves <;> dsimp only <;> rw [hthread, update_self]
  case lock hcode hfree => exact call_lock_moves (hthread ▸ hcode) hcall
  case unlock hcode => exact call_unlock_moves (hthread ▸ hcode) hcall
  case act hcode hact => exact call_act_moves (hthread ▸ hcode) hact hcall

/-- Where a thread waits, a pass is due and the FIFO thread awake for it. -/
structure Live (s : State ι) : Prop extends Placed s where
  due : ∀ i, awaits (s.pc (.other i)) = true → s.shared.downloadsComplete = false →
    Due (s.pc .pfifo) s.shared ∨ ∃ j, requesting (s.pc (.other j)) = true
  awake : s.shared.r.downloadsPending = true →
    Awake (s.pc .pfifo) s.shared ∨ ∃ j seen, s.pc (.other j) = .kick seen
  sleep : ∀ n, sleepsSince (s.pc .pfifo) = some n → n ≤ s.shared.fifoCond

omit [DecidableEq ι] in
theorem init_live (r : VkState Store) : Live (State.init r : State ι) where
  toPlaced := init_placed r
  due _ := nofun
  awake _ := .inl (.of_not_lookedAt rfl rfl)
  sleep := nofun

theorem fifo_live (hlive : Live s) (hstep : Threads.step code s e = some s')
    (hthread : e.thread = .pfifo) : Live s' := by
  have hmoves := Threads.step_moves hstep
  have hfifo := fifo_moves hlive.fifo hmoves hthread
  have hpc : ∀ i, s'.pc (.other i) = s.pc (.other i) := fun i => hmoves.pc_of_ne (hthread ▸ nofun)
  refine ⟨step_placed hlive.toPlaced hstep, fun i hi hcomplete => ?_, fun hpending => ?_, hfifo.sleep hlive.sleep⟩
  · have hbefore : s.shared.downloadsComplete = false := by
      rw [eq_false_iff]
      intro h
      exact nomatch hcomplete.symm.trans (hfifo.complete h)
    obtain hdue | ⟨j, hj⟩ := hlive.due i (hpc i ▸ hi) hbefore
    · exact .inl (hfifo.due hcomplete hdue)
    · exact .inr ⟨j, (hpc j).symm ▸ hj⟩
  · by_cases hkick : ∃ j seen, s.pc (.other j) = .kick seen
    · obtain ⟨j, seen, hj⟩ := hkick
      exact .inr ⟨j, seen, (hpc j).trans hj⟩
    · exact .inl (hfifo.awake hpending fun h => (hlive.awake h).resolve_right hkick)

theorem call_live (hlive : Live s) (hstep : Threads.step code s e = some s')
    (hthread : e.thread = .other j) : Live s' := by
  have hmoves := Threads.step_moves hstep
  have hcall := call_moves (hlive.call j) hmoves hthread
  have hpf : s'.pc .pfifo = s.pc .pfifo := hmoves.pc_of_ne (hthread ▸ nofun)
  have hpc : ∀ i, i ≠ j → s'.pc (.other i) = s.pc (.other i) := fun i hi =>
    hmoves.pc_of_ne (by rw [hthread]; exact fun h => hi (Thread.other.inj h))
  -- A call that asked for a scan goes on asking, or the flag is set.
  have hdue : Due (s.pc .pfifo) s.shared ∨ (∃ i, requesting (s.pc (.other i)) = true) →
      Due (s.pc .pfifo) s'.shared ∨ ∃ i, requesting (s'.pc (.other i)) = true := by
    rintro ((hpending | hscan) | ⟨i, hi⟩)
    · exact .inl (.inl (hcall.pending hpending))
    · exact .inl (.inr hscan)
    · by_cases hij : i = j
      · subst hij
        exact (hcall.requests hi).elim (fun h => .inr ⟨i, h⟩) fun h => .inl (.inl h)
      · exact .inr ⟨i, (hpc i hij).symm ▸ hi⟩
  refine ⟨step_placed hlive.toPlaced hstep, fun i hi hcomplete => ?_, fun hpending => ?_, fun n hn => ?_⟩
  · rw [hpf]
    obtain hbefore | hrequest := hcall.resets hcomplete
    · by_cases hij : i = j
      · subst hij
        obtain hawaits | hrequest := hcall.awaits hi
        · exact hdue (hlive.due i hawaits hbefore)
        · exact .inr ⟨i, hrequest⟩
      · exact hdue (hlive.due i (hpc i hij ▸ hi) hbefore)
    · exact .inr ⟨j, hrequest⟩
  · rw [hpf]
    obtain hbefore | ⟨seen, hkick⟩ := hcall.asks hpending
    · obtain hawake | ⟨i, seen, hi⟩ := hlive.awake hbefore
      · exact .inl ⟨fun h => hcall.kick (hawake.kick h), fun n hn => (hawake.sleep n hn).trans_le hcall.cond⟩
      · by_cases hij : i = j
        · subst hij
          obtain ⟨hkick, hcond⟩ := hcall.kicks ⟨seen, hi⟩
          exact .inl ⟨fun _ => hkick, fun n hn => (hlive.sleep n hn).trans_lt hcond⟩
        · exact .inr ⟨i, seen, (hpc i hij).trans hi⟩
    · exact .inr ⟨j, seen, hkick⟩
  · rw [hpf] at hn
    exact (hlive.sleep n hn).trans hcall.cond

theorem step_live (hlive : Live s) (hstep : Threads.step code s e = some s') : Live s' := by
  cases hthread : e.thread with
  | pfifo => exact fifo_live hlive hstep hthread
  | other j => exact call_live hlive hstep hthread

def passes : State ι → List (Turn (Thread ι)) → Nat
  | _, [] => 0
  | s, e :: es =>
    (if e.thread = .pfifo ∧ s.pc .pfifo = .top then 1 else 0) +
      match Threads.step code s e with
      | some s' => passes s' es
      | none => 0

theorem held_of_requesting {p : Pc} (h : requesting p = true) : held p .pfifo = true := by
  cases p <;> first | rfl | cases h

theorem not_committed_top : ¬ Committed .top x := by
  rintro (h | ⟨h, -⟩) <;> cases h

theorem step_committed (hlive : Live s) (hstep : Threads.step code s e = some s')
    (hcomplete : s'.shared.downloadsComplete = false) (h : Committed (s.pc .pfifo) s.shared) :
    Committed (s'.pc .pfifo) s'.shared := by
  have hmoves := Threads.step_moves hstep
  cases hthread : e.thread with
  | pfifo => exact (fifo_moves hlive.fifo hmoves hthread).committed hcomplete h
  | other j =>
    rw [hmoves.pc_of_ne (t := .pfifo) (hthread ▸ nofun)]
    have hcall := call_moves (hlive.call j) hmoves hthread
    exact h.imp_right fun h => ⟨h.1, hcall.pending h.2⟩

theorem pass_committed (hlive : Live s) (hawaits : awaits (s.pc (.other i)) = true)
    (hcomplete : s.shared.downloadsComplete = false) (hthread : e.thread = .pfifo)
    (hpc : s.pc .pfifo = .top) (hstep : Threads.step code s e = some s') :
    Committed (s'.pc .pfifo) s'.shared := by
  have hpending : s.shared.r.downloadsPending = true := by
    obtain (hpending | hscan) | ⟨j, hj⟩ := hlive.due i hawaits hcomplete
    · exact hpending
    · rw [hpc] at hscan
      cases hscan
    · have hhead : held (s.pc .pfifo) .pfifo = true := by rw [hpc]; rfl
      exact nomatch hlive.owned.unique hhead (held_of_requesting hj)
  rw [Threads.step, hthread, hpc] at hstep
  cases hstep
  refine .inr ⟨?_, hpending⟩
  change entering (update s.pc .pfifo .pendingCheck .pfifo) = true
  rfl

theorem step_awaits (hlive : Live s) (hawaits : awaits (s.pc (.other i)) = true)
    (hcomplete : s.shared.downloadsComplete = false) (hstep : Threads.step code s e = some s') :
    awaits (s'.pc (.other i)) = true := by
  have hmoves := Threads.step_moves hstep
  by_cases hthread : e.thread = .other i
  · exact (call_moves (hlive.call i) hmoves hthread).stays hawaits hcomplete
  · rw [hmoves.pc_of_ne (Ne.symm hthread)]
    exact hawaits

/-- The downloads are complete at some point of the run. -/
def Completes (s : State ι) (es : List (Turn (Thread ι))) : Prop :=
  ∃ es₁ s₁, es₁ <+: es ∧ run (Threads.step code) s es₁ = some s₁ ∧ s₁.shared.downloadsComplete = true

theorem Completes.cons (hstep : Threads.step code s e = some s') (h : Completes s' es) : Completes s (e :: es) := by
  obtain ⟨es₁, s₁, hprefix, hrun, hcomplete⟩ := h
  exact ⟨e :: es₁, s₁, List.cons_prefix_cons.mpr ⟨rfl, hprefix⟩, run_cons_eq_some.mpr ⟨s', hstep, hrun⟩, hcomplete⟩

theorem not_complete (h : ¬ Completes s es) : s.shared.downloadsComplete = false := by
  rw [eq_false_iff]
  exact fun hcomplete => h ⟨[], s, List.nil_prefix, rfl, hcomplete⟩

theorem passes_le (hlive : Live s) (hawaits : awaits (s.pc (.other i)) = true)
    (hrun : run (Threads.step code) s es = some s') (hnot : ¬ Completes s es) :
    passes s es ≤ 1 ∧ (Committed (s.pc .pfifo) s.shared → passes s es = 0) := by
  induction es generalizing s with
  | nil => exact ⟨Nat.zero_le 1, fun _ => rfl⟩
  | cons e es ih =>
    obtain ⟨s₁, hstep, hrest⟩ := run_cons_eq_some.mp hrun
    have hnot₁ : ¬ Completes s₁ es := fun h => hnot (h.cons hstep)
    have hcomplete := not_complete hnot
    obtain ⟨hle, hzero⟩ := ih (step_live hlive hstep) (step_awaits hlive hawaits hcomplete hstep)
      hrest hnot₁
    simp only [passes, hstep]
    by_cases hpass : e.thread = .pfifo ∧ s.pc .pfifo = .top
    · have hcommitted := pass_committed hlive hawaits hcomplete hpass.1 hpass.2 hstep
      rw [if_pos hpass, hzero hcommitted]
      exact ⟨le_rfl, fun h => absurd (hpass.2 ▸ h) not_committed_top⟩
    · rw [if_neg hpass, Nat.zero_add]
      exact ⟨hle, fun h => hzero (step_committed hlive hstep (not_complete hnot₁) h)⟩

omit [DecidableEq ι] in
theorem woken {n : Nat} (hlive : Live s) (hawaits : awaits (s.pc (.other i)) = true)
    (hcomplete : s.shared.downloadsComplete = false) (hpc : s.pc .pfifo = .asleep n)
    (hfree : s.owner .pfifo = none) : n < s.shared.fifoCond := by
  have hnone : ∀ j, held (s.pc (.other j)) .pfifo ≠ true := by
    intro j hheld
    exact nomatch hfree.symm.trans ((hlive.owned .pfifo (.other j)).mpr hheld)
  obtain (hpending | hscan) | ⟨j, hj⟩ := hlive.due i hawaits hcomplete
  · obtain hawake | ⟨j, seen, hj⟩ := hlive.awake hpending
    · exact hawake.sleep n (by rw [hpc]; rfl)
    · exact absurd (by rw [hj]; rfl) (hnone j)
  · rw [hpc] at hscan
    cases hscan
  · exact absurd (held_of_requesting hj) (hnone j)

/-- In every run where the display marks no surface that the scan under way has passed, a call that
returns has what it saw in VRAM. A call that waits is not forgotten: the PFIFO thread is not asleep for
good, two passes of it set the event, and with the event set the call returns. -/
theorem downloads_written {r : VkState Store} {es : List (Turn (Thread ι))}
    (hrun : run (Threads.step code) (State.init r) es = some s)
    (hmeets : Meets (Threads.step code) (fun s _ => requestSafe s = true) (State.init r) es) :
    (∀ i seen, s.pc (.other i) = .returned seen → ∀ j ∈ seen, s.shared.Written j) ∧
      ∀ i, awaits (s.pc (.other i)) = true →
        (∀ n, s.pc .pfifo = .asleep n → s.owner .pfifo = none →
          s.shared.downloadsComplete = false → n < s.shared.fifoCond) ∧
        (∀ es' s', run (Threads.step code) s es' = some s' → 2 ≤ passes s es' → Completes s es') ∧
        ∀ seen, s.pc (.other i) = .wait seen → s.shared.downloadsComplete = true →
          ∃ s', Threads.step code s ⟨.other i, 0⟩ = some s' ∧ s'.pc (.other i) = .returned seen := by
  have hinv := run_invariant_of_meets Inv (fun s e s' => step_inv) (init_inv r) hmeets hrun
  have hlive := run_invariant Live (fun s e s' => step_live) (init_live r) hrun
  refine ⟨fun i seen hpc => (hinv.callOk i).returned seen hpc, fun i hawaits => ⟨?_, ?_, ?_⟩⟩
  · exact fun n hpc hfree hcomplete => woken hlive hawaits hcomplete hpc hfree
  · intro es' s' hrun' hpasses
    by_contra hnot
    have hle := (passes_le hlive hawaits hrun' hnot).1
    omega
  · intro seen hpc hcomplete
    have hcode := congrArg code hpc
    exact ⟨_, Threads.step_of_act hcode (if_pos hcomplete), update_self ..⟩

def twoDirty : VkState Store where
  mem p :=
    { vramAddr := BitVec.ofNat 64 (0x1000 * p), shape := .zero, color := true, swizzle := false
      width := 32, height := 32, pitch := 128, size := 0x1000, frameTime := 0, drawDirty := true
      downloadPending := false, uploadPending := false
      format := ⟨4, .b8g8r8a8Unorm, .colorAttachment⟩, initialized := true, unsaved := true }
  surfaces := [0, 1]
  invalidSurfaces := []
  binding _ := none
  framebufferDirty := false
  downloadsPending := false
  downloadDirtySurfacesPending := false
  store := ⟨fun _ => 1, fun _ => 0⟩
  evicted := []

def turns (t : Thread Bool) (choices : List Nat) : List (Turn (Thread Bool)) := choices.map (⟨t, ·⟩)

def cpuRead : List (Turn (Thread Bool)) :=
  turns (.other true) [6 * (0x1000 * 2 ^ 64 + 4) + 2, 0, 0, 0, 0, 0, 0, 0, 0, 0, 0, 0]

def displayFirst : List (Turn (Thread Bool)) := turns (.other false) [1, 0, 0, 0, 0, 0, 0, 0]

theorem downloads_written_both :
    ∃ s s', run (Threads.step code) (State.init twoDirty)
        (cpuRead ++ displayFirst ++ turns .pfifo (List.replicate 17 0) ++ turns (.other false) [0]) =
          some s ∧
      s.pc (.other false) = .returned [⟨0, 1⟩] ∧ s.shared.Written ⟨0, 1⟩ ∧
      Threads.step code s ⟨.other true, 0⟩ = some s' ∧ s'.pc (.other true) = .returned [⟨1, 1⟩] := by
  obtain ⟨s, hs, hdisplay, hcpu, hcomplete⟩ : ∃ s, run (Threads.step code) (State.init twoDirty)
      (cpuRead ++ displayFirst ++ turns .pfifo (List.replicate 17 0) ++ turns (.other false) [0]) =
        some s ∧ s.pc (.other false) = .returned [⟨0, 1⟩] ∧ s.pc (.other true) = .wait [⟨1, 1⟩] ∧
      s.shared.downloadsComplete = true := by decide +kernel
  obtain ⟨hwritten, hlive⟩ := downloads_written hs (by decide +kernel)
  obtain ⟨-, -, hreturn⟩ := hlive true (by rw [hcpu]; rfl)
  obtain ⟨s', hstep, hpc⟩ := hreturn _ hcpu hcomplete
  exact ⟨s, s', hs, hdisplay, hwritten _ _ hdisplay _ List.mem_cons_self, hstep, hpc⟩

/-- The PFIFO thread has passed the first surface on its way to the one the CPU wants when the display
asks for it: the display returns and the surface is still dirty. -/
theorem display_download_lost :
    (run (Threads.step code) (State.init twoDirty)
      (cpuRead ++ turns .pfifo (List.replicate 7 0) ++ displayFirst ++
        turns .pfifo (List.replicate 7 0) ++ turns (.other false) [0])).map
        (fun s => (s.pc (.other false), decide (s.shared.Written ⟨0, 1⟩), (s.shared.r.mem 0).drawDirty)) =
      some (.returned [⟨0, 1⟩], false, true) := by
  decide +kernel

end XogMobile.Nv2a.Vk.Downloads
