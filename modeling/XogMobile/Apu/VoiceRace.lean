import XogMobile.Apu.VoiceFields

/-!
# No lost update of a voice's fields

A voice that is locked is in no worker's hands, whatever the guest does. `VOICE_ON` and `VOICE_RELEASE`
lock the voice themselves. The other methods that write a dword which the workers write too do not, so
they are safe only on a voice that the guest has locked.
-/

namespace XogMobile.Apu.Fields

open Lib Function List Option

variable {n : Nat} {s s' : State n}

/-! ## Locked voices and the workers -/

/-- No locked voice is being processed. -/
structure Fenced (s : State n) : Prop where
  job : ∀ i v, s.job i = some v → s.working = true ∧ s.locked v = false
  todo : ∀ v ∈ s.todo, s.working = true ∧ s.locked v = false

theorem of_update_some {α : Type} {f : Fin n → Option α} {i j : Fin n} {a b : α}
    (h : update f i (some a) j = some b) : j = i ∧ b = a ∨ f j = some b := by
  by_cases hj : j = i
  · rw [hj, update_self] at h
    exact .inl ⟨hj, (some.inj h).symm⟩
  · exact .inr (update_of_ne hj (some a) f ▸ h)

theorem of_update_none {α : Type} {f : Fin n → Option α} {i j : Fin n} {b : α}
    (h : update f i none j = some b) : j ≠ i ∧ f j = some b := by
  have hj : j ≠ i := by
    rintro rfl
    rw [update_self] at h
    cases h
  exact ⟨hj, update_of_ne hj none f ▸ h⟩

theorem Fenced.of_same (hs : Fenced s) (hlocked : s'.locked = s.locked) (hworking : s'.working = s.working)
    (htodo : s'.todo = s.todo) (hjob : s'.job = s.job) : Fenced s' where
  job i v h := by
    rw [hlocked, hworking]
    exact hs.job i v (hjob ▸ h)
  todo v h := by
    rw [hlocked, hworking]
    exact hs.todo v (htodo ▸ h)

variable {m : Method} {e : Event n} {locked : Nat → Bool} {ops : List Op} {v : Nat} {mem : Voices}
  {arg : Reg} {r : Rmw}

theorem feMethod_eq (h : s.feMethod m = some s') :
    ∃ fecv feav ops, s' = { s with fecv := fecv, feav := feav, guest := ops } := by
  cases m with
  | voiceLock arg =>
    obtain ⟨-, h⟩ := ite_none_right_eq_some.mp h
    cases h
    exact ⟨s.fecv, s.feav, _, rfl⟩
  | voiceOn arg | voiceRelease arg =>
    obtain ⟨ops, -, rfl⟩ := map_eq_some_iff.mp h
    exact ⟨s.fecv, s.feav, ops, rfl⟩
  | setAntecedentVoice arg =>
    cases h
    exact ⟨s.fecv, arg, s.guest, rfl⟩
  | setCurrentVoice arg =>
    cases h
    exact ⟨arg, s.feav, s.guest, rfl⟩
  | voiceOff arg | voicePause arg | setVoice p arg =>
    cases h
    exact ⟨s.fecv, s.feav, _, rfl⟩

theorem guestStep_fenced (hs : Fenced s) (h : guestStep s = some s') : Fenced s' := by
  unfold guestStep at h
  split at h
  · cases h
  · split at h
    · cases h
    · next hidle =>
      -- The frame thread does not hold the lock of the APU, so no voice is in work.
      cases h
      exact ⟨fun i v hjob => absurd (hs.job i v hjob).1 hidle, fun v hv => absurd (hs.todo v hv).1 hidle⟩
  · cases h
    exact hs.of_same rfl rfl rfl rfl
  · split at h <;> cases h <;> exact hs.of_same rfl rfl rfl rfl

theorem step_fenced (hs : Fenced s) (h : step s e = some s') : Fenced s' := by
  cases e with
  | method m =>
    obtain ⟨-, h⟩ := ite_none_right_eq_some.mp h
    obtain ⟨fecv, feav, ops, rfl⟩ := feMethod_eq h
    exact hs.of_same rfl rfl rfl rfl
  | guest => exact guestStep_fenced hs h
  | startFrame queue =>
    obtain ⟨⟨hidle, hunlocked⟩, h⟩ := ite_none_right_eq_some.mp h
    cases h
    refine ⟨fun i v hjob => ?_, fun v hv => ⟨rfl, hunlocked v hv⟩⟩
    have hworking := (hs.job i v hjob).1
    rw [hidle] at hworking
    cases hworking
  | take i v =>
    obtain ⟨⟨-, hv⟩, h⟩ := ite_none_right_eq_some.mp h
    cases h
    refine ⟨fun j w hjob => ?_, fun w hw => hs.todo w (mem_of_mem_erase hw)⟩
    obtain ⟨-, rfl⟩ | hjob := of_update_some hjob
    · exact hs.todo w hv
    · exact hs.job j w hjob
  | workerLoad i o mask val =>
    simp only [step] at h
    split at h
    · obtain ⟨-, h⟩ := ite_none_right_eq_some.mp h
      cases h
      exact hs.of_same rfl rfl rfl rfl
    · cases h
  | workerStore i =>
    obtain ⟨r, -, rfl⟩ := map_eq_some_iff.mp h
    exact hs.of_same rfl rfl rfl rfl
  | finish i =>
    obtain ⟨-, h⟩ := ite_none_right_eq_some.mp h
    cases h
    exact ⟨fun j w hjob => hs.job j w (of_update_none hjob).2, hs.todo⟩
  | endFrame =>
    obtain ⟨⟨htodo, hjobs⟩, h⟩ := ite_none_right_eq_some.mp h
    cases h
    refine ⟨fun i v hjob => ?_, fun v hv => ?_⟩
    · rw [hjobs i] at hjob
      cases hjob
    · rw [htodo] at hv
      cases hv

/-! ## What the methods lock -/

/-- Shared fields are written while the voice is locked. -/
def Covered : (Nat → Bool) → List Op → Prop
  | _, [] => True
  | locked, .voiceLock v lock :: ops => Covered (update locked v lock) ops
  | locked, .setTop _ _ :: ops => Covered locked ops
  | locked, .setMask v o _ _ :: ops => (o.Shared → locked v = true) ∧ Covered locked ops

def Steady (locked : Nat → Bool) : Op → Prop
  | .voiceLock _ _ => False
  | .setTop _ _ => True
  | .setMask v o _ _ => o.Shared → locked v = true

theorem covered_append {rest : List Op} (hops : ∀ op ∈ ops, Steady locked op)
    (hrest : Covered locked rest) : Covered locked (ops ++ rest) := by
  induction ops with
  | nil => exact hrest
  | cons op ops ih =>
    have hop := hops op mem_cons_self
    have htail := ih fun op' hop' => hops op' (.tail op hop')
    cases op with
    | voiceLock v lock => exact hop.elim
    | setTop list val => exact htail
    | setMask v o mask val => exact ⟨hop, htail⟩

theorem whileLocked_covered (hops : ∀ locked : Nat → Bool, locked v = true → ∀ op ∈ ops, Steady locked op) :
    Covered s.locked (s.whileLocked v ops) := by
  unfold State.whileLocked
  split
  · next hlocked =>
    have hcovered : Covered s.locked (ops ++ []) := covered_append (hops s.locked hlocked) trivial
    rwa [append_nil] at hcovered
  · rw [cons_append]
    exact covered_append (hops _ (update_self ..)) trivial

theorem envelopeOps_steady {cur : Reg} {delayReg holdReg : Dword} {curMask countMask : Reg}
    (hlocked : locked v = true) :
    ∀ op ∈ envelopeOps mem v cur delayReg holdReg curMask countMask, Steady locked op := by
  intro op hop
  have hwrite : ∀ {o : Dword} {mask val : Reg}, op ∈ [Op.setMask v o mask val] → Steady locked op := by
    intro o mask val hmem
    rw [mem_singleton.mp hmem]
    exact fun _ => hlocked
  rcases mem_cons.mp hop with rfl | hop
  · exact fun _ => hlocked
  · split at hop
    · exact hwrite hop
    · split at hop
      · exact hwrite hop
      · split at hop
        · exact hwrite hop
        · cases hop

theorem linkOps_steady (h : s.linkOps v = some ops) (locked : Nat → Bool) : ∀ op ∈ ops, Steady locked op := by
  have hlink : ¬Dword.tarPitchLink.Shared := by decide
  unfold State.linkOps at h
  dsimp only at h
  split at h
  · cases h
    intro op hop
    simp only [mem_cons, not_mem_nil, or_false] at hop
    rcases hop with rfl | rfl
    · exact fun hshared => absurd hshared hlink
    · trivial
  · obtain ⟨-, h⟩ := ite_none_right_eq_some.mp h
    cases h
    intro op hop
    simp only [mem_cons, not_mem_nil, or_false] at hop
    rcases hop with rfl | rfl
    · exact fun hshared => absurd hshared hlink
    · exact fun hshared => absurd hshared hlink

theorem voiceOnOps_covered (h : s.voiceOnOps arg = some ops) : Covered s.locked ops := by
  obtain ⟨-, h⟩ := ite_none_right_eq_some.mp h
  obtain ⟨link, hlink, rfl⟩ := map_eq_some_iff.mp h
  refine whileLocked_covered fun locked hlocked op hop => ?_
  simp only [mem_append, mem_cons, not_mem_nil, or_false] at hop
  rcases hop with ((hop | rfl | hop) | hop) | rfl
  · exact linkOps_steady hlink locked op hop
  · exact fun _ => hlocked
  · exact envelopeOps_steady hlocked op hop
  · exact envelopeOps_steady hlocked op hop
  · exact fun _ => hlocked

theorem voiceReleaseOps_covered (h : s.voiceReleaseOps arg = some ops) : Covered s.locked ops := by
  obtain ⟨-, h⟩ := ite_none_right_eq_some.mp h
  cases h
  refine whileLocked_covered fun locked hlocked op hop => ?_
  simp only [mem_cons, not_mem_nil, or_false] at hop
  rcases hop with rfl | rfl | rfl | rfl <;> exact fun _ => hlocked

/-- The voice of which a method writes a shared dword without locking it. -/
def Method.unguarded (s : State n) : Method → Option Nat
  | .voiceOff arg | .voicePause arg => some (handle arg)
  | .setVoice .bufCbo _ | .setVoice .cfgBufEbo _ => some (handle s.fecv)
  | _ => none

/-- The guest locks a voice before it writes a shared dword with a method that does not, and no voice is
queued twice. -/
def Careful (s : State n) : Event n → Prop
  | .method m => ∀ v ∈ m.unguarded s, s.locked v = true
  | .startFrame queue => queue.Nodup
  | _ => True

instance (s : State n) : ∀ e, Decidable (Careful s e)
  | .method m => inferInstanceAs (Decidable (∀ v ∈ m.unguarded s, _))
  | .startFrame queue => inferInstanceAs (Decidable queue.Nodup)
  | .guest | .take _ _ | .workerLoad _ _ _ _ | .workerStore _ | .finish _ | .endFrame => isTrue trivial

theorem feMethod_covered (hcareful : ∀ v ∈ m.unguarded s, s.locked v = true)
    (hidle : s.guest = []) (h : s.feMethod m = some s') : Covered s'.locked s'.guest := by
  cases m with
  | voiceLock arg =>
    obtain ⟨-, h⟩ := ite_none_right_eq_some.mp h
    cases h
    trivial
  | setAntecedentVoice arg | setCurrentVoice arg =>
    cases h
    rw [hidle]
    trivial
  | voiceOn arg =>
    obtain ⟨ops, hops, rfl⟩ := map_eq_some_iff.mp h
    exact voiceOnOps_covered hops
  | voiceRelease arg =>
    obtain ⟨ops, hops, rfl⟩ := map_eq_some_iff.mp h
    exact voiceReleaseOps_covered hops
  | voiceOff arg | voicePause arg =>
    cases h
    exact ⟨fun _ => hcareful _ rfl, trivial⟩
  | setVoice p arg =>
    cases h
    refine ⟨fun hshared => ?_, trivial⟩
    cases p with
    | bufCbo | cfgBufEbo => exact hcareful _ rfl
    | _ => simp [Dword.Shared] at hshared

/-! ## The dwords -/

/-- What keeps every update: nobody writes a dword that another has loaded. -/
structure Kept (s : State n) : Prop where
  fenced : Fenced s
  same : s.mem = s.ideal
  covered : Covered s.locked s.guest
  guestRmw : ∀ r, s.guestRmw = some r → r.loaded = s.mem r.voice r.dword ∧
    ∃ mask val ops, s.guest = .setMask r.voice r.dword mask val :: ops
  workerRmw : ∀ i r, s.workerRmw i = some r →
    r.loaded = s.mem r.voice r.dword ∧ r.dword.Shared ∧ s.job i = some r.voice
  unique : ∀ i j v, s.job i = some v → s.job j = some v → i = j
  taken : ∀ i v, s.job i = some v → v ∉ s.todo
  nodup : s.todo.Nodup

/-- A worker's voice is not locked, so the guest has not loaded the worker's dword. -/
theorem Kept.apart {i : Fin n} {r' : Rmw} (hs : Kept s) (hr : s.guestRmw = some r)
    (hr' : s.workerRmw i = some r') : ¬(r.voice = r'.voice ∧ r.dword = r'.dword) := by
  rintro ⟨hvoice, hdword⟩
  obtain ⟨-, mask, val, ops, hops⟩ := hs.guestRmw r hr
  obtain ⟨-, hshared, hjob⟩ := hs.workerRmw i r' hr'
  have hcovered := hs.covered
  rw [hops] at hcovered
  have hlocked := hcovered.1 (hdword ▸ hshared)
  rw [hvoice, (hs.fenced.job i r'.voice hjob).2] at hlocked
  cases hlocked

theorem setDword_other {v' : Nat} {o o' : Dword} {val : Reg} (h : ¬(v' = v ∧ o' = o)) :
    setDword mem v o val v' o' = mem v' o' := if_neg h

theorem store_same (hsame : s.mem = s.ideal) (hr : r.loaded = s.mem r.voice r.dword) :
    (s.store r).mem = (s.store r).ideal := by
  unfold State.store
  rw [hr, hsame]

theorem method_kept (hs : Kept s) (hcareful : ∀ v ∈ m.unguarded s, s.locked v = true)
    (hidle : s.guest = []) (h : s.feMethod m = some s') : Kept s' := by
  have hcovered := feMethod_covered hcareful hidle h
  obtain ⟨fecv, feav, ops, rfl⟩ := feMethod_eq h
  refine { hs with
    fenced := hs.fenced.of_same rfl rfl rfl rfl, covered := hcovered, guestRmw := fun r hr => ?_ }
  -- Between two methods the guest has nothing loaded.
  obtain ⟨-, mask, val, ops', hops⟩ := hs.guestRmw r hr
  rw [hidle] at hops
  cases hops

theorem guestStep_kept (hs : Kept s) (h : guestStep s = some s') : Kept s' := by
  have hfenced := guestStep_fenced hs.fenced h
  have hcovered := hs.covered
  unfold guestStep at h
  split at h
  · cases h
  · next v lock ops hguest =>
    rw [hguest] at hcovered
    split at h
    · cases h
    · cases h
      refine { hs with fenced := hfenced, covered := hcovered, guestRmw := fun r hr => ?_ }
      obtain ⟨-, mask, val, ops', hops⟩ := hs.guestRmw r hr
      rw [hguest] at hops
      cases hops
  · next list val ops hguest =>
    rw [hguest] at hcovered
    cases h
    refine { hs with fenced := hfenced, covered := hcovered, guestRmw := fun r hr => ?_ }
    obtain ⟨-, mask, val, ops', hops⟩ := hs.guestRmw r hr
    rw [hguest] at hops
    cases hops
  · next v o mask val ops hguest =>
    split at h
    · cases h
      refine { hs with fenced := hfenced, guestRmw := fun r hr => ?_ }
      cases hr
      exact ⟨rfl, mask, val, ops, hguest⟩
    · next r hr =>
      cases h
      obtain ⟨hloaded, mask', val', ops', hops⟩ := hs.guestRmw r hr
      rw [hguest] at hcovered
      refine ⟨hfenced, store_same hs.same hloaded, hcovered.2, fun r' hr' => (nomatch hr'), fun i r' hr' => ?_,
        hs.unique, hs.taken, hs.nodup⟩
      obtain ⟨hloaded', hworker⟩ := hs.workerRmw i r' hr'
      refine ⟨hloaded'.trans (setDword_other fun heq => ?_).symm, hworker⟩
      exact hs.apart hr hr' ⟨heq.1.symm, heq.2.symm⟩

theorem workerStore_kept {i : Fin n} (hs : Kept s) (hr : s.workerRmw i = some r) :
    Kept { s.store r with workerRmw := update s.workerRmw i none } := by
  obtain ⟨hloaded, -, hjob⟩ := hs.workerRmw i r hr
  refine ⟨hs.fenced.of_same rfl rfl rfl rfl, store_same hs.same hloaded, hs.covered, fun r' hr' => ?_,
    fun j r' hr' => ?_, hs.unique, hs.taken, hs.nodup⟩
  · obtain ⟨hloaded', hops⟩ := hs.guestRmw r' hr'
    exact ⟨hloaded'.trans (setDword_other (hs.apart hr' hr)).symm, hops⟩
  · obtain ⟨hj, hr'⟩ := of_update_none hr'
    obtain ⟨hloaded', hshared', hjob'⟩ := hs.workerRmw j r' hr'
    refine ⟨hloaded'.trans (setDword_other fun heq => ?_).symm, hshared', hjob'⟩
    -- Another worker has another voice.
    exact hj (hs.unique j i r.voice (heq.1 ▸ hjob') hjob)

theorem step_kept (hs : Kept s) (hcareful : Careful s e) (h : step s e = some s') : Kept s' := by
  have hfenced := step_fenced hs.fenced h
  cases e with
  | method m =>
    obtain ⟨hidle, h⟩ := ite_none_right_eq_some.mp h
    exact method_kept hs hcareful (isEmpty_iff.mp hidle) h
  | guest => exact guestStep_kept hs h
  | startFrame queue =>
    obtain ⟨⟨hidle, -⟩, h⟩ := ite_none_right_eq_some.mp h
    cases h
    refine { hs with fenced := hfenced, taken := fun i v hjob => ?_, nodup := hcareful }
    have hworking := (hs.fenced.job i v hjob).1
    rw [hidle] at hworking
    cases hworking
  | take i v =>
    obtain ⟨⟨hfree, hv⟩, h⟩ := ite_none_right_eq_some.mp h
    cases h
    have hnew : ∀ j, s.job j ≠ some v := fun j hjob => hs.taken j v hjob hv
    refine ⟨hfenced, hs.same, hs.covered, hs.guestRmw, fun j r hr => ?_, fun j k w hj hk => ?_,
      fun j w hjob => ?_, hs.nodup.erase v⟩
    · obtain ⟨hloaded, hshared, hjob⟩ := hs.workerRmw j r hr
      have hne : j ≠ i := fun heq => by
        rw [heq, hfree] at hjob
        cases hjob
      exact ⟨hloaded, hshared, by simpa only [update_of_ne hne] using hjob⟩
    · rcases of_update_some hj with ⟨hji, hjw⟩ | hj' <;> rcases of_update_some hk with ⟨hki, hkw⟩ | hk'
      · exact hji.trans hki.symm
      · exact absurd (hjw ▸ hk') (hnew k)
      · exact absurd (hkw ▸ hj') (hnew j)
      · exact hs.unique j k w hj' hk'
    · rcases of_update_some hjob with ⟨-, rfl⟩ | hjob
      · exact List.Nodup.not_mem_erase hs.nodup
      · exact fun hmem => hs.taken j w hjob (mem_of_mem_erase hmem)
  | workerLoad i o mask val =>
    simp only [step] at h
    split at h
    · next v hjob hnone =>
      obtain ⟨hshared, h⟩ := ite_none_right_eq_some.mp h
      cases h
      refine { hs with fenced := hfenced, workerRmw := fun j r hr => ?_ }
      obtain ⟨rfl, rfl⟩ | hr := of_update_some hr
      · exact ⟨rfl, hshared, hjob⟩
      · exact hs.workerRmw j r hr
    · cases h
  | workerStore i =>
    obtain ⟨r, hr, rfl⟩ := map_eq_some_iff.mp h
    exact workerStore_kept hs hr
  | finish i =>
    obtain ⟨hnone, h⟩ := ite_none_right_eq_some.mp h
    cases h
    refine ⟨hfenced, hs.same, hs.covered, hs.guestRmw, fun j r hr => ?_, fun j k w hj hk =>
      hs.unique j k w (of_update_none hj).2 (of_update_none hk).2,
      fun j w hj => hs.taken j w (of_update_none hj).2, hs.nodup⟩
    obtain ⟨hloaded, hshared, hworker⟩ := hs.workerRmw j r hr
    have hne : j ≠ i := fun heq => by
      rw [heq] at hr
      rw [hr] at hnone
      cases hnone
    exact ⟨hloaded, hshared, by simpa only [update_of_ne hne] using hworker⟩
  | endFrame =>
    obtain ⟨-, h⟩ := ite_none_right_eq_some.mp h
    cases h
    exact { hs with fenced := hfenced }

theorem start_fenced (mem : Voices) (fecv feav : Reg) (top : Nat → Reg) : Fenced (start n mem fecv feav top) :=
  ⟨nofun, nofun⟩

/-- In every run no worker has a voice that is locked, and in every run of a careful guest the dwords are
as if every update were one step, so that none is lost. -/
theorem voice_updates_kept {mem : Voices} {fecv feav : Reg} {top : Nat → Reg} {es : List (Event n)}
    (hrun : run step (start n mem fecv feav top) es = some s) :
    (∀ i v, s.job i = some v → s.locked v = false) ∧
      (Meets step Careful (start n mem fecv feav top) es → s.mem = s.ideal) := by
  have hfenced := start_fenced (n := n) mem fecv feav top
  constructor
  · have hs : Fenced s := run_invariant Fenced (fun _ _ _ hs h => step_fenced hs h) hfenced hrun
    exact fun i v hjob => (hs.job i v hjob).2
  · intro hmeets
    have hstart : Kept (start n mem fecv feav top) :=
      ⟨hfenced, rfl, trivial, nofun, nofun, nofun,
        nofun, nodup_nil⟩
    exact (run_invariant_of_meets Kept (fun _ _ _ hs hok h => step_kept hs hok h) hstart hmeets hrun).same

def allActive : State 1 :=
  start 1 (fun _ o => if o = .parState then 0x00200000 else 0) 0 0 fun _ => 0xFFFF

def worker : Fin 1 := ⟨0, Nat.one_pos⟩

def pausedLocked : List (Event 1) :=
  [.method (.voiceLock 1), .guest, .method (.voicePause 0x00040000), .guest, .guest, .method (.voiceLock 0),
   .guest, .startFrame [0], .take worker 0, .workerLoad worker .parState 0x00200000 0, .workerStore worker,
   .finish worker, .endFrame]

theorem voice_updates_kept_locked :
    ∃ s, run step allActive pausedLocked = some s ∧ s.mem 0 .parState = 0x00040000 ∧ s.mem = s.ideal := by
  refine exists_some_and (by decide +kernel) fun s hrun _ => ?_
  exact (voice_updates_kept hrun).2 (by decide +kernel)

def pausedInWork : List (Event 1) :=
  [.startFrame [0], .take worker 0, .method (.voicePause 0x00040000), .guest,
   .workerLoad worker .parState 0x00200000 0, .workerStore worker, .guest]

/-- The voice is active again. -/
theorem voice_update_lost :
    (run step allActive pausedInWork).map (fun s => (s.mem 0 .parState, s.ideal 0 .parState)) =
      some (0x00240000, 0x00040000) := by
  decide +kernel

end XogMobile.Apu.Fields
