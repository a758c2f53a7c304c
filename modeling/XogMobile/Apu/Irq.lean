import XogMobile.Lib.Run
import Mathlib.Data.BitVec

/-!
# The interrupt line of the APU

`update_irq` is called by the frame thread when a flag asks for it, and when the guest writes the
interrupt status. Both hold the big lock. The flag is set without it: by the voice workers and the
frame thread itself, and by a guest that switches a voice off. A write of the interrupt enable register
changes nothing but the register.

The frame thread is not asked to pause. A guest action that is under way holds the big lock. Whether
some queued voice is locked, and whether the lists have an idle voice that traps the front end, are
choices of the schedule.
-/

namespace XogMobile.Apu.Irq

open Lib Nat

abbrev Reg := BitVec 32

/-- `NV_PAPU_ISTS_GINTSTS`, in the status and in the enable register. -/
def gintsts : Reg := 1

/-- Places in `mcpx_apu_frame_thread` and in the frame it makes. -/
inductive FramePoint where
  | head
  | irq
  | irqDone
  | recheck
  | poll
  | throttle
  | lists
  | trapping
  | voices
  | work
  deriving DecidableEq

inductive GuestPoint where
  | idle
  | notified
  | istsTrap
  | istsTest
  | istsSet (raise : Bool)
  deriving DecidableEq

structure State where
  (ists ien fectl sectl : Reg)
  (setIrq line voiceLocked : Bool)
  frame : FramePoint
  guest : GuestPoint
  /-- How many workers have set the status bits of a notification but not yet the flag. -/
  noting : Nat
  deriving DecidableEq

namespace State

variable (s : State)

/-- `NV_PAPU_SECTL_XCNTMODE` is off, or the front end is trapped or halted. -/
def Off : Prop := s.sectl &&& 0x18 = 0 ∨ s.fectl &&& 0xE0 ≠ 0 ∨ s.fectl &&& 0x80 ≠ 0

instance : Decidable s.Off := inferInstanceAs (Decidable (_ ∨ _ ∨ _))

def trapNoted : State :=
  if s.fectl &&& 0xE0 ≠ 0 then { s with ists := s.ists ||| 0x10 } else s

def raised : Bool :=
  decide (s.ien &&& gintsts ≠ 0 ∧ (s.ists &&& ~~~gintsts) &&& s.ien ≠ 0)

/-- The end of `update_irq`: the line, and the bit that shows it. -/
def setLine (raise : Bool) : State :=
  { s with ists := if raise then s.ists ||| gintsts else s.ists &&& ~~~gintsts, line := raise }

def updateIrq : State := s.trapNoted.setLine s.trapNoted.raised

def notified : State := { s with ists := s.ists ||| 0x60 }

end State

inductive Event where
  | frame
  /-- `SE2FE_IDLE_VOICE`: the lists have an idle voice. -/
  | trap
  | workerNote
  | workerDone
  | writeIsts (val : Reg)
  | writeIen (val : Reg)
  | writeFectl (val : Reg)
  | writeSectl (val : Reg)
  | voiceOff
  | voiceLock (locked : Bool)
  | guest

def frameStep (s : State) : Option State :=
  match s.frame with
  | .head =>
    let s := if s.Off then { s with setIrq := true } else s
    some { s with frame := if s.setIrq then .irq else .recheck }
  -- with the big lock
  | .irq => if s.guest = .idle then some { s.updateIrq with frame := .irqDone } else none
  | .irqDone => some { s with setIrq := false, frame := .recheck }
  | .recheck => some { s with frame := if s.Off then .poll else .throttle }
  | .poll => some { s with frame := .head }
  | .throttle => some { s with frame := .lists }
  | .lists => some { s with frame := .voices }
  | .trapping => some { s with setIrq := true, frame := .lists }
  | .voices => some (if s.voiceLocked then s else { s with frame := .work })
  | .work => if s.noting = 0 then some { s with frame := .head } else none

def guestStep (s : State) : Option State :=
  match s.guest with
  | .idle => none
  | .notified => some { s with setIrq := true, guest := .idle }
  | .istsTrap => some { s.trapNoted with guest := .istsTest }
  | .istsTest => some { s with guest := .istsSet s.raised }
  | .istsSet raise => some { s.setLine raise with guest := .idle }

def step (s : State) : Event → Option State
  | .frame => frameStep s
  | .trap =>
    if s.frame = .lists then
      some { s with
        fectl := (((s.fectl &&& ~~~0xE0) ||| 0xE0) &&& ~~~0xF00) ||| 0xF00, frame := .trapping }
    else none
  | .workerNote =>
    if s.frame = .work then some { s.notified with noting := s.noting + 1 } else none
  | .workerDone =>
    if 0 < s.noting then some { s with setIrq := true, noting := s.noting - 1 } else none
  | .writeIsts val =>
    if s.guest = .idle then some { s with ists := s.ists &&& ~~~val, guest := .istsTrap } else none
  | .writeIen val => if s.guest = .idle then some { s with ien := val } else none
  | .writeFectl val => if s.guest = .idle then some { s with fectl := val } else none
  | .writeSectl val => if s.guest = .idle then some { s with sectl := val } else none
  | .voiceOff => if s.guest = .idle then some { s.notified with guest := .notified } else none
  | .voiceLock locked => if s.guest = .idle then some { s with voiceLocked := locked } else none
  | .guest => guestStep s

def start : State where
  ists := 0
  ien := 0
  fectl := 0
  sectl := 0
  setIrq := false
  line := false
  voiceLocked := false
  frame := .head
  guest := .idle
  noting := 0

/-! ## What keeps the line right -/

variable {s s' : State}

/-- `update_irq` is still to come. -/
def State.Asked (s : State) : Prop := s.setIrq = true ∧ s.frame ≠ .irqDone ∨ 0 < s.noting

instance (s : State) : Decidable s.Asked := inferInstanceAs (Decidable (_ ∨ _))

/-- The interrupt enable register is written only where that does not change the level of the line, or
`update_irq` is still to come; and the flag is not set by a guest between `update_irq` and the frame
thread's own reset of the flag. -/
def Heeded (s : State) : Event → Prop
  | .writeIen val => { s with ien := val }.raised = s.raised ∨ s.Asked
  | .guest => s.guest = .notified → s.frame ≠ .irqDone
  | _ => True

instance (s : State) : ∀ e, Decidable (Heeded s e)
  | .writeIen _ => inferInstanceAs (Decidable (_ ∨ _))
  | .guest => inferInstanceAs (Decidable (_ → _))
  | .frame | .trap | .workerNote | .workerDone | .writeIsts _ | .writeFectl _ | .writeSectl _ | .voiceOff
  | .voiceLock _ => isTrue trivial

/-- The line, or what it is about to be, is right, or `update_irq` is still to come. -/
structure Kept (s : State) : Prop where
  noting : 0 < s.noting → s.frame = .work
  idle : s.guest = .idle → s.line = s.raised ∨ s.Asked
  setting : ∀ raise, s.guest = .istsSet raise → raise = s.raised ∨ s.Asked

theorem start_kept : Kept start where
  noting h := absurd h (lt_irrefl 0)
  idle _ := .inl rfl
  setting _ h := (nomatch h)

theorem raised_or (b x e : Reg) : ((x ||| b) &&& ~~~b) &&& e = (x &&& ~~~b) &&& e := by
  grind

theorem raised_and (b x e : Reg) : ((x &&& ~~~b) &&& ~~~b) &&& e = (x &&& ~~~b) &&& e := by
  grind

theorem setLine_raised (s : State) (raise : Bool) : (s.setLine raise).raised = s.raised := by
  unfold State.setLine State.raised
  cases raise with
  | true => simp only [if_true, raised_or]
  | false => simp only [Bool.false_eq_true, if_false, raised_and]

theorem updateIrq_line (s : State) : s.updateIrq.line = s.updateIrq.raised := by
  unfold State.updateIrq
  rw [setLine_raised]
  rfl

theorem trapNoted_eq (s : State) : s.trapNoted = { s with ists := s.trapNoted.ists } := by
  unfold State.trapNoted
  split <;> rfl

theorem Kept.noting_eq (hs : Kept s) (hframe : s.frame ≠ .work) : s.noting = 0 :=
  Nat.eq_zero_of_not_pos fun hpos => hframe (hs.noting hpos)

theorem Kept.of_same (hs : Kept s) (hguest : s'.guest = s.guest) (hline : s'.line = s.line)
    (hraised : s'.raised = s.raised) (hwork : 0 < s'.noting → s'.frame = .work)
    (hasked : s.Asked → s'.Asked) : Kept s' where
  noting := hwork
  idle h := by
    rw [hline, hraised]
    exact (hs.idle (hguest ▸ h)).imp_right hasked
  setting raise h := by
    rw [hraised]
    exact (hs.setting raise (hguest ▸ h)).imp_right hasked

theorem Kept.move (hs : Kept s) (hnone : s.noting = 0) {next : FramePoint} (hnext : next ≠ .irqDone)
    {flag : Bool} (hflag : s.setIrq = true → flag = true) :
    Kept { s with frame := next, setIrq := flag } := by
  have hnot : ¬0 < s.noting := by omega
  refine hs.of_same rfl rfl rfl (fun hpos => absurd hpos hnot) fun hasked => .inl ⟨?_, hnext⟩
  exact hflag (hasked.resolve_right hnot).1

theorem frameStep_kept (hs : Kept s) (h : frameStep s = some s') : Kept s' := by
  unfold frameStep at h
  have hnone := hs.noting_eq
  cases hframe : s.frame <;> simp only [hframe] at h hnone
  case head =>
    cases h
    split
    · exact hs.move (hnone nofun) (by nofun) fun _ => rfl
    · refine hs.move (hnone nofun) ?_ id
      split <;> nofun
  case irq =>
    split at h
    · next hidle =>
      cases h
      refine ⟨fun hpos => ?_, fun _ => .inl (updateIrq_line s), fun raise hset => ?_⟩
      · have hzero : s.trapNoted.noting = 0 := (congrArg State.noting (trapNoted_eq s)).trans (hnone nofun)
        exact absurd hpos (Nat.not_lt_of_le (le_of_eq hzero))
      · have hguest : s.trapNoted.guest = .idle := (congrArg State.guest (trapNoted_eq s)).trans hidle
        cases hguest.symm.trans hset
    · cases h
  case irqDone =>
    cases h
    -- The flag is taken back here, with the line right since the update.
    have hnot : ¬s.Asked := by
      rintro (⟨-, hne⟩ | hpos)
      · exact hne hframe
      · rw [hnone nofun] at hpos
        cases hpos
    exact hs.of_same rfl rfl rfl (fun hpos => absurd (Or.inr hpos) hnot) fun hasked => absurd hasked hnot
  case recheck =>
    cases h
    refine hs.move (hnone nofun) ?_ id
    split <;> nofun
  case poll | throttle | lists =>
    cases h
    exact hs.move (hnone nofun) (by nofun) id
  case trapping =>
    cases h
    exact hs.move (hnone nofun) (by nofun) fun _ => rfl
  case voices =>
    cases h
    split
    · exact hs
    · exact hs.move (hnone nofun) (by nofun) id
  case work =>
    split at h
    · next hzero =>
      cases h
      exact hs.move hzero (by nofun) id
    · cases h

theorem guestStep_kept (hs : Kept s) (hok : s.guest = .notified → s.frame ≠ .irqDone)
    (h : guestStep s = some s') : Kept s' := by
  unfold guestStep at h
  cases hguest : s.guest <;> simp only [hguest] at h
  case idle => cases h
  case notified =>
    cases h
    have hasked : State.Asked { s with setIrq := true, guest := .idle } := .inl ⟨rfl, hok hguest⟩
    exact ⟨hs.noting, fun _ => .inr hasked, nofun⟩
  case istsTrap =>
    cases h
    refine ⟨fun hpos => ?_, nofun, nofun⟩
    exact (congrArg State.frame (trapNoted_eq s)).trans (hs.noting (congrArg State.noting (trapNoted_eq s) ▸ hpos))
  case istsTest =>
    cases h
    refine ⟨hs.noting, nofun, fun raise hset => .inl ?_⟩
    cases hset
    rfl
  case istsSet raise =>
    cases h
    refine ⟨hs.noting, fun _ => ?_, nofun⟩
    refine (hs.setting raise hguest).imp_left fun hraise => hraise.trans ?_
    exact (setLine_raised s raise).symm

theorem step_kept {e : Event} (hs : Kept s) (hok : Heeded s e) (h : step s e = some s') : Kept s' := by
  cases e with
  | frame => exact frameStep_kept hs h
  | guest => exact guestStep_kept hs hok h
  | trap =>
    obtain ⟨hframe, h⟩ := Option.ite_none_right_eq_some.mp h
    cases h
    have hnone : s.noting = 0 := hs.noting_eq (by rw [hframe]; nofun)
    refine hs.of_same rfl rfl rfl (fun hpos => ?_) (Or.imp_left fun hset => ⟨hset.1, nofun⟩)
    exact absurd hpos (Nat.not_lt_of_le (le_of_eq hnone))
  | workerNote =>
    obtain ⟨hframe, h⟩ := Option.ite_none_right_eq_some.mp h
    cases h
    have hasked : State.Asked { s.notified with noting := s.noting + 1 } := .inr (succ_pos _)
    exact ⟨fun _ => hframe, fun _ => .inr hasked, fun _ _ => .inr hasked⟩
  | workerDone =>
    obtain ⟨hpos, h⟩ := Option.ite_none_right_eq_some.mp h
    cases h
    have hframe := hs.noting hpos
    have hasked : State.Asked { s with setIrq := true, noting := s.noting - 1 } := .inl ⟨rfl, by rw [hframe]; nofun⟩
    exact ⟨fun _ => hframe, fun _ => .inr hasked, fun _ _ => .inr hasked⟩
  | writeIsts | voiceOff =>
    obtain ⟨hidle, h⟩ := Option.ite_none_right_eq_some.mp h
    cases h
    exact ⟨hs.noting, nofun, nofun⟩
  | writeIen val =>
    obtain ⟨hidle, h⟩ := Option.ite_none_right_eq_some.mp h
    cases h
    refine ⟨hs.noting, fun _ => ?_, fun _ hset => (nomatch hidle.symm.trans hset)⟩
    rcases hok with hsame | hasked
    · rw [hsame]
      exact hs.idle hidle
    · exact .inr hasked
  | writeFectl | writeSectl | voiceLock =>
    obtain ⟨hidle, h⟩ := Option.ite_none_right_eq_some.mp h
    cases h
    exact hs.of_same rfl rfl rfl hs.noting id

/-! ## The frame thread alone -/

/-- The guest is idle, no note is under way and no voice is locked. -/
structure Calm (s : State) : Prop where
  guest : s.guest = .idle
  noting : s.noting = 0
  unlocked : s.voiceLocked = false

/-- How far the frame thread is from the end of the next `update_irq`, if the flag is set. -/
def FramePoint.rank : FramePoint → Nat
  | .irq => 1
  | .head => 2
  | .work | .poll => 3
  | .voices => 4
  | .lists => 5
  | .throttle | .trapping => 6
  | .recheck => 7
  | .irqDone => 8

def State.need (s : State) : Nat := if s.line = s.raised then 0 else s.frame.rank

/-- What was raised stays raised, and only a trap raises anew. -/
structure Later (s s' : State) : Prop where
  fectl : s'.fectl = s.fectl
  raised : s.raised = true → s'.raised = true
  untrapped : s.fectl &&& 0xE0 = 0 → s'.raised = s.raised

theorem Later.refl (s : State) : Later s s := ⟨rfl, id, fun _ => rfl⟩

theorem Later.trans {s'' : State} (h : Later s s') (h' : Later s' s'') : Later s s'' where
  fectl := h'.fectl.trans h.fectl
  raised hs := h'.raised (h.raised hs)
  untrapped hs := (h'.untrapped (h.fectl ▸ hs)).trans (h.untrapped hs)

theorem trapNoted_raised (h : s.raised = true) : s.trapNoted.raised = true := by
  unfold State.trapNoted
  split
  · unfold State.raised at h ⊢
    rw [decide_eq_true_eq] at h ⊢
    refine ⟨h.1, fun hzero => h.2 ?_⟩
    rw [BitVec.and_or_distrib_right, BitVec.and_or_distrib_right] at hzero
    exact (BitVec.or_eq_zero_iff.mp hzero).1
  · exact h

theorem updateIrq_later (s : State) : Later s s.updateIrq where
  fectl := by
    have hfectl := congrArg State.fectl (trapNoted_eq s)
    exact hfectl
  raised h := by
    unfold State.updateIrq
    rw [setLine_raised]
    exact trapNoted_raised h
  untrapped h := by
    unfold State.updateIrq
    rw [setLine_raised, State.trapNoted, if_neg (not_not_intro h)]

/-- A frame later, fewer frames are needed before the line follows. -/
structure Progress (s s' : State) : Prop where
  calm : Calm s'
  kept : Kept s'
  later : Later s s'
  need : s'.need ≤ s.need - 1

theorem Kept.need_le (hs : Kept s) (hcalm : Calm s) (hline : s'.line = s.line) (hraised : s'.raised = s.raised)
    (hnext : s.setIrq = true → s.frame ≠ .irqDone → s'.frame.rank < s.frame.rank) :
    s'.need ≤ s.need - 1 := by
  unfold State.need
  rw [hline, hraised]
  split
  · exact zero_le _
  · next hwrong =>
    have hasked := (hs.idle hcalm.guest).resolve_left hwrong
    have hnot : ¬0 < s.noting := by rw [hcalm.noting]; exact lt_irrefl 0
    obtain ⟨hflag, hframe⟩ := hasked.resolve_right hnot
    exact le_sub_one_of_lt (hnext hflag hframe)

theorem frame_progress (hs : Kept s) (hcalm : Calm s) : ∃ s', step s .frame = some s' ∧ Progress s s' := by
  -- the steps that only move the frame thread and the flag
  have hmove : ∀ next flag, frameStep s = some { s with frame := next, setIrq := flag } →
      (s.setIrq = true → s.frame ≠ .irqDone → next.rank < s.frame.rank) →
      ∃ s', step s .frame = some s' ∧ Progress s s' := by
    intro next flag hstep hrank
    refine ⟨_, hstep, { hcalm with }, frameStep_kept hs hstep, ⟨rfl, id, fun _ => rfl⟩, hs.need_le hcalm rfl rfl hrank⟩
  cases hframe : s.frame
  case head =>
    by_cases hoff : s.Off
    · exact hmove .irq true (by simp [frameStep, hframe, hoff]) fun _ _ => by rw [hframe]; decide
    · refine hmove (if s.setIrq then .irq else .recheck) s.setIrq (by simp [frameStep, hframe, hoff]) ?_
      intro hflag _
      rw [if_pos hflag, hframe]
      decide
  case irq =>
    have hstep : frameStep s = some { s.updateIrq with frame := .irqDone } := by
      simp [frameStep, hframe, hcalm.guest]
    obtain ⟨hfectl, hraised, huntrapped⟩ := updateIrq_later s
    have hneed : State.need { s.updateIrq with frame := .irqDone } = 0 := if_pos (updateIrq_line s)
    refine ⟨_, hstep, ⟨?_, ?_, ?_⟩, frameStep_kept hs hstep,
      ⟨hfectl, hraised, huntrapped⟩, by rw [hneed]; exact zero_le _⟩
    · exact (congrArg State.guest (trapNoted_eq s)).trans hcalm.guest
    · exact (congrArg State.noting (trapNoted_eq s)).trans hcalm.noting
    · exact (congrArg State.voiceLocked (trapNoted_eq s)).trans hcalm.unlocked
  case irqDone =>
    exact hmove .recheck false (by simp [frameStep, hframe]) fun _ hne => absurd hframe hne
  case recheck =>
    refine hmove (if s.Off then .poll else .throttle) s.setIrq (by simp [frameStep, hframe]) fun _ _ => ?_
    rw [hframe]
    split <;> decide
  case poll =>
    exact hmove .head s.setIrq (by simp [frameStep, hframe]) fun _ _ => by rw [hframe]; decide
  case throttle =>
    exact hmove .lists s.setIrq (by simp [frameStep, hframe]) fun _ _ => by rw [hframe]; decide
  case lists =>
    exact hmove .voices s.setIrq (by simp [frameStep, hframe]) fun _ _ => by rw [hframe]; decide
  case trapping =>
    exact hmove .lists true (by simp [frameStep, hframe]) fun _ _ => by rw [hframe]; decide
  case voices =>
    exact hmove .work s.setIrq (by simp [frameStep, hframe, hcalm.unlocked]) fun _ _ => by
      rw [hframe]; decide
  case work =>
    exact hmove .head s.setIrq (by simp [frameStep, hframe, hcalm.noting]) fun _ _ => by rw [hframe]; decide

theorem frames_progress (hs : Kept s) (hcalm : Calm s) (n : Nat) :
    ∃ s', run step s (List.replicate n .frame) = some s' ∧ Later s s' ∧ s'.need ≤ s.need - n := by
  induction n generalizing s with
  | zero => exact ⟨s, rfl, .refl s, le_refl _⟩
  | succ n ih =>
    obtain ⟨s₁, hstep, hprogress⟩ := frame_progress hs hcalm
    obtain ⟨s', hrun, hlater, hneed⟩ := ih hprogress.kept hprogress.calm
    refine ⟨s', ?_, hprogress.later.trans hlater, ?_⟩
    · exact run_cons_eq_some.mpr ⟨s₁, hstep, hrun⟩
    · have := hprogress.need
      omega

theorem need_le (s : State) : s.need ≤ 8 := by
  unfold State.need
  split
  · exact zero_le 8
  · cases s.frame <;> decide

/-- After every run that heeds the condition, eight or more steps of the frame thread alone bring the
line to the level that the enabled status bits ask for. A level that is asked for at the beginning is
still asked for then, and with the front end not trapped no other status bit is set meanwhile. -/
theorem irq_line_follows {es : List Event} {n : Nat} (hrun : run step start es = some s)
    (hmeets : Meets step Heeded start es) (hcalm : Calm s) (hn : 8 ≤ n) :
    ∃ s', run step s (List.replicate n .frame) = some s' ∧ s'.line = s'.raised ∧
      (s.raised = true → s'.raised = true) ∧ (s.fectl &&& 0xE0 = 0 → s'.raised = s.raised) := by
  have hs : Kept s :=
    run_invariant_of_meets Kept (fun _ _ _ hs hok h => step_kept hs hok h) start_kept hmeets hrun
  obtain ⟨s', hrun', hlater, hneed⟩ := frames_progress hs hcalm n
  have hzero : s'.need = 0 := by
    have := need_le s
    omega
  refine ⟨s', hrun', ?_, hlater.raised, hlater.untrapped⟩
  by_contra hwrong
  unfold State.need at hzero
  rw [if_neg hwrong] at hzero
  cases hframe : s'.frame <;> rw [hframe] at hzero <;> cases hzero

def switchedOff : State := { start with ists := 0x60, ien := 0x61, sectl := 8, setIrq := true }

theorem irq_line_follows_voiceOff :
    run step start [.writeIen 0x61, .writeSectl 8, .voiceOff, .guest] = some switchedOff ∧
      switchedOff.raised = true ∧ ∃ s', run step switchedOff (List.replicate 8 .frame) = some s' ∧
        s'.line = true := by
  have hrun : run step start [.writeIen 0x61, .writeSectl 8, .voiceOff, .guest] = some switchedOff := by
    decide +kernel
  obtain ⟨s', hrun', hline, hraised, -⟩ := irq_line_follows hrun (by decide +kernel) ⟨rfl, rfl, rfl⟩
    (le_refl 8)
  have hswitched : switchedOff.raised = true := by decide +kernel
  exact ⟨hrun, hswitched, s', hrun', hline.trans (hraised hswitched)⟩

/-! ## Requests that are forgotten -/

/-- A raised interrupt that the line will not show. -/
structure Forgotten (s : State) : Prop where
  calm : Calm s
  running : ¬s.Off
  flag : s.setIrq = false
  raised : s.raised = true
  line : s.line = false
  frame : s.frame ≠ .irq ∧ s.frame ≠ .irqDone ∧ s.frame ≠ .trapping

theorem Forgotten.step_frame (hs : Forgotten s) : ∃ s', step s .frame = some s' ∧ Forgotten s' := by
  obtain ⟨⟨hguest, hnoting, hlocked⟩, hrunning, hflag, hraised, hline, hirq, hdone, htrap⟩ := hs
  -- every such step moves the frame thread and does nothing else
  have hmove : ∀ next, frameStep s = some { s with frame := next } →
      (next ≠ .irq ∧ next ≠ .irqDone ∧ next ≠ .trapping) → ∃ s', step s .frame = some s' ∧ Forgotten s' :=
    fun next hstep hnext => ⟨_, hstep, ⟨hguest, hnoting, hlocked⟩, hrunning, hflag, hraised, hline, hnext⟩
  cases hframe : s.frame
  case head => exact hmove .recheck (by simp [frameStep, hframe, hrunning, hflag]) (by decide)
  case irq => exact absurd hframe hirq
  case irqDone => exact absurd hframe hdone
  case recheck => exact hmove .throttle (by simp [frameStep, hframe, hrunning]) (by decide)
  case poll => exact hmove .head (by simp [frameStep, hframe]) (by decide)
  case throttle => exact hmove .lists (by simp [frameStep, hframe]) (by decide)
  case lists => exact hmove .voices (by simp [frameStep, hframe]) (by decide)
  case trapping => exact absurd hframe htrap
  case voices => exact hmove .work (by simp [frameStep, hframe, hlocked]) (by decide)
  case work => exact hmove .head (by simp [frameStep, hframe, hnoting]) (by decide)

theorem Forgotten.run_frames (hs : Forgotten s) (n : Nat) :
    ∃ s', run step s (List.replicate n .frame) = some s' ∧ s'.raised = true ∧ s'.line = false := by
  induction n generalizing s with
  | zero => exact ⟨s, rfl, hs.raised, hs.line⟩
  | succ n ih =>
    obtain ⟨s₁, hstep, hs₁⟩ := hs.step_frame
    obtain ⟨s', hrun, hlast⟩ := ih hs₁
    refine ⟨s', ?_, hlast⟩
    exact run_cons_eq_some.mpr ⟨s₁, hstep, hrun⟩

def enabledLate : List Event :=
  [.writeSectl 8, .voiceOff, .guest, .frame, .frame, .frame, .writeIen 0x61]

def notifiedBetween : List Event :=
  [.writeIen 0x61, .frame, .frame, .voiceOff, .guest, .writeSectl 8, .frame]

/-- An interrupt that is due and never reaches the line, however long the frame thread runs. -/
theorem irq_line_forgotten :
    (∃ s, run step start enabledLate = some s ∧ Calm s ∧ ∀ n, ∃ s',
      run step s (List.replicate n .frame) = some s' ∧ s'.raised = true ∧ s'.line = false) ∧
    (∃ s, run step start notifiedBetween = some s ∧ Calm s ∧ ∀ n, ∃ s',
      run step s (List.replicate n .frame) = some s' ∧ s'.raised = true ∧ s'.line = false) := by
  have hlate : run step start enabledLate =
      some { start with ists := 0x60, ien := 0x61, sectl := 8, frame := .recheck } := by
    decide +kernel
  have hbetween : run step start notifiedBetween =
      some { start with ists := 0x60, ien := 0x61, sectl := 8, frame := .recheck } := by
    decide +kernel
  have hforgotten : Forgotten { start with ists := 0x60, ien := 0x61, sectl := 8, frame := .recheck } :=
    ⟨⟨rfl, rfl, rfl⟩, by decide +kernel, rfl, by decide +kernel, rfl, by decide⟩
  exact ⟨⟨_, hlate, hforgotten.calm, hforgotten.run_frames⟩, ⟨_, hbetween, hforgotten.calm, hforgotten.run_frames⟩⟩

end XogMobile.Apu.Irq
