import Mathlib.Algebra.Order.Field.Rat
import XogMobile.Lib.Run

/-!
# The touch controller in play mode

A finger that comes down in the capture area of a free stick owns it until it is lifted. The other
fingers press the buttons and directions that they lie on. The listener is told what changes, but of
the pause button only that it is pressed.
-/

namespace XogMobile.Android.Touch

open Lib List Function Option

inductive Side where
  | left
  | right
  deriving DecidableEq

/-- The `BTN_` codes. -/
inductive Button where
  | a | b | x | y | dpadLeft | dpadUp | dpadRight | dpadDown | back | start | lb | rb | ls | rs
  deriving DecidableEq

/-- The `AXIS_` codes. -/
inductive Axis where
  | trigger (side : Side)
  | stickX (side : Side)
  | stickY (side : Side)
  deriving DecidableEq

/-- A button of the view by its `kind`, or a direction of its d-pad. -/
inductive Control where
  | button (id : Button)
  | axisDigital (side : Side)
  | pause
  deriving DecidableEq

def buttons : List Control :=
  [.button .a, .button .b, .button .x, .button .y, .button .lb, .button .rb, .axisDigital .left,
    .axisDigital .right, .button .ls, .button .rs, .button .back, .button .start, .pause]

def directions : List Control :=
  [.button .dpadLeft, .button .dpadUp, .button .dpadRight, .button .dpadDown]

def sticks : List Side := [.left, .right]

theorem mem_controls (c : Control) : c ∈ buttons ++ directions := by
  cases c with
  | button id => cases id <;> decide
  | axisDigital side => cases side <;> decide
  | pause => decide

inductive Callback (K : Type*) where
  | onTouchButton (button : Button) (pressed : Bool)
  | onTouchAxis (axis : Axis) (value : K)
  | onTouchPause
  deriving DecidableEq

/-- A stick or the d-pad. -/
structure Disc (K : Type*) where
  (cx cy radius : K)

structure Box (K : Type*) where
  (cx cy halfW halfH : K)

structure Layout (K : Type*) where
  stick : Side → Disc K
  dpad : Disc K
  button : Control → Box K

/-- The `KEY_` names. -/
inductive Key where
  | stick (side : Side)
  | dpad
  | abxy
  | shoulder (side : Side)
  | trigger (side : Side)
  | stickButton (side : Side)
  | back
  | start
  | pause
  deriving DecidableEq

structure TouchControlOverride (K : Type*) [Zero K] [One K] where
  dx : K := 0
  dy : K := 0
  scale : K := 1
  scale2 : K := 1

structure Pointer (K : Type*) where
  id : Nat
  (x y : K)

inductive Action where
  | down
  | pointerDown
  | move
  | pointerUp
  | up
  | cancel
  deriving DecidableEq

/-- An event with the pointer at its action index, and those before and behind it. -/
structure Event (K : Type*) where
  action : Action
  before : List (Pointer K)
  acting : Pointer K
  behind : List (Pointer K)

variable {K : Type*}

def ids (ps : List (Pointer K)) : List Nat := ps.map (·.id)

namespace Event

variable (e : Event K)

def others : List (Pointer K) := e.before ++ e.behind

def pointers : List (Pointer K) := e.before ++ e.acting :: e.behind

def isDown : Bool := e.action = .down ∨ e.action = .pointerDown

def isUp : Bool := e.action = .up ∨ e.action = .pointerUp

/-- The pointers that are still down. -/
def rest : List (Pointer K) := if e.isUp then e.others else e.pointers

/-- `down` and `up` are the first and the last finger of a gesture. -/
def WellFormed (live : List Nat) : Prop :=
  (ids e.pointers).Nodup ∧ live.Perm (ids (if e.isDown then e.others else e.pointers)) ∧
    (e.isDown ∨ e.isUp → (e.action = .down ∨ e.action = .up ↔ ids e.others = []))

instance (live : List Nat) : Decidable (e.WellFormed live) := instDecidableAnd

variable {e}

theorem mem_pointers {a : Nat} : a ∈ ids e.pointers ↔ a = e.acting.id ∨ a ∈ ids e.others := by
  simp [ids, pointers, others, or_left_comm]

theorem WellFormed.acting_not_mem {live : List Nat} (h : e.WellFormed live) : e.acting.id ∉ ids e.others := by
  have hnodup : (ids (e.acting :: e.others)).Nodup := (perm_middle.map _).nodup_iff.mp h.1
  exact (nodup_cons.mp hnodup).1

theorem not_isDown (h : e.isUp) : ¬e.isDown := by
  rw [isUp, isDown] at *
  cases hact : e.action <;> simp_all

end Event

structure View (K : Type*) where
  active : Side → Option Nat
  pressed : Control → Bool
  /-- What the listener has been told. -/
  told : List (Callback K)

def owned (active : Side → Option Nat) (pid : Nat) : Prop :=
  active .left = some pid ∨ active .right = some pid

instance (active : Side → Option Nat) (pid : Nat) : Decidable (owned active pid) := instDecidableOr

variable [Field K]

def applyStick (density baseCx baseCy baseRadius : K) (ov : TouchControlOverride K) : Disc K :=
  ⟨baseCx + ov.dx * density, baseCy + ov.dy * density, baseRadius * ov.scale⟩

def setBox (density baseCx baseCy baseHalfW baseHalfH : K) (ov : TouchControlOverride K) : Box K :=
  ⟨baseCx + ov.dx * density, baseCy + ov.dy * density, baseHalfW * ov.scale, baseHalfH * ov.scale⟩

def layoutControls (density w h : K) (overrideOrDefault : Key → TouchControlOverride K) :
    Layout K :=
  let margin := 14 * density
  let gap := 8 * density
  let stickR := 120 * density / 2
  let roundR := 62 * density / 2
  let smallR := 42 * density / 2
  let pillW := 84 * density
  let pillH := 42 * density
  let spread := 50 * density
  let dpadR := 96 * density / 2
  let leftStickBaseCx := margin + stickR
  let stickBaseCy := h - margin - stickR
  let clusterBaseCx := w - margin - roundR - spread
  let clusterBaseCy := h - margin - roundR - spread
  let rightStickBaseCx := clusterBaseCx - spread - roundR - gap - stickR
  let stickButtonCy := stickBaseCy - stickR - gap - smallR
  let leftPillCx := margin + pillW / 2
  let rightPillCx := w - margin - pillW / 2
  let triggerCy := margin + pillH / 2
  let shoulderCy := margin + pillH + gap + pillH / 2
  let centerY := h - margin - roundR
  let centerGap := roundR * 2 + gap
  let abxyOv := overrideOrDefault .abxy
  let setAbxyBox (dx dy : K) : Box K :=
    let clusterSpread := spread * abxyOv.scale
    let clusterButtonR := roundR * abxyOv.scale2
    ⟨clusterBaseCx + abxyOv.dx * density + dx * clusterSpread,
      clusterBaseCy + abxyOv.dy * density + dy * clusterSpread, clusterButtonR, clusterButtonR⟩
  let disc key cx radius := applyStick density cx stickBaseCy radius (overrideOrDefault key)
  let round key cx cy radius := setBox density cx cy radius radius (overrideOrDefault key)
  let pill key cx cy := setBox density cx cy (pillW / 2) (pillH / 2) (overrideOrDefault key)
  { stick
      | .left => disc (.stick .left) leftStickBaseCx stickR
      | .right => disc (.stick .right) rightStickBaseCx stickR
    dpad := disc .dpad (leftStickBaseCx + stickR + gap + dpadR) dpadR
    button
      | .button .y => setAbxyBox 0 (-1)
      | .button .a => setAbxyBox 0 1
      | .button .x => setAbxyBox (-1) 0
      | .button .b => setAbxyBox 1 0
      | .button .ls => round (.stickButton .left) leftStickBaseCx stickButtonCy smallR
      | .button .rs => round (.stickButton .right) rightStickBaseCx stickButtonCy smallR
      | .axisDigital .left => pill (.trigger .left) leftPillCx triggerCy
      | .button .lb => pill (.shoulder .left) leftPillCx shoulderCy
      | .axisDigital .right => pill (.trigger .right) rightPillCx triggerCy
      | .button .rb => pill (.shoulder .right) rightPillCx shoulderCy
      | .button .back => round .back (w / 2 - centerGap) centerY roundR
      | .pause => round .pause (w / 2) centerY roundR
      | .button .start => round .start (w / 2 + centerGap) centerY roundR
      -- the directions have no box of their own
      | .button _ => ⟨0, 0, 0, 0⟩ }

def level (down : Bool) : K := if down then 1 else 0

def Control.report (down : Bool) : Control → List (Callback K)
  | .button id => [.onTouchButton id down]
  | .axisDigital side => [.onTouchAxis (.trigger side) (level down)]
  | .pause => if down then [.onTouchPause] else []

def setButtonPressed (pressed down : Control → Bool) (c : Control) : List (Callback K) :=
  if pressed c = down c then [] else c.report (down c)

def setDpadDirections (pressed down : Control → Bool) : List (Callback K) :=
  directions.flatMap (setButtonPressed pressed down)

def tellAxes (side : Side) (x y : K) : List (Callback K) :=
  [.onTouchAxis (.stickX side) x, .onTouchAxis (.stickY side) y]

def releaseStick (active : Side → Option Nat) (side : Side) : List (Callback K) :=
  if active side = none then [] else tellAxes side 0 0

/-- What the listener knows. -/
structure Pad (K : Type*) where
  button : Button → Bool
  axis : Axis → K

def Pad.hear (pad : Pad K) : Callback K → Pad K
  | .onTouchButton id down => { pad with button := update pad.button id down }
  | .onTouchAxis axis x => { pad with axis := update pad.axis axis x }
  | .onTouchPause => pad

def replay (told : List (Callback K)) : Pad K := told.foldl Pad.hear ⟨fun _ => false, fun _ => 0⟩

def Pad.Shows (pad : Pad K) (down : Bool) : Control → Prop
  | .button id => pad.button id = down
  | .axisDigital side => pad.axis (.trigger side) = level down
  | .pause => True

def Pad.Centred (pad : Pad K) (side : Side) : Prop :=
  pad.axis (.stickX side) = 0 ∧ pad.axis (.stickY side) = 0

/-- The pad that the listener keeps shows what the view does. -/
structure Synced (pad : Pad K) (active : Side → Option Nat) (pressed : Control → Bool) : Prop where
  shown : ∀ c, pad.Shows (pressed c) c
  centred : ∀ side, active side = none → pad.Centred side

/-- Nothing is told of a stick that stays as it is, or else its axes: zero when it becomes free. -/
def Tells (tell : List (Callback K)) (side : Side) (owner owner' : Option Nat) : Prop :=
  tell = [] ∧ (owner' = none → owner = none) ∨
    ∃ x y, tell = tellAxes side x y ∧ (owner' = none → x = 0 ∧ y = 0)

variable {pad : Pad K} {active active' : Side → Option Nat} {pressed down : Control → Bool}

theorem Synced.sticks (h : Synced pad active pressed) {tell : Side → List (Callback K)}
    (htell : ∀ side, Tells (tell side) side (active side) (active' side)) :
    Synced ((sticks.flatMap tell).foldl Pad.hear pad) active' pressed := by
  obtain ⟨hshown, hcentred⟩ := h
  rcases htell .left with ⟨hl, hl'⟩ | ⟨x, y, hl, hl'⟩ <;> rcases htell .right with ⟨hr, hr'⟩ | ⟨x', y', hr, hr'⟩ <;>
    simp only [Touch.sticks, flatMap_cons, flatMap_nil, hl, hr, tellAxes, foldl_append] <;>
    refine ⟨fun c => ?_, fun side hside => ?_⟩
  any_goals
    specialize hshown c
    cases c <;> simp_all [Pad.Shows, Pad.hear]
  all_goals cases side <;> simp_all [Pad.Centred, Pad.hear]

theorem shows_report {c c' : Control} {x : Bool} (hne : c' ≠ c) (b : Bool) :
    ((c.report b).foldl Pad.hear pad).Shows x c' ↔ pad.Shows x c' := by
  cases c <;> cases c' <;> cases b <;> simp_all [Control.report, Pad.hear, Pad.Shows]

theorem shows_report_self (c : Control) (b : Bool) : ((c.report b).foldl Pad.hear pad).Shows b c := by
  cases c <;> simp [Control.report, Pad.hear, Pad.Shows]

theorem centred_report {side : Side} (c : Control) (b : Bool) :
    ((c.report b).foldl Pad.hear pad).Centred side ↔ pad.Centred side := by
  cases c <;> cases b <;> simp [Control.report, Pad.hear, Pad.Centred]

theorem synced_controls (cs : List Control) (hshown : ∀ c, pad.Shows (down c) c ∨ pad.Shows (pressed c) c ∧ c ∈ cs)
    (hcentred : ∀ side, active side = none → pad.Centred side) :
    Synced ((cs.flatMap (setButtonPressed pressed down)).foldl Pad.hear pad) active down := by
  induction cs generalizing pad with
  | nil => exact ⟨fun c => (hshown c).resolve_right fun h => not_mem_nil h.2, hcentred⟩
  | cons c' cs ih =>
    rw [flatMap_cons, foldl_append, setButtonPressed]
    refine ih (fun c => ?_) fun side hside => ?_ <;> split
    · rcases hshown c with h | h
      · exact .inl h
      · grind
    · rcases eq_or_ne c c' with rfl | hne
      · exact .inl (shows_report_self c _)
      · rw [shows_report hne, shows_report hne]
        exact (hshown c).imp_right fun h => ⟨h.1, (mem_cons.mp h.2).resolve_left hne⟩
    · exact hcentred side hside
    · exact (centred_report c' _).mpr (hcentred side hside)

theorem Synced.controls {cs : List Control} (h : Synced pad active pressed) (hcs : ∀ c, c ∈ cs) :
    Synced ((cs.flatMap (setButtonPressed pressed down)).foldl Pad.hear pad) active down :=
  synced_controls cs (fun c => .inr ⟨h.shown c, hcs c⟩) h.centred

theorem replay_append (told told' : List (Callback K)) :
    replay (told ++ told') = told'.foldl Pad.hear (replay told) := foldl_append

theorem tells_release (side : Side) : Tells (releaseStick active side : List (Callback K)) side (active side) none := by
  rw [releaseStick]
  split
  · exact .inl ⟨rfl, fun _ => ‹_›⟩
  · exact .inr ⟨0, 0, rfl, fun _ => ⟨rfl, rfl⟩⟩

theorem tells_lifted (side : Side) (lifted : Prop) [Decidable lifted] :
    Tells (if lifted then releaseStick active side else [] : List (Callback K)) side (active side)
      (if lifted then none else active side) := by
  split
  · exact tells_release side
  · exact .inl ⟨rfl, id⟩

variable [LinearOrder K]

def Disc.contains (d : Disc K) (scale : K) (p : Pointer K) : Bool :=
  let dx := p.x - d.cx
  let dy := p.y - d.cy
  dx * dx + dy * dy ≤ d.radius * scale * (d.radius * scale)

def Box.contains (b : Box K) (p : Pointer K) : Bool :=
  |p.x - b.cx| ≤ b.halfW * (23 / 20) ∧ |p.y - b.cy| ≤ b.halfH * (23 / 20)

variable (L : Layout K)

def captures (side : Side) (p : Pointer K) : Bool := (L.stick side).contains (3 / 2) p

def tryEngageStick (p : Pointer K) (side : Side) (owner : Option Nat) : Option Nat :=
  if owner = none ∧ captures L side p then some p.id else owner

/-- Nothing depends on the distance, so that `hypot` may be any function. -/
def updateStick (hypot : K → K → K) (e : Event K) (active : Side → Option Nat) (side : Side) :
    List (Callback K) :=
  match e.pointers.find? fun p => active side = some p.id with
  | none => []
  | some p =>
    let s := L.stick side
    let dx := p.x - s.cx
    let dy := p.y - s.cy
    let dist := hypot dx dy
    let scale := if s.radius < dist then s.radius / dist else 1
    tellAxes side (dx * scale / s.radius) (dy * scale / s.radius)

/-- The direction that `updateDpad` takes from a pointer. -/
def direction (p : Pointer K) : Option Button :=
  let dx := p.x - L.dpad.cx
  let dy := p.y - L.dpad.cy
  if L.dpad.contains 1 p then
    if |dy| < |dx| then if 0 < dx then some .dpadRight else some .dpadLeft
    else if 0 < dy then some .dpadDown else some .dpadUp
  else none

def touches (p : Pointer K) (c : Control) : Bool :=
  if c ∈ directions then (direction L p).map .button = some c else (L.button c).contains p

def pressing (e : Event K) (active : Side → Option Nat) (c : Control) : Bool :=
  e.rest.any fun p => ¬owned active p.id ∧ touches L p c

def engaged (v : View K) (e : Event K) (side : Side) : Option Nat :=
  if e.isDown then tryEngageStick L e.acting side (v.active side) else v.active side

def onTouchEvent (hypot : K → K → K) (v : View K) (e : Event K) : View K :=
  if e.action = .cancel then
    { active := fun _ => none
      pressed := fun _ => false
      told := v.told ++ sticks.flatMap (releaseStick v.active) ++
        (buttons.flatMap (setButtonPressed v.pressed fun _ => false) ++
          setDpadDirections v.pressed fun _ => false) }
  else
    let lifted side := e.isUp ∧ engaged L v e side = some e.acting.id
    let active side := if lifted side then none else engaged L v e side
    { active
      pressed := pressing L e active
      told := v.told ++ sticks.flatMap (updateStick L hypot e (engaged L v e)) ++
        (sticks.flatMap fun side => if lifted side then releaseStick (engaged L v e) side else []) ++
        (setDpadDirections v.pressed (pressing L e active) ++
          buttons.flatMap (setButtonPressed v.pressed (pressing L e active))) }

/-- The pointers on the screen, and the view. -/
structure State (K : Type*) where
  live : List Nat
  view : View K

def start : State K := { live := [], view := ⟨fun _ => none, fun _ => false, []⟩ }

def step (hypot : K → K → K) (s : State K) (e : Event K) : Option (State K) :=
  if e.WellFormed s.live then
    some
      { live := if e.action = .cancel then [] else ids e.rest
        view := onTouchEvent L hypot s.view e }
  else none

variable {L} {hypot : K → K → K} {s s' : State K} {v : View K} {e : Event K}

theorem tells_update (side : Side) (h : active' side = none → active side = none) :
    Tells (updateStick L hypot e active' side) side (active side) (active' side) := by
  rw [updateStick]
  split
  · exact .inl ⟨rfl, h⟩
  · rename_i hp
    exact .inr ⟨_, _, rfl, fun hnone => by simpa [hnone] using find?_some hp⟩

theorem Synced.onTouchEvent (h : Synced (replay v.told) v.active v.pressed) :
    Synced (replay (onTouchEvent L hypot v e).told) (onTouchEvent L hypot v e).active
      (onTouchEvent L hypot v e).pressed := by
  rw [Touch.onTouchEvent]
  split <;> simp only [replay_append, setDpadDirections, ← flatMap_append]
  · exact .controls (.sticks h tells_release) mem_controls
  · refine .controls (.sticks (.sticks h fun side => tells_update side ?_) fun side => ?_)
      fun c => perm_append_comm.mem_iff.mp (mem_controls c)
    · grind [engaged, tryEngageStick]
    · exact tells_lifted side _

theorem Tells.count_pause {tell : List (Callback K)} {side : Side} {owner owner' : Option Nat}
    (h : Tells tell side owner owner') : tell.count .onTouchPause = 0 := by
  rcases h with ⟨rfl, -⟩ | ⟨x, y, rfl, -⟩ <;> simp [tellAxes]

theorem count_pause_sticks {tell : Side → List (Callback K)} {owner owner' : Side → Option Nat}
    (h : ∀ side, Tells (tell side) side (owner side) (owner' side)) :
    (sticks.flatMap tell).count .onTouchPause = 0 := by
  simp [sticks, (h _).count_pause]

theorem count_pause_controls (cs : List Control) :
    (cs.flatMap (setButtonPressed pressed down) : List (Callback K)).count .onTouchPause =
      cs.count .pause * if !pressed .pause && down .pause then 1 else 0 := by
  induction cs with
  | nil => simp
  | cons c cs ih =>
    rw [flatMap_cons, count_append, ih, count_cons, setButtonPressed]
    cases c <;> cases hp : pressed .pause <;> cases hd : down .pause <;> split <;>
      simp_all [Control.report, add_comm]

theorem onTouchEvent_count_pause : (onTouchEvent L hypot v e).told.count .onTouchPause =
    v.told.count .onTouchPause +
      if !v.pressed .pause && (onTouchEvent L hypot v e).pressed .pause then 1 else 0 := by
  rw [onTouchEvent]
  split <;> simp only [setDpadDirections, count_append, count_pause_controls]
  · rw [count_pause_sticks tells_release]
    simp
  · rw [count_pause_sticks fun side => tells_update side id,
      count_pause_sticks fun side => tells_lifted side _]
    simp [buttons, directions]

theorem step_eq_some (h : step L hypot s e = some s') : e.WellFormed s.live ∧
    s' = { live := if e.action = .cancel then [] else ids e.rest
           view := Touch.onTouchEvent L hypot s.view e } :=
  (ite_none_right_eq_some.mp h).imp_right fun h => (some.inj h).symm

/-- A stick follows only pointers that are on the screen. -/
def Held (s : State K) : Prop := ∀ side, ∀ pid ∈ s.view.active side, pid ∈ s.live

/-- No pointer moves both sticks. -/
def Sole (active : Side → Option Nat) : Prop :=
  ∀ pid, active .left = some pid → active .right ≠ some pid

theorem onTouchEvent_active (side : Side) (pid : Nat) : (onTouchEvent L hypot v e).active side = some pid ↔
      e.action ≠ .cancel ∧ (v.active side = some pid ∧ ¬(e.isUp ∧ pid = e.acting.id) ∨
        e.isDown ∧ v.active side = none ∧ captures L side e.acting ∧ pid = e.acting.id) := by
  have hdown := e.not_isDown
  rw [onTouchEvent]
  split <;> grind [engaged, tryEngageStick]

theorem onTouchEvent_pressed {c : Control} (h : (onTouchEvent L hypot v e).pressed c) : e.action ≠ .cancel ∧
      ∃ p ∈ e.rest, ¬owned (onTouchEvent L hypot v e).active p.id ∧ touches L p c := by
  rw [onTouchEvent] at *
  split at h
  · cases h
  · rw [if_neg ‹_›]
    obtain ⟨p, hp, h⟩ := List.any_eq_true.mp h
    exact ⟨‹_›, p, hp, of_decide_eq_true h⟩

theorem Held.step (h : Held s) (hs : step L hypot s e = some s') : Held s' := by
  obtain ⟨⟨-, hperm, -⟩, rfl⟩ := step_eq_some hs
  intro side pid hpid
  have hlive := h side pid
  have hactive := (onTouchEvent_active side pid).mp hpid
  rw [hperm.mem_iff] at hlive
  grind [Event.rest, Event.mem_pointers, Event.not_isDown]

/-- After an event no finger owns both sticks, what is pressed is pressed by a finger that owns none, and
a finger that is still down owns what it did. -/
def Exclusive (L : Layout K) (hypot : K → K → K) (s : State K) (e : Event K) : Prop :=
  ∀ s', Touch.step L hypot s e = some s' → Sole s'.view.active ∧
    (∀ c, s'.view.pressed c → ∃ p ∈ e.rest, ¬owned s'.view.active p.id ∧ touches L p c) ∧
    ∀ side, ∀ pid ∈ s'.live, s.view.active side = some pid → s'.view.active side = some pid

/-- No finger comes down in both capture areas while both sticks are free. -/
def Apart (L : Layout K) (s : State K) (e : Event K) : Prop :=
  e.WellFormed s.live → e.isDown → s.view.active .left = none → s.view.active .right = none →
    captures L .left e.acting → ¬captures L .right e.acting

theorem Exclusive.apart (h : Exclusive L hypot s e) : Apart L s e := by
  intro hwf hdown hleft hright hcl hcr
  have hsole := (h _ (if_pos hwf)).1 e.acting.id
  have hcancel : e.action ≠ .cancel := by
    intro hcancel
    simp [Event.isDown, hcancel] at hdown
  rw [ne_eq, onTouchEvent_active, onTouchEvent_active] at hsole
  grind

theorem Apart.exclusive (h : Apart L s e) (hypot : K → K → K) (hheld : Held s)
    (hsole : Sole s.view.active) : Exclusive L hypot s e := by
  intro s' hs
  obtain ⟨hwf, rfl⟩ := step_eq_some hs
  have hnew := hwf.acting_not_mem
  refine ⟨fun pid => ?_, fun c hc => (onTouchEvent_pressed hc).2, fun side pid hpid hside => ?_⟩
  · have hleft := hheld .left e.acting.id
    have hright := hheld .right e.acting.id
    rw [hwf.2.1.mem_iff] at hleft hright
    rw [ne_eq, onTouchEvent_active, onTouchEvent_active]
    grind [h hwf, hsole pid]
  · rw [onTouchEvent_active]
    grind [Event.rest]

theorem meets_exclusive_iff (es : List (Event K)) (hheld : Held s) (hsole : Sole s.view.active) :
    Meets (step L hypot) (Exclusive L hypot) s es ↔ Meets (step L hypot) (Apart L) s es := by
  induction es generalizing s with
  | nil => exact Iff.rfl
  | cons e es ih =>
    constructor
    · intro h
      refine ⟨h.1.apart, fun s' hs => ?_⟩
      exact (ih (hheld.step hs) (h.1 s' hs).1).mp (h.2 s' hs)
    · intro h
      have hexclusive := h.1.exclusive hypot hheld hsole
      refine ⟨hexclusive, fun s' hs => ?_⟩
      exact (ih (hheld.step hs) (hexclusive s' hs).1).mpr (h.2 s' hs)

/-- Fingers on the sticks stay apart exactly when no finger comes down on both sticks while they are free. -/
theorem touch_exclusive_iff (hypot : K → K → K) (L : Layout K) (es : List (Event K)) :
    Meets (step L hypot) (Exclusive L hypot) start es ↔ Meets (step L hypot) (Apart L) start es :=
  meets_exclusive_iff es nofun nofun

/-- The user has dragged the right stick onto the left one. -/
def overlaid : Layout ℚ :=
  layoutControls 1 1280 720 fun key => if key = .stick .right then { dx := -962 } else {}

def finger (action : Action) (x y : ℚ) : Event ℚ := ⟨action, [], ⟨0, x, y⟩, []⟩

/-- One finger on two overlaid sticks owns both. -/
theorem two_sticks_owned :
    ∃ s, run (step overlaid fun _ _ => 0) start [finger .down 74 646] = some s ∧
      s.view.active .left = some 0 ∧ s.view.active .right = some 0 := by
  decide +kernel

structure Settled (s : State K) : Prop where
  synced : Synced (replay s.view.told) s.view.active s.view.pressed
  held : Held s
  released : s.live = [] → ∀ c, s.view.pressed c = false

theorem Settled.step (h : Settled s) (hs : step L hypot s e = some s') : Settled s' := by
  refine ⟨?_, h.held.step hs, ?_⟩
  · obtain ⟨-, rfl⟩ := step_eq_some hs
    exact h.synced.onTouchEvent
  · obtain ⟨-, rfl⟩ := step_eq_some hs
    intro hlive c
    by_contra hc
    obtain ⟨hcancel, p, hp, -⟩ := onTouchEvent_pressed (Bool.eq_true_of_not_eq_false hc)
    rw [if_neg hcancel, ids, map_eq_nil_iff] at hlive
    exact not_mem_nil (hlive ▸ hp)

/-- In every run the listener, which starts with all buttons up and all axes at zero, has heard of each
button and each trigger what the view shows. Once no finger is down it has heard that all is released.
`onTouchPause` is called once by an event that presses the pause button and by no other. -/
theorem listener_shows (es : List (Event K)) (h : run (step L hypot) start es = some s) :
    (∀ id, (replay s.view.told).button id = s.view.pressed (.button id)) ∧
    (∀ side, (replay s.view.told).axis (.trigger side) =
      level (s.view.pressed (.axisDigital side))) ∧
    (s.live = [] → (∀ id, (replay s.view.told).button id = false) ∧
      ∀ axis, (replay s.view.told).axis axis = 0) ∧
    ∀ e s', step L hypot s e = some s' → s'.view.told.count .onTouchPause =
      s.view.told.count .onTouchPause +
        if !s.view.pressed .pause && s'.view.pressed .pause then 1 else 0 := by
  have hs : Settled s := by
    refine run_invariant _ (fun _ _ _ => Settled.step) ?_ h
    refine ⟨⟨?_, fun _ _ => ⟨rfl, rfl⟩⟩, nofun, fun _ _ => rfl⟩
    rintro (_ | _ | _) <;> trivial
  refine ⟨fun id => hs.synced.shown (.button id), fun side => hs.synced.shown (.axisDigital side),
    fun hlive => ?_, fun e s' hs' => ?_⟩
  · have hactive (side : Side) : s.view.active side = none :=
      eq_none_iff_forall_not_mem.mpr fun pid hpid => not_mem_nil (hlive ▸ hs.held side pid hpid)
    refine ⟨fun id => (hs.synced.shown (.button id)).trans (hs.released hlive _), fun axis => ?_⟩
    cases axis with
    | trigger side =>
      exact (hs.synced.shown (.axisDigital side)).trans (congrArg level (hs.released hlive _))
    | stickX side => exact (hs.synced.centred side (hactive side)).1
    | stickY side => exact (hs.synced.centred side (hactive side)).2
  · obtain ⟨-, rfl⟩ := step_eq_some hs'
    exact onTouchEvent_count_pause

def second (action : Action) (x y : ℚ) : Event ℚ := ⟨action, [⟨0, 1185, 675⟩], ⟨1, x, y⟩, []⟩

/-- One finger stays on A while another presses and leaves the pause button and then takes the sticks;
then the gesture is cancelled. -/
def cancelled : List (Event ℚ) :=
  [finger .down 1185 675, second .pointerDown 640 675, second .pointerUp 640 675,
    second .pointerDown 90 646, second .cancel 90 646]

theorem listener_shows_cancelled :
    (∃ s s', run (step overlaid fun _ _ => 0) start (cancelled.take 2) = some s ∧
      (replay s.view.told).button .a = s.view.pressed (.button .a) ∧
      s.view.pressed (.button .a) = true ∧ s.view.pressed .pause = true ∧
      step overlaid (fun _ _ => 0) s (second .pointerUp 640 675) = some s' ∧
      s'.view.pressed .pause = false ∧ s'.view.told.count .onTouchPause = s.view.told.count .onTouchPause) ∧
    ∃ s, run (step overlaid fun _ _ => 0) start cancelled = some s ∧
      ∀ axis, (replay s.view.told).axis axis = 0 := by
  constructor
  · obtain ⟨s, hrun, ha, hpause, s', hs', hup⟩ : ∃ s,
        run (step overlaid fun _ _ => 0) start (cancelled.take 2) = some s ∧
        s.view.pressed (.button .a) = true ∧ s.view.pressed .pause = true ∧
        ∃ s', step overlaid (fun _ _ => 0) s (second .pointerUp 640 675) = some s' ∧
          s'.view.pressed .pause = false := by decide +kernel
    obtain ⟨hbutton, -, -, hcount⟩ := listener_shows _ hrun
    refine ⟨s, s', hrun, hbutton .a, ha, hpause, hs', hup, ?_⟩
    rw [hcount _ s' hs', hpause]
    rfl
  · obtain ⟨s, hrun, hlive⟩ : ∃ s, run (step overlaid fun _ _ => 0) start cancelled = some s ∧
        s.live = [] := by decide +kernel
    exact ⟨s, hrun, ((listener_shows _ hrun).2.2.1 hlive).2⟩

/-- The listener is told the same of a finger on the pause button and of one that has left it. -/
theorem pause_stays :
    (∃ s, run (step overlaid fun _ _ => 0) start [finger .down 640 675] = some s ∧
      s.view.told = [.onTouchPause] ∧ s.view.pressed .pause = true) ∧
    ∃ s, run (step overlaid fun _ _ => 0) start [finger .down 640 675, finger .up 640 675] =
        some s ∧ s.view.told = [.onTouchPause] ∧ s.view.pressed .pause = false := by
  decide +kernel

end XogMobile.Android.Touch
