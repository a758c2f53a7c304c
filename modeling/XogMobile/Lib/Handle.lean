import Mathlib.Order.Nat

/-!
# Handles that must be joined once

Threads are numbered in the order they are started. The handle of a thread lies in one shared slot,
or in a local variable of somebody who moved it out of the slot, or has been joined. `Ok` says that
every thread ever started is in exactly one of these places and was joined once if it is in the
last. The three operations keep it: starting a thread into an empty slot, moving the handle out, and
joining a handle that was moved out.
-/

namespace XogMobile.Lib

open Function

variable {τ : Type*}

structure Handles (τ : Type*) where
  slot : Option Nat
  held : τ → Option Nat
  joined : Nat → Nat
  started : Nat

namespace Handles

variable (h : Handles τ)

/-- The handle is in the slot, with one thread or joined once. -/
def Accounted (id : Nat) : Prop :=
  h.slot = some id ∧ (∀ t, h.held t ≠ some id) ∧ h.joined id = 0 ∨
    h.slot ≠ some id ∧ (∃! t, h.held t = some id) ∧ h.joined id = 0 ∨
    h.slot ≠ some id ∧ (∀ t, h.held t ≠ some id) ∧ h.joined id = 1

def Fresh (id : Nat) : Prop :=
  h.slot ≠ some id ∧ (∀ t, h.held t ≠ some id) ∧ h.joined id = 0

structure Ok (h : Handles τ) : Prop where
  accounted : ∀ id < h.started, h.Accounted id
  fresh : ∀ id, h.started ≤ id → h.Fresh id

def start : Handles τ := { h with slot := some h.started, started := h.started + 1 }

variable [DecidableEq τ]

def take (t : τ) (id : Nat) : Handles τ :=
  { h with slot := none, held := Function.update h.held t (some id) }

def join (t : τ) (id : Nat) : Handles τ :=
  { h with
    held := Function.update h.held t none
    joined := Function.update h.joined id (h.joined id + 1) }

variable {h : Handles τ} {t : τ} {id : Nat}

omit [DecidableEq τ] in
theorem Ok.lt_of_slot (hok : h.Ok) (hslot : h.slot = some id) : id < h.started := by
  by_contra hge
  exact (hok.fresh id (Nat.le_of_not_lt hge)).1 hslot

omit [DecidableEq τ] in
theorem Ok.lt_of_held (hok : h.Ok) (hheld : h.held t = some id) : id < h.started := by
  by_contra hge
  exact (hok.fresh id (Nat.le_of_not_lt hge)).2.1 t hheld

omit [DecidableEq τ] in
theorem Ok.start (hok : h.Ok) (hslot : h.slot = none) : h.start.Ok := by
  have hne : ∀ id, id ≠ h.started → h.start.slot ≠ some id := by
    intro id hid heq
    exact hid (Option.some_inj.mp heq).symm
  refine ⟨fun id hlt => ?_, fun id hle => ?_⟩
  · rcases Nat.lt_succ_iff_lt_or_eq.mp hlt with hlt | rfl
    · -- an older thread is not in the slot, so it stays where it is
      rcases hok.accounted id hlt with ⟨hin, -⟩ | ⟨-, hrest⟩ | ⟨-, hrest⟩
      · rw [hslot] at hin
        cases hin
      · exact .inr (.inl ⟨hne id hlt.ne, hrest⟩)
      · exact .inr (.inr ⟨hne id hlt.ne, hrest⟩)
    · exact .inl ⟨rfl, (hok.fresh _ le_rfl).2⟩
  · exact ⟨hne id (by exact Nat.ne_of_gt hle), (hok.fresh id (Nat.le_of_succ_le hle)).2⟩

theorem take_held_of_ne {id' : Nat} (hid : id' ≠ id) (hheld : h.held t = none) (t' : τ) :
    (h.take t id).held t' = some id' ↔ h.held t' = some id' := by
  change update h.held t (some id) t' = some id' ↔ _
  by_cases ht : t' = t
  · rw [ht, update_self, hheld]
    refine ⟨fun heq => absurd (Option.some_inj.mp heq).symm hid, fun heq => ?_⟩
    cases heq
  · rw [update_of_ne ht]

theorem Ok.take (hok : h.Ok) (hslot : h.slot = some id) (hheld : h.held t = none) : (h.take t id).Ok := by
  have hout : ∀ id', (h.take t id).slot ≠ some id' := nofun
  have hbefore : ∀ id', id' ≠ id → h.slot ≠ some id' := by
    intro id' hid heq
    rw [hslot] at heq
    exact hid (Option.some_inj.mp heq).symm
  refine ⟨fun id' hlt => ?_, fun id' hle => ?_⟩
  · by_cases hid : id' = id
    · subst hid
      rcases hok.accounted id' hlt with ⟨-, hnone, hzero⟩ | ⟨hnot, -⟩ | ⟨hnot, -⟩
      · refine .inr (.inl ⟨hout id', ⟨t, update_self .., fun t' ht' => ?_⟩, hzero⟩)
        by_contra hne
        exact hnone t' ((update_of_ne hne _ _).symm.trans ht')
      · exact absurd hslot hnot
      · exact absurd hslot hnot
    · have hsame := take_held_of_ne hid hheld
      rcases hok.accounted id' hlt with ⟨hin, -⟩ | ⟨-, hone, hzero⟩ | ⟨-, hnone, hone⟩
      · exact absurd hin (hbefore id' hid)
      · exact .inr (.inl ⟨hout id', (existsUnique_congr hsame).mpr hone, hzero⟩)
      · exact .inr (.inr ⟨hout id', fun t' => (not_congr (hsame t')).mpr (hnone t'), hone⟩)
  · obtain ⟨-, hnone, hzero⟩ := hok.fresh id' hle
    have hid : id' ≠ id := (Nat.lt_of_lt_of_le (hok.lt_of_slot hslot) hle).ne'
    exact ⟨hout id', fun t' => (not_congr (take_held_of_ne hid hheld t')).mpr (hnone t'), hzero⟩

theorem join_held_of_ne {id' : Nat} (hid : id' ≠ id) (hheld : h.held t = some id) (t' : τ) :
    (h.join t id).held t' = some id' ↔ h.held t' = some id' := by
  change update h.held t none t' = some id' ↔ _
  by_cases ht : t' = t
  · rw [ht, update_self, hheld]
    refine ⟨fun heq => ?_, fun heq => absurd (Option.some_inj.mp heq).symm hid⟩
    cases heq
  · rw [update_of_ne ht]

theorem Ok.join (hok : h.Ok) (hheld : h.held t = some id) : (h.join t id).Ok := by
  refine ⟨fun id' hlt => ?_, fun id' hle => ?_⟩
  · by_cases hid : id' = id
    · subst hid
      rcases hok.accounted id' hlt with ⟨-, hnone, -⟩ | ⟨hnot, hone, hzero⟩ | ⟨-, hnone, -⟩
      · exact absurd hheld (hnone t)
      · refine .inr (.inr ⟨hnot, fun t' ht' => ?_, ?_⟩)
        · by_cases hne : t' = t
          · have hgone : (h.join t id').held t = none := update_self ..
            rw [hne, hgone] at ht'
            cases ht'
          · exact hne (hone.unique ((update_of_ne hne _ _).symm.trans ht') hheld)
        · change update h.joined id' _ id' = 1
          rw [update_self, hzero]
      · exact absurd hheld (hnone t)
    · have hsame := join_held_of_ne hid hheld
      have hcount : (h.join t id).joined id' = h.joined id' := update_of_ne hid _ _
      rcases hok.accounted id' hlt with ⟨hin, hnone, hzero⟩ | ⟨hnot, hone, hzero⟩ |
        ⟨hnot, hnone, hone⟩
      · exact .inl ⟨hin, fun t' => (not_congr (hsame t')).mpr (hnone t'), hcount.trans hzero⟩
      · exact .inr (.inl ⟨hnot, (existsUnique_congr hsame).mpr hone, hcount.trans hzero⟩)
      · exact .inr (.inr ⟨hnot, fun t' => (not_congr (hsame t')).mpr (hnone t'), hcount.trans hone⟩)
  · obtain ⟨hnot, hnone, hzero⟩ := hok.fresh id' hle
    have hid : id' ≠ id := (Nat.lt_of_lt_of_le (hok.lt_of_held hheld) hle).ne'
    refine ⟨hnot, fun t' => (not_congr (join_held_of_ne hid hheld t')).mpr (hnone t'), ?_⟩
    exact (update_of_ne hid _ _).trans hzero

end Handles

end XogMobile.Lib
