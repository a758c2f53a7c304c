import XogMobile.Lib.Bytes
import XogMobile.Lib.Run

/-!
# The configuration registers of the LPC47M157

An index port selects a register and a data port reads or writes it. Registers below `MAX_CONFIG_REG`
are global, the others belong to the device whose number is in a global one. The registers of all
devices are rows of one array, and a row ends before the last index: what it names is the first element
of the next row, which no other index names, and for the last device an element past the array.
-/

namespace XogMobile.Xbox.SuperIo

open Lib Function

inductive Register
  | global (r : Nat)
  | device (d r : Nat)
deriving DecidableEq

namespace Register

/-- The element that is found for a register; `device_regs` has `MAX_DEVICE_REGS` in a row. -/
def place : Register → Register
  | .global r => .global r
  | .device d r => .device (d + r / 0xff) (r % 0xff)

/-- The element is in `config_regs`, or in one of the `MAX_DEVICE` rows of `device_regs`. -/
def InArray : Register → Prop
  | .global r => r < 0x30
  | .device d r => d < 0xc ∧ r < 0xff

instance (n : Register) : Decidable n.InArray := by
  cases n <;> unfold InArray <;> infer_instance

/-- The index of the register is one that the port takes for it. -/
def Named : Register → Prop
  | .global r => r < 0x30
  | .device _ r => 0x30 ≤ r ∧ r ≤ 0xff

theorem place_inj {n n' : Register} (hn : n.Named) (hn' : n'.Named) : n.place = n'.place ↔ n = n' := by
  refine ⟨fun h => ?_, congrArg place⟩
  cases n <;> cases n' <;> simp only [place, Named, global.injEq, device.injEq, reduceCtorEq] at * <;> omega

end Register

/-- Byte accesses to the two ports; the other one is the index port. -/
inductive Access
  | write (data : Bool) (val : Byte)
  | read (data : Bool)

structure State where
  configurationMode : Bool
  selectedReg : Byte
  regs : Register → Byte

namespace State

def device (s : State) : Nat := (s.regs (.global 7)).toNat

def named (s : State) : Register :=
  if s.selectedReg.toNat < 0x30 then .global s.selectedReg.toNat else .device s.device s.selectedReg.toNat

/-- The assertion on the number of the device. -/
def InRange (s : State) : Prop := s.selectedReg.toNat < 0x30 ∨ s.device < 0xc

instance (s : State) : Decidable s.InRange := inferInstanceAs (Decidable (_ ∨ _))

def ioWrite (s : State) (data : Bool) (val : Byte) : Option State :=
  if data = false ∧ (val = 0x55 ∨ val = 0xaa) then
    some { s with configurationMode := decide (val = 0x55) }
  else if s.configurationMode then
    if data then
      if s.InRange then some { s with regs := update s.regs s.named.place val } else none
    else some { s with selectedReg := val }
  else some s

def ioRead (s : State) (data : Bool) : Option Byte :=
  if s.configurationMode ∧ data then
    if s.InRange then some (s.regs s.named.place) else none
  else some 0

def step (s : State) : Access → Option State
  | .write data val => s.ioWrite data val
  | .read data => (s.ioRead data).map fun _ => s

/-- The register and the value of a write to the data port. -/
def written (s : State) : Access → Option (Register × Byte)
  | .write true val => if s.configurationMode then some (s.named, val) else none
  | _ => none

/-- The last value that a run writes to a register, from a first one on. -/
def lastWritten (n : Register) (v : Byte) : State → List Access → Byte
  | _, [] => v
  | s, e :: es =>
    (s.step e).elim v fun s' =>
      lastWritten n ((s.written e).elim v fun w => if w.1 = n then w.2 else v) s' es

/-- The access goes to the data port, is not ignored and passes the assertion. -/
def Reaches (s : State) : Access → Prop
  | .write data _ | .read data => s.configurationMode = true ∧ data = true ∧ s.InRange

theorem named_named (s : State) : s.named.Named := by
  have := s.selectedReg.isLt
  rw [named]
  split <;> simp only [Register.Named] <;> omega

/-- An access leaves the arrays at the last index of the last device only. -/
theorem place_inArray_iff {s : State} (h : s.InRange) :
    s.named.place.InArray ↔ ¬ (s.selectedReg.toNat = 0xff ∧ s.device = 0xb) := by
  have := s.selectedReg.isLt
  rw [InRange] at h
  rw [named]
  split <;> simp only [Register.place, Register.InArray] <;> omega

theorem step_regs {s s' : State} {e : Access} (h : s.step e = some s') {n : Register} (hn : n.Named) :
    s'.regs n.place = (s.written e).elim (s.regs n.place) fun w => if w.1 = n then w.2 else s.regs n.place := by
  cases e with
  | write data val =>
    change s.ioWrite data val = some s' at h
    rw [ioWrite] at h
    split at h
    next hkey =>
      cases h
      rw [hkey.1]
      rfl
    next =>
      cases data <;> split at h
      next => cases h; rfl
      next => cases h; rfl
      next hmode =>
        obtain ⟨-, hs⟩ := Option.ite_none_right_eq_some.mp h
        cases hs
        rw [written, if_pos hmode]
        exact (update_apply ..).trans (if_congr (eq_comm.trans (Register.place_inj s.named_named hn)) rfl rfl)
      next hmode =>
        cases h
        rw [written, if_neg hmode]
        rfl
  | read data =>
    obtain ⟨_, -, rfl⟩ := Option.map_eq_some_iff.mp h
    rfl

theorem run_regs {s t : State} {es : List Access} (h : run step s es = some t) {n : Register} (hn : n.Named) :
    t.regs n.place = lastWritten n (s.regs n.place) s es := by
  induction es generalizing s with
  | nil =>
    cases h
    rfl
  | cons e es ih =>
    obtain ⟨s', hstep, hrest⟩ := run_cons_eq_some.mp h
    rw [ih hrest, step_regs hstep hn, lastWritten, hstep]
    rfl

/-- No access leaves the arrays, each register holds what was last written to it, and a read returns
that, if and only if the last index is not used while the last device is selected. -/
theorem run_iff (s : State) (es : List Access) :
    (∃ t, run step s es = some t ∧
      Meets step (fun s e => s.Reaches e → s.named.place.InArray) s es ∧
      (∀ n : Register, n.Named → t.regs n.place = lastWritten n (s.regs n.place) s es) ∧
      (t.Reaches (.read true) → t.ioRead true = some (lastWritten t.named (s.regs t.named.place) s es))) ↔
    ∃ t, run step s es = some t ∧
      Meets step (fun s e => s.Reaches e → ¬ (s.selectedReg.toNat = 0xff ∧ s.device = 0xb)) s es := by
  have hcond : (fun (s : State) e => s.Reaches e → s.named.place.InArray) =
      fun s e => s.Reaches e → ¬ (s.selectedReg.toNat = 0xff ∧ s.device = 0xb) := by
    funext s e
    refine propext (imp_congr_right fun hreach => place_inArray_iff ?_)
    cases e <;> exact hreach.2.2
  rw [hcond]
  refine exists_congr fun t => ⟨fun h => ⟨h.1, h.2.1⟩, fun ⟨hrun, hmeets⟩ => ?_⟩
  refine ⟨hrun, hmeets, fun n hn => run_regs hrun hn, fun ⟨hmode, _, hrange⟩ => ?_⟩
  rw [ioRead, if_pos ⟨hmode, rfl⟩, if_pos hrange, run_regs hrun t.named_named]

/-- The last register of the last device is past the array. -/
theorem last_index_misses :
    let s : State := ⟨true, 0xff, fun n => if n = .global 7 then 0xb else 0⟩
    (s.step (.write true 1)).map (fun t => t.regs (.device 0xc 0)) = some 1 ∧
      ¬ (Register.device 0xc 0).InArray := by
  decide

end State

end XogMobile.Xbox.SuperIo
