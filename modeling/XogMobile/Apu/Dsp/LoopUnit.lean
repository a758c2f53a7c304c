import XogMobile.Apu.Dsp.Opcache
import Mathlib.Logic.Function.Iterate

/-!
# The hardware loops of the DSP interpreter

`DO` and `DOR` push the loop registers and the address of the loop's first instruction; `REP` saves the
loop counter in a register of its own. After every instruction `dsp_postexecute_update_pc` counts the
repetition and makes the test for the end of the innermost loop. No interrupt is pending. What the
other instructions do to registers and memory is a parameter; they leave the loop registers alone.
-/

namespace XogMobile.Apu.Dsp.Loop

open Lib

abbrev Sr := BitVec 16

def lf : Sr := 0x8000

/-- What straight-line code works on: the status register, and the other registers and memory. -/
structure Data (κ : Type) where
  rest : κ
  sr : Sr

variable {κ : Type}

def Data.setLf (d : Data κ) : Data κ := { d with sr := d.sr ||| lf }

/-- An instruction that neither jumps nor touches the loop registers. -/
structure Plain (κ : Type) where
  len : Nat
  len_pos : 0 < len
  act : Data κ → Data κ
  act_lf : ∀ d, (act d).sr &&& lf = d.sr &&& lf

/-- The operand of a loop instruction: a number, a word of memory or a register. Reading it may move an
address register or set a condition code. The loop registers `LA`, `LC`, `SP`, `SSH` and `SSL` are no
operands here: a `DO` has stored `LA` and pushed before it reads `registers[numreg]`. -/
structure Operand (κ : Type) where
  read : Data κ → Nat × Data κ
  read_lf : ∀ d, (read d).2.sr &&& lf = d.sr &&& lf

def Operand.imm (n : BitVec 12) : Operand κ where
  read d := (n.toNat, d)
  read_lf _ := rfl

/-- A `DO` or `DOR` instruction with its second word. -/
structure DoInstr (κ : Type) where
  operand : Operand κ
  relative : Bool
  /-- The operand is read before the loop flag is set. -/
  readsFirst : Bool
  word : Nat

/-- The operand as the instruction reads it, and the data with the loop flag set. -/
def DoInstr.taken (i : DoInstr κ) (d : Data κ) : Nat × Data κ :=
  if i.readsFirst then ((i.operand.read d).1, (i.operand.read d).2.setLf) else i.operand.read d.setLf

variable (x : Operand κ)

def emuDoAa (word : Nat) : DoInstr κ :=
  { operand := x, relative := false, readsFirst := false, word }

def emuDoImm (n : BitVec 12) (word : Nat) : DoInstr κ :=
  { operand := .imm n, relative := false, readsFirst := false, word }

def emuDoEa (word : Nat) : DoInstr κ :=
  { operand := x, relative := false, readsFirst := false, word }

def emuDoReg (word : Nat) : DoInstr κ :=
  { operand := x, relative := false, readsFirst := true, word }

def emuDorImm (n : BitVec 12) (word : Nat) : DoInstr κ :=
  { operand := .imm n, relative := true, readsFirst := false, word }

def emuDorReg (word : Nat) : DoInstr κ :=
  { operand := x, relative := true, readsFirst := false, word }

/-- A `REP` instruction; only the one with a register operand cuts it to 16 bits. -/
structure RepInstr (κ : Type) where
  operand : Operand κ
  masked : Bool

def emuRepAa : RepInstr κ := { operand := x, masked := false }

def emuRepImm (n : BitVec 12) : RepInstr κ := { operand := .imm n, masked := false }

def emuRepEa : RepInstr κ := { operand := x, masked := false }

def emuRepReg : RepInstr κ := { operand := x, masked := true }

inductive Instr (κ : Type)
  | plain (i : Plain κ)
  | doLoop (i : DoInstr κ)
  | rep (i : RepInstr κ)

def Instr.len : Instr κ → Nat
  | .plain i => i.len
  | .doLoop _ => 2
  | .rep _ => 1

structure Machine (κ : Type) where
  pc : Nat
  data : Data κ
  (la lc lcsave : Nat)
  /-- Four bits of stack pointer, the stack error flag and the underflow flag. -/
  sp : BitVec 6
  (ssh ssl : Nat)
  (stackH stackL : BitVec 6 → Nat)
  (loopRep pcOnRep : Bool)

namespace Machine

variable (m : Machine κ)

/-- `dsp_stack_push`; a stack overflow is an assertion. -/
def stackPush (curpc cursr : Nat) : Option (Machine κ) :=
  let stack := (m.sp &&& 0xF) + 1
  if m.sp &&& 0x10 = 0 ∧ stack &&& 0x10 ≠ 0 then none
  else
    let slot := stack &&& 0xF
    let high := if slot ≠ 0 then curpc % 0x10000 else 0
    let low := if slot ≠ 0 then cursr % 0x10000 else 0
    some { m with
      sp := m.sp &&& 0x20 ||| m.sp &&& 0x10 ||| stack
      stackH := Function.update m.stackH slot high
      stackL := Function.update m.stackL slot low
      ssh := high
      ssl := low }

/-- `dsp_stack_pop`: what it returns is in `ssh` and `ssl` before. -/
def stackPop : Option (Machine κ) :=
  let stack := (m.sp &&& 0xF) - 1
  if m.sp &&& 0x10 = 0 ∧ stack &&& 0x10 ≠ 0 then none
  else some { m with
    sp := m.sp &&& 0x20 ||| m.sp &&& 0x10 ||| stack
    ssh := m.stackH (stack &&& 0xF)
    ssl := m.stackL (stack &&& 0xF) }

def setLf : Machine κ := { m with data := m.data.setLf }

def decremented (lc : Nat) : Nat := (lc + 0xFFFF) % 0x10000

def leaveLoop : Option (Machine κ) :=
  m.stackPop.bind fun m₁ =>
    let sr := m.data.sr &&& 0x7F ||| BitVec.ofNat 16 m.ssl &&& lf
    m₁.stackPop.map fun m₂ => { m₂ with data := { m.data with sr }, la := m₁.ssh, lc := m₁.ssl }

def endTest : Option (Machine κ) :=
  if m.data.sr &&& lf ≠ 0 ∧ m.pc = m.la + 1 then
    let lc := decremented m.lc
    if lc = 0 then { m with lc }.leaveLoop else some { m with lc, pc := m.ssh }
  else some m

def updatePc (len : Nat) : Option (Machine κ) :=
  if m.loopRep then
    if m.pcOnRep then
      let lc := if m.lc = 0 then 0x10000 else m.lc
      { m with lc, pcOnRep := false, pc := m.pc + len }.endTest
    else
      let lc := decremented m.lc
      if lc > 0 then { m with lc }.endTest
      else { m with loopRep := false, lc := m.lcsave, pc := m.pc + len }.endTest
  else { m with pc := m.pc + len }.endTest

end Machine

def DoInstr.loopEnd (i : DoInstr κ) (pc : Nat) : Nat :=
  (if i.relative then pc + i.word else i.word) % 0x10000

def DoInstr.emu (i : DoInstr κ) (m : Machine κ) : Option (Machine κ) :=
  (m.stackPush m.la m.lc).bind fun m =>
    let m := { m with la := i.loopEnd m.pc }
    if i.readsFirst then
      let x := i.operand.read m.data
      let m := { m with lc := x.1 % 0x10000, data := x.2 }
      (m.stackPush (m.pc + 2) m.data.sr.toNat).map Machine.setLf
    else
      (m.stackPush (m.pc + 2) m.data.sr.toNat).map fun m =>
        let m := m.setLf
        let x := i.operand.read m.data
        { m with lc := x.1 % 0x10000, data := x.2 }

def RepInstr.emu (i : RepInstr κ) (m : Machine κ) : Machine κ :=
  let x := i.operand.read m.data
  { m with
    lcsave := m.lc, pcOnRep := true, loopRep := true, data := x.2
    lc := if i.masked then x.1 % 0x10000 else x.1 }

def Instr.emu : Instr κ → Machine κ → Option (Machine κ)
  | .plain i, m => some { m with data := i.act m.data }
  | .doLoop i, m => i.emu m
  | .rep i, m => some (i.emu m)

def execute (code : Nat → Option (Instr κ)) (m : Machine κ) : Option (Machine κ) :=
  (code m.pc).bind fun i =>
    if m.pc + i.len ≤ pramSize then (i.emu m).bind (·.updatePc i.len) else none

def executeMany (code : Nat → Option (Instr κ)) (m : Machine κ) (count : Nat) : Option (Machine κ) :=
  run (fun m (_ : Unit) => execute code m) m (List.replicate count ())

/-! ## Programs -/

inductive Block (κ : Type)
  | done
  | plain (i : Plain κ) (rest : Block κ)
  | rep (r : RepInstr κ) (i : Plain κ) (rest : Block κ)
  | loop (i : DoInstr κ) (body rest : Block κ)

def rounds (n : Nat) : Nat := if n % 0x10000 = 0 then 0x10000 else n % 0x10000

def Data.putLf (d : Data κ) (sr : Sr) : Data κ := { d with sr := d.sr &&& ~~~lf ||| sr &&& lf }

namespace Block

def size : Block κ → Nat
  | .done => 0
  | .plain i rest => i.len + rest.size
  | .rep _ i rest => 1 + i.len + rest.size
  | .loop _ body rest => 2 + body.size + rest.size

def depth : Block κ → Nat
  | .done => 0
  | .plain _ rest => rest.depth
  | .rep _ _ rest => rest.depth
  | .loop _ body rest => max (body.depth + 1) rest.depth

/-- What the block is for: every loop body runs as often as its operand says, and a loop leaves the
loop flag as it was. -/
def exec : Block κ → Data κ → Data κ
  | .done, d => d
  | .plain i rest, d => rest.exec (i.act d)
  | .rep r i rest, d => rest.exec (i.act^[rounds (r.operand.read d).1] (r.operand.read d).2)
  | .loop i body rest, d =>
    rest.exec ((body.exec^[rounds (i.operand.read d).1] (i.operand.read d).2.setLf).putLf d.sr)

def Loaded (code : Nat → Option (Instr κ)) : Nat → Block κ → Prop
  | _, .done => True
  | start, .plain i rest => code start = some (.plain i) ∧ Loaded code (start + i.len) rest
  | start, .rep r i rest =>
    code start = some (.rep r) ∧ code (start + 1) = some (.plain i) ∧
      Loaded code (start + 1 + i.len) rest
  | start, .loop i body rest =>
    code start = some (.doLoop i) ∧ i.loopEnd start = start + 1 + body.size ∧ 0 < body.size ∧
      Loaded code (start + 2) body ∧ Loaded code (start + 2 + body.size) rest

def endsWithInstr : Block κ → Bool
  | .done => false
  | .plain _ .done => true
  | .plain _ rest => rest.endsWithInstr
  | .rep _ _ .done => true
  | .rep _ _ rest => rest.endsWithInstr
  | .loop _ _ rest => rest.endsWithInstr

end Block

end XogMobile.Apu.Dsp.Loop
