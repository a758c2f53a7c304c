import XogMobile.Nv2a.Vertices

/-!
# The state of PGRAPH

The state is split by who reads it. `Control` is what the FIFO engine looks at: the registers and
the three flags that make it wait. `Vertices` is what `flush_draw` draws. `Aux` is the rest, which
only the renderer reads. Nothing flows back from `Aux`: the control state and the vertices after a
method do not depend on it.
-/

namespace XogMobile.Nv2a

open Lib Function

structure Control where
  regs : Nat → Word
  (waitingForFlip waitingForNop waitingForContextSwitch : Bool)

/-- A `float` of the state, by what it was made from. -/
inductive Flt where
  | bits (w : Word)
  | ofInt16 (n : BitVec 16)
  | unitInt16 (n : BitVec 16)
  | unitByte (n : BitVec 8)
  | unitByteDouble (n : BitVec 8)
  | specularPower (params : Nat → Flt)

def Flt.zero : Flt := .bits 0

def Flt.one : Flt := .bits 0x3F800000

structure Table where
  entry : Nat → Nat → Word
  dirty : Nat → Bool

def Table.set (t : Table) (row col : Nat) (w : Word) : Table where
  entry := update t.entry row (update (t.entry row) col w)
  dirty := update t.dirty row true

structure VertexAttribute where
  dmaSelect : Bool
  (offset format count size stride : Word)
  inlineValue : Nat → Flt
  inlineBufferPopulated : Bool
  inlineBuffer : Nat → Nat → Flt

/-- What the renderer reads. `renderer` is its own state. -/
structure Aux (ρ : Type) where
  regsDirty : Nat → Bool
  vshConstants : Table
  programData : Nat → Nat → Word
  programDataDirty : Bool
  (ltctxa ltctxb ltc1 : Table)
  (lightInfiniteHalfVector lightInfiniteDirection lightLocalPosition : Nat → Nat → Flt)
  lightLocalAttenuation : Nat → Nat → Flt
  specularParams : Nat → Flt
  specularPower : Flt
  specularParamsBack : Nat → Flt
  specularPowerBack : Flt
  pointParams : Nat → Flt
  textureMatrixEnable : Nat → Bool
  vertexStateShaderV0 : Nat → Word
  vertexAttributes : Nat → VertexAttribute
  compressedAttrs : BitVec 16
  renderer : ρ

structure Call where
  subchannel : Word
  method : Nat
  parameter : Word
  deriving DecidableEq

/-- `PGRAPHState`. `calls` records every method a handler was called with. -/
structure Pgraph (ρ : Type) where
  control : Control
  vertices : Vertices
  aux : Aux ρ
  calls : List Call

namespace Pgraph

variable {ρ : Type}

/-- `pgraph_reg_w`: a write that changes the register marks it. -/
def regW (p : Pgraph ρ) (addr : Nat) (val : Word) : Pgraph ρ :=
  { p with
    control := { p.control with regs := update p.control.regs addr val }
    aux := { p.aux with
      regsDirty := fun a => p.aux.regsDirty a || (a == addr && p.control.regs addr != val) } }

def regWs (p : Pgraph ρ) (writes : List (Nat × Word)) : Pgraph ρ :=
  writes.foldl (fun p w => p.regW w.1 w.2) p

theorem regWs_cons (p : Pgraph ρ) (w : Nat × Word) (ws : List (Nat × Word)) :
    p.regWs (w :: ws) = (p.regW w.1 w.2).regWs ws := rfl

theorem regW_self (p : Pgraph ρ) {addr : Nat} {val : Word} (h : p.control.regs addr = val) : p.regW addr val = p := by
  subst h
  have hdirty : (fun a => p.aux.regsDirty a ||
      (a == addr && p.control.regs addr != p.control.regs addr)) = p.aux.regsDirty := by
    funext a
    simp
  rw [regW, hdirty, update_eq_self]

variable {ws : List (Nat × Word)}

theorem regWs_self (p : Pgraph ρ) (h : ∀ w ∈ ws, p.control.regs w.1 = w.2) : p.regWs ws = p := by
  induction ws with
  | nil => rfl
  | cons w ws ih =>
    rw [regWs_cons, p.regW_self (h w List.mem_cons_self)]
    exact ih fun w' hw' => h w' (List.mem_cons_of_mem _ hw')

def writeRegs (regs : Nat → Word) (ws : List (Nat × Word)) : Nat → Word :=
  ws.foldl (fun regs w => update regs w.1 w.2) regs

theorem writeRegs_of_not_mem {regs : Nat → Word} {a : Nat} (h : ∀ w ∈ ws, w.1 ≠ a) : writeRegs regs ws a = regs a := by
  induction ws generalizing regs with
  | nil => rfl
  | cons w ws ih =>
    have hw : a ≠ w.1 := (h w List.mem_cons_self).symm
    have hrest : writeRegs (update regs w.1 w.2) ws a = update regs w.1 w.2 a :=
      ih fun w' hw' => h w' (List.mem_cons_of_mem _ hw')
    rw [update_of_ne hw] at hrest
    exact hrest

theorem regWs_control (p : Pgraph ρ) (ws : List (Nat × Word)) :
    (p.regWs ws).control = { p.control with regs := writeRegs p.control.regs ws } := by
  induction ws generalizing p with
  | nil => rfl
  | cons w ws ih => exact ih (p.regW w.1 w.2)

@[simp] theorem regWs_vertices (p : Pgraph ρ) (ws : List (Nat × Word)) :
    (p.regWs ws).vertices = p.vertices := by
  induction ws generalizing p with
  | nil => rfl
  | cons w ws ih => exact ih (p.regW w.1 w.2)

@[simp] theorem regWs_calls (p : Pgraph ρ) (ws : List (Nat × Word)) :
    (p.regWs ws).calls = p.calls := by
  induction ws generalizing p with
  | nil => rfl
  | cons w ws ih => exact ih (p.regW w.1 w.2)

end Pgraph

/-- The renderer's operations. They work on its own state and on what it reads, not on registers. -/
structure Renderer (ρ : Type) where
  (drawBegin drawEnd flushDraw : Control → Vertices → Aux ρ → Aux ρ)

/-- `NV_PGRAPH_CONTROL_0` and `NV_PGRAPH_CONTROL_1`. -/
def control0 : Nat := 0x194C

def control1 : Nat := 0x1950

/-- `is_nop_draw`: no colour channel is written, and neither depth nor stencil is tested. -/
def Control.isNopDraw (c : Control) : Bool :=
  let colorWrite := c.regs control0 &&& 0x3C000000 != 0
  let depthTest := c.regs control0 &&& 0x00004000 != 0
  let stencilTest := c.regs control1 &&& 0x00000001 != 0
  !(colorWrite || depthTest || stencilTest)

end XogMobile.Nv2a
