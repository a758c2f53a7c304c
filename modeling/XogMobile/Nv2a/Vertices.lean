import XogMobile.Lib.Mask
import XogMobile.Lib.Run

/-!
# Vertices submitted to PGRAPH

The lists that collect vertices between `SET_BEGIN_END` methods, the Kelvin methods that fill them and
`flush_draw`, which hands them to the renderer. A `DRAW_ARRAYS` method gives a range of indices,
contiguous ranges are merged, and an `ARRAY_ELEMENT` method turns the last range into single
indices. Two fields are for the proofs alone: `drawn` records what the renderer was asked to draw, and
`joined` how many of the ranges were submitted before the last squash.
-/

namespace XogMobile.Nv2a

open Lib

/-- `uint32_t`. -/
abbrev Word := BitVec 32

/-- `NV2A_MAX_BATCH_LENGTH`, the size of the arrays behind the lists. -/
def maxBatchLength : Nat := 0x07FFFF

/-- The size of `draw_arrays_start` and `draw_arrays_count`. -/
def maxDrawArrays : Nat := 1250

def primTypeInvalid : Word := 0

inductive DrawCall where
  | arrays (prim : Word) (ranges : List (Nat × Nat))
  | elements (prim : Word) (indices : List Nat)
  | buffer (prim : Word) (vertices : Nat)
  | array (prim : Word) (words : List Word)
  deriving DecidableEq

/-- `drawArrays` holds the start and the count of each range. -/
@[ext] structure Vertices where
  primitiveMode : Word
  drawArrays : List (Nat × Nat)
  preventConnect : Bool
  joined : Nat
  inlineElements : List Nat
  inlineArray : List Word
  inlineBufferLength : Nat
  drawn : List DrawCall
  deriving DecidableEq

namespace Vertices

variable (v : Vertices)

def initial : Vertices where
  primitiveMode := primTypeInvalid
  drawArrays := []
  preventConnect := false
  joined := 0
  inlineElements := []
  inlineArray := []
  inlineBufferLength := 0
  drawn := []

def resetDrawArrays : Vertices := { v with drawArrays := [], preventConnect := false, joined := 0 }

def resetInlineBuffers : Vertices :=
  { v with inlineElements := [], inlineArray := [], inlineBufferLength := 0 }.resetDrawArrays

/-- What `flush_draw` draws once a surface is bound: the first list that is not empty. It asserts that the
others are. -/
def drawCall : Option (List DrawCall) :=
  if v.drawArrays ≠ [] then
    if v.inlineElements = [] ∧ v.inlineBufferLength = 0 ∧ v.inlineArray = [] then
      some [.arrays v.primitiveMode v.drawArrays]
    else none
  else if v.inlineElements ≠ [] then
    if v.inlineBufferLength = 0 ∧ v.inlineArray = [] then
      some [.elements v.primitiveMode v.inlineElements]
    else none
  else if v.inlineBufferLength ≠ 0 then
    if v.inlineArray = [] then some [.buffer v.primitiveMode v.inlineBufferLength] else none
  else if v.inlineArray ≠ [] then some [.array v.primitiveMode v.inlineArray]
  else some []

/-- `pgraph_vk_flush_draw`. It returns at once when neither a colour nor a zeta surface is bound. The models
that leave out the renderer's bindings take one to be bound. -/
def flushDraw (bound : Bool := true) : Option Vertices :=
  if bound then v.drawCall.map fun calls => { v with drawn := v.drawn ++ calls } else some v

theorem flushDraw_bound (v : Vertices) :
    v.flushDraw = v.drawCall.map fun calls => { v with drawn := v.drawn ++ calls } := if_pos rfl

def pushRange (start count : Nat) : Option Vertices :=
  if v.inlineElements.length + count < maxBatchLength then
    some { v with inlineElements := v.inlineElements ++ List.range' start count }
  else none

/-- `pgraph_expand_draw_arrays`. With more than one range pending, all of them are drawn first. -/
def expandDrawArrays (bound : Bool := true) : Option Vertices :=
  v.drawArrays.getLast?.bind fun last =>
    (if 1 < v.drawArrays.length then (v.flushDraw bound).map resetInlineBuffers else some v).bind fun v =>
      (v.pushRange last.1 last.2).map resetDrawArrays

/-- Append single indices. The handlers assert that there is room for one; a second one that does not
fit is written past the array, which is undefined. -/
def pushElements (indices : List Nat) (bound : Bool := true) : Option Vertices :=
  (if v.drawArrays ≠ [] then v.expandDrawArrays bound else some v).bind fun v =>
    if v.inlineElements.length + indices.length ≤ maxBatchLength then
      some { v with inlineElements := v.inlineElements ++ indices }
    else none

/-- `ARRAY_ELEMENT16`: two indices a word. -/
def arrayElement16 (parameter : Word) (bound : Bool := true) : Option Vertices :=
  v.pushElements [(parameter &&& 0xFFFF).toNat, (parameter >>> 16).toNat] bound

def arrayElement32 (parameter : Word) (bound : Bool := true) : Option Vertices :=
  v.pushElements [parameter.toNat] bound

/-- `NV097_DRAW_ARRAYS_START_INDEX`. -/
def drawArraysStart (parameter : Word) : Nat := (getMask parameter 0x00FFFFFF).toNat

def drawArraysCount (parameter : Word) : Nat := (getMask parameter 0xFF000000).toNat + 1

def addRange (start count : Nat) : Vertices :=
  match v.preventConnect, v.drawArrays.getLast? with
  | false, some (lastStart, lastCount) =>
    if start = lastStart + lastCount then
      { v with drawArrays := v.drawArrays.dropLast ++ [(lastStart, lastCount + count)] }
    else { v with drawArrays := v.drawArrays ++ [(start, count)] }
  | _, _ => { v with drawArrays := v.drawArrays ++ [(start, count)], preventConnect := false }

def drawArraysMethod (parameter : Word) : Option Vertices :=
  let start := drawArraysStart parameter
  let count := drawArraysCount parameter
  if v.inlineElements ≠ [] then
    if v.preventConnect then none else v.pushRange start count
  else if v.drawArrays.length < maxDrawArrays then some (v.addRange start count)
  else none

def CanSquash : Prop := v.inlineElements = [] ∧ v.drawArrays.length < maxDrawArrays - 1

instance : Decidable v.CanSquash := inferInstanceAs (Decidable (_ ∧ _))

/-- What the squash does to the vertices: the next range is kept apart. -/
def squash : Vertices := { v with preventConnect := true, joined := v.drawArrays.length }

/-- `INLINE_ARRAY`. -/
def inlineArrayMethod (parameter : Word) : Option Vertices :=
  if v.inlineArray.length < maxBatchLength then
    some { v with inlineArray := v.inlineArray ++ [parameter] }
  else none

/-- `pgraph_finish_inline_buffer_vertex`, which counts the vertex. -/
def finishInlineBufferVertex : Option Vertices :=
  if v.inlineBufferLength < maxBatchLength then
    some { v with inlineBufferLength := v.inlineBufferLength + 1 }
  else none

/-- `SET_BEGIN_END`. The renderer skips a draw that would write nothing: `nopDraw`. -/
def setBeginEnd (nopDraw : Bool) (parameter : Word) (bound : Bool := true) :
    Option Vertices :=
  if parameter = 0 then
    if v.primitiveMode = primTypeInvalid then some v.resetInlineBuffers
    else
      (if nopDraw then some v else v.flushDraw bound).map fun v =>
        { v.resetInlineBuffers with primitiveMode := primTypeInvalid }
  else if v.primitiveMode ≠ primTypeInvalid then some v
  else if parameter.toNat ≤ 0x0A then
    some { v with primitiveMode := parameter }.resetInlineBuffers
  else none

end Vertices

end XogMobile.Nv2a
