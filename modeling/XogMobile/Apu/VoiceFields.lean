import XogMobile.Lib.Run
import Mathlib.Data.BitVec

/-!
# The fields of a voice, written by the guest and by the workers

Front-end methods and voice workers write fields of a voice's dwords with `voice_set_mask`: a load, and
a store of the loaded dword with the field replaced. Voice locks are set with the lock of the APU, which
the frame thread holds from its test for locked voices until the workers are done.

What a worker writes and when is a choice of the schedule, within the four dwords that `voice_process`
writes. `ideal` is for the proofs alone: the dwords as they would be if every `voice_set_mask` were one
step, at its store.
-/

namespace XogMobile.Apu.Fields

open Lib Function

abbrev Reg := BitVec 32

/-- The dwords of a voice that methods or workers write, by the names of their offsets. -/
inductive Dword where
  | cfgVbin
  | cfgFmt
  | cfgEnv0
  | cfgEnva
  | cfgEnv1
  | cfgEnvf
  | cfgMisc
  | cfgHrtfTarget
  | curPslStart
  | curPshSample
  | curEcnt
  | parState
  | parOffset
  | parNext
  | tarVola
  | tarVolb
  | tarVolc
  | tarLfoEnv
  | tarFca
  | tarFcb
  | tarPitchLink
  deriving DecidableEq

def Dword.Shared (o : Dword) : Prop := o = .curEcnt ∨ o = .parState ∨ o = .parOffset ∨ o = .parNext

instance (o : Dword) : Decidable o.Shared := inferInstanceAs (Decidable (_ ∨ _ ∨ _ ∨ _))

abbrev Voices := Nat → Dword → Reg

/-- `ctz32`. -/
def ctz (mask : Reg) : Nat := ((List.range 32).find? fun i => mask.getLsbD i).getD 32

def replaced (dword mask val : Reg) : Reg := (dword &&& ~~~mask) ||| ((val <<< ctz mask) &&& mask)

def voiceGetMask (mem : Voices) (v : Nat) (o : Dword) (mask : Reg) : Reg := (mem v o &&& mask) >>> ctz mask

def setDword (mem : Voices) (v : Nat) (o : Dword) (val : Reg) : Voices :=
  fun v' o' => if v' = v ∧ o' = o then val else mem v' o'

/-- A `voice_set_mask` between its load and its store. -/
structure Rmw where
  voice : Nat
  dword : Dword
  (mask val loaded : Reg)

inductive Op where
  | voiceLock (v : Nat) (lock : Bool)
  | setMask (v : Nat) (o : Dword) (mask val : Reg)
  | setTop (list : Nat) (val : Reg)

structure State (n : Nat) where
  (mem ideal : Voices)
  locked : Nat → Bool
  /-- `NV_PAPU_FECV`, `NV_PAPU_FEAV` and the tops of the three voice lists. -/
  fecv : Reg
  feav : Reg
  top : Nat → Reg
  guest : List Op
  guestRmw : Option Rmw
  working : Bool
  todo : List Nat
  job : Fin n → Option Nat
  workerRmw : Fin n → Option Rmw

/-! ## The methods -/

inductive Param where
  | cfgVbin
  | cfgFmt
  | cfgEnv0
  | cfgEnva
  | cfgEnv1
  | cfgEnvf
  | cfgMisc
  | tarHrtf
  | tarVola
  | tarVolb
  | tarVolc
  | lfoEnv
  | tarFca
  | tarFcb
  | tarPitch
  | cfgBufBase
  | cfgBufLbo
  | bufCbo
  | cfgBufEbo
  deriving DecidableEq

def Param.field (arg : Reg) : Param → Dword × Reg × Reg
  | .cfgVbin => (.cfgVbin, 0xFFFFFFFF, arg)
  | .cfgFmt => (.cfgFmt, 0xFFFFFFFF, arg)
  | .cfgEnv0 => (.cfgEnv0, 0xFFFFFFFF, arg)
  | .cfgEnva => (.cfgEnva, 0xFFFFFFFF, arg)
  | .cfgEnv1 => (.cfgEnv1, 0xFFFFFFFF, arg)
  | .cfgEnvf => (.cfgEnvf, 0xFFFFFFFF, arg)
  | .cfgMisc => (.cfgMisc, 0xFFFFFFFF, arg)
  | .tarHrtf => (.cfgHrtfTarget, 0xFFFF, arg &&& 0xFFFF)
  | .tarVola => (.tarVola, 0xFFFFFFFF, arg)
  | .tarVolb => (.tarVolb, 0xFFFFFFFF, arg)
  | .tarVolc => (.tarVolc, 0xFFFFFFFF, arg)
  | .lfoEnv => (.tarLfoEnv, 0xFFFFFFFF, arg)
  | .tarFca => (.tarFca, 0xFFFFFFFF, arg)
  | .tarFcb => (.tarFcb, 0xFFFFFFFF, arg)
  | .tarPitch => (.tarPitchLink, 0xFFFF0000, (arg &&& 0xFFFF0000) >>> 16)
  | .cfgBufBase => (.curPslStart, 0x00FFFFFF, arg)
  | .cfgBufLbo => (.curPshSample, 0x00FFFFFF, arg)
  | .bufCbo => (.parOffset, 0x00FFFFFF, arg)
  | .cfgBufEbo => (.parNext, 0x00FFFFFF, arg)

inductive Method where
  | voiceLock (arg : Reg)
  | setAntecedentVoice (arg : Reg)
  | voiceOn (arg : Reg)
  | voiceRelease (arg : Reg)
  | voiceOff (arg : Reg)
  | voicePause (arg : Reg)
  | setCurrentVoice (arg : Reg)
  | setVoice (p : Param) (arg : Reg)

def handle (arg : Reg) : Nat := (arg &&& 0xFFFF).toNat

/-- `VOICE_ON` for one of the two envelopes: its state, and the count that state begins with. -/
def envelopeOps (mem : Voices) (v : Nat) (cur : Reg) (delayReg holdReg : Dword) (curMask countMask : Reg) :
    List Op :=
  .setMask v .parState curMask cur ::
    if cur = 1 then
      [.setMask v .curEcnt countMask (voiceGetMask mem v delayReg 0x00FFF000 * 16)]
    else if cur = 2 then [.setMask v .curEcnt countMask 0]
    else if cur = 3 then
      [.setMask v .curEcnt countMask (voiceGetMask mem v holdReg 0x00FFF000 * 16)]
    else []

namespace State

variable {n : Nat} (s : State n)

/-- The voice is locked around the method, unless the guest has locked it. -/
def whileLocked (v : Nat) (ops : List Op) : List Op :=
  if s.locked v then ops else .voiceLock v true :: ops ++ [.voiceLock v false]

/-- Where `VOICE_ON` puts the voice into a list: on its top, or behind the antecedent voice. -/
def linkOps (v : Nat) : Option (List Op) :=
  let list := ((s.feav &&& 0x30000) >>> 16).toNat
  if list ≠ 0 then
    some [.setMask v .tarPitchLink 0xFFFF (s.top (list - 1)), .setTop (list - 1) (BitVec.ofNat 32 v)]
  else
    let antecedent := handle s.feav
    if antecedent ≠ 0xFFFF then
      some [.setMask v .tarPitchLink 0xFFFF (voiceGetMask s.mem antecedent .tarPitchLink 0xFFFF),
        .setMask antecedent .tarPitchLink 0xFFFF (BitVec.ofNat 32 v)]
    else none

/-- `VOICE_ON`. -/
def voiceOnOps (arg : Reg) : Option (List Op) :=
  let v := handle arg
  if v < 256 then
    (s.linkOps v).map fun link => s.whileLocked v
      (link ++ .setMask v .parOffset 0x00FFFFFF 0 ::
        envelopeOps s.mem v ((arg &&& 0xF0000000) >>> 28) .cfgEnv0 .cfgEnva 0xF0000000 0x0000FFFF ++
        envelopeOps s.mem v ((arg &&& 0x0F000000) >>> 24) .cfgEnv1 .cfgEnvf 0x0F000000 0xFFFF0000 ++
        [.setMask v .parState (1 <<< 21) 1])
  else none

/-- `VOICE_RELEASE`. -/
def voiceReleaseOps (arg : Reg) : Option (List Op) :=
  let v := handle arg
  if v < 256 then
    some (s.whileLocked v
      [.setMask v .curEcnt 0x0000FFFF (voiceGetMask s.mem v .tarLfoEnv 0xFFF * 16),
       .setMask v .parState 0xF0000000 6,
       .setMask v .curEcnt 0xFFFF0000 (voiceGetMask s.mem v .cfgMisc 0xFFF * 16),
       .setMask v .parState 0x0F000000 6])
  else none

/-- `fe_method`, as far as it writes voices or their locks. -/
def feMethod : Method → Option (State n)
  | .voiceLock arg =>
    if handle s.fecv < 256 then some { s with guest := [.voiceLock (handle s.fecv) (arg.getLsbD 0)] }
    else none
  | .setAntecedentVoice arg => some { s with feav := arg }
  | .voiceOn arg => (s.voiceOnOps arg).map fun ops => { s with guest := ops }
  | .voiceRelease arg => (s.voiceReleaseOps arg).map fun ops => { s with guest := ops }
  | .voiceOff arg => some { s with guest := [.setMask (handle arg) .parState (1 <<< 21) 0] }
  | .voicePause arg =>
    some { s with
      guest := [.setMask (handle arg) .parState (1 <<< 18) (if arg.getLsbD 18 then 1 else 0)] }
  | .setCurrentVoice arg => some { s with fecv := arg }
  | .setVoice p arg =>
    let (o, mask, val) := p.field arg
    some { s with guest := [.setMask (handle s.fecv) o mask val] }

def store (r : Rmw) : State n :=
  { s with
    mem := setDword s.mem r.voice r.dword (replaced r.loaded r.mask r.val)
    ideal := setDword s.ideal r.voice r.dword (replaced (s.ideal r.voice r.dword) r.mask r.val) }

end State

/-! ## Steps -/

inductive Event (n : Nat) where
  | method (m : Method)
  | guest
  | startFrame (queue : List Nat)
  | take (i : Fin n) (v : Nat)
  | workerLoad (i : Fin n) (o : Dword) (mask val : Reg)
  | workerStore (i : Fin n)
  | finish (i : Fin n)
  | endFrame

variable {n : Nat}

def guestStep (s : State n) : Option (State n) :=
  match s.guest with
  | [] => none
  -- `voice_lock` waits for the lock of the APU
  | .voiceLock v lock :: ops =>
    if s.working then none else some { s with locked := update s.locked v lock, guest := ops }
  | .setTop list val :: ops => some { s with top := update s.top list val, guest := ops }
  | .setMask v o mask val :: ops =>
    match s.guestRmw with
    | none =>
      some { s with
        guestRmw := some { voice := v, dword := o, mask := mask, val := val, loaded := s.mem v o } }
    | some r => some { s.store r with guest := ops, guestRmw := none }

def step (s : State n) : Event n → Option (State n)
  | .method m => if s.guest.isEmpty then s.feMethod m else none
  | .guest => guestStep s
  -- `any_queued_voice_locked` was false
  | .startFrame queue =>
    if s.working = false ∧ ∀ v ∈ queue, s.locked v = false then
      some { s with working := true, todo := queue }
    else none
  | .take i v =>
    if s.job i = none ∧ v ∈ s.todo then
      some { s with todo := s.todo.erase v, job := update s.job i (some v) }
    else none
  | .workerLoad i o mask val =>
    match s.job i, s.workerRmw i with
    | some v, none =>
      if o.Shared then
        some { s with
          workerRmw := update s.workerRmw i
            (some { voice := v, dword := o, mask := mask, val := val, loaded := s.mem v o }) }
      else none
    | _, _ => none
  | .workerStore i =>
    (s.workerRmw i).map fun r =>
      { s.store r with workerRmw := update s.workerRmw i none }
  | .finish i =>
    if (s.workerRmw i).isNone then some { s with job := update s.job i none } else none
  | .endFrame =>
    if s.todo = [] ∧ ∀ i, s.job i = none then some { s with working := false } else none

def start (n : Nat) (mem : Voices) (fecv feav : Reg) (top : Nat → Reg) : State n where
  mem := mem
  ideal := mem
  locked _ := false
  fecv := fecv
  feav := feav
  top := top
  guest := []
  guestRmw := none
  working := false
  todo := []
  job _ := none
  workerRmw _ := none

end XogMobile.Apu.Fields
