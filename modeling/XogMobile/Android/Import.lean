import Mathlib.Logic.Function.Basic
import XogMobile.Lib.Bytes

/-!
# Importing a file

`copyToPrivateFile` copies what the user has picked next to the file it replaces, deletes that file and
renames the copy. `Outcomes` says how each file operation ends. The old file goes before the copy has its
name, and a copy that cannot be renamed is deleted: then neither is left.
-/

namespace XogMobile.Android

open Lib Function Option

/-- `requestCode`, which gives the name. -/
inductive Request where
  | mcpx
  | bios
  | hdd
  | picked
  deriving DecidableEq

inductive FileName where
  | imported (r : Request)
  | part (r : Request)
  deriving DecidableEq

/-- `xbox-files`. -/
structure PrivateDir where
  present : Bool
  files : FileName → Option (List Byte)

/-- How the operations of a copy end, in their order: a read fills the empty buffer, a write takes some of
what is left in it, and in the end the file is synced and closed. -/
inductive CopyOp where
  | read (bytes : List Byte)
  | write (count : Nat)
  | endOfFile
  | synced
  | failed

structure Outcomes where
  expectedSize : Int
  (mkdirs deleteStale opened : Bool)
  copy : List CopyOp
  (deletePart deleteOld rename : Bool)

inductive ImportError where
  | unableToCreate
  | unableToRemoveStale
  | copyFailed
  | incomplete (expected copied : Int)
  | empty
  | unableToReplace
  | unableToFinalize

def PrivateDir.delete (d : PrivateDir) (deleted : Bool) (f : FileName) : PrivateDir :=
  if deleted then { d with files := update d.files f none } else d

def PrivateDir.renameTo (d : PrivateDir) (f g : FileName) : PrivateDir :=
  { d with files := update (update d.files g (d.files f)) f none }

/-- The two loops of `copyViaFileDescriptor`: the file written, and the count unless it throws. -/
def copyLoop : List CopyOp → List Byte → List Byte → Int → List Byte × Option Int
  | .read bytes :: ops, [], target, copied => copyLoop ops bytes target (copied + bytes.length)
  | .write count :: ops, b :: buffer, target, copied =>
    copyLoop ops ((b :: buffer).drop count) (target ++ (b :: buffer).take count) copied
  | .endOfFile :: .synced :: _, [], target, copied => (target, some copied)
  | _, _, target, _ => (target, none)

def PrivateDir.copyViaFileDescriptor (d : PrivateDir) (w : Outcomes) (f : FileName) :
    PrivateDir × Option Int :=
  if w.opened then
    let copy := copyLoop w.copy [] [] 0
    ({ d with files := update d.files f (some copy.1) }, copy.2)
  else (d, none)

def copyToPrivateFile (w : Outcomes) (r : Request) (d : PrivateDir) :
    PrivateDir × Except ImportError FileName :=
  let out := FileName.imported r
  let tmp := FileName.part r
  if !d.present && !w.mkdirs then (d, .error .unableToCreate)
  else
    let d := { d with present := true }
    if (d.files tmp).isSome && !w.deleteStale then (d, .error .unableToRemoveStale)
    else
      let copy := (d.delete true tmp).copyViaFileDescriptor w tmp
      let d := copy.1
      match copy.2 with
      | none => (d, .error .copyFailed)
      | some copied =>
        if 0 < w.expectedSize ∧ copied ≠ w.expectedSize then
          (d.delete w.deletePart tmp, .error (.incomplete w.expectedSize copied))
        else if copied ≤ 0 then (d.delete w.deletePart tmp, .error .empty)
        else if (d.files out).isSome && !w.deleteOld then
          (d.delete w.deletePart tmp, .error .unableToReplace)
        else
          let d := d.delete true out
          if !w.rename then (d.delete w.deletePart tmp, .error .unableToFinalize)
          else (d.renameTo tmp out, .ok out)

/-- What the reads have given. -/
def delivered : List CopyOp → List Byte
  | .read bytes :: ops => bytes ++ delivered ops
  | .write _ :: ops => delivered ops
  | _ => []

variable {r : Request}

/-- An import that fails leaves the old file, one that succeeds the copy, and none leaves neither. -/
structure AllOrNothing (w : Outcomes) (r : Request) (d : PrivateDir)
    (x : PrivateDir × Except ImportError FileName) : Prop where
  failed : ∀ e, x.2 = .error e → x.1.files (.imported r) = d.files (.imported r)
  done : ∀ f, x.2 = .ok f → x.1.files (.imported r) = some (delivered w.copy)
  kept : d.files (.imported r) ≠ none → x.1.files (.imported r) ≠ none

/-- The copy gets to its end, with as many bytes as there should be. -/
structure Copies (w : Outcomes) (r : Request) (d : PrivateDir) : Prop where
  dir : d.present = true ∨ w.mkdirs = true
  stale : d.files (.part r) = none ∨ w.deleteStale = true
  opened : w.opened = true
  copied : ∃ n, (copyLoop w.copy [] [] 0).2 = some n ∧ 0 < n ∧
    (0 < w.expectedSize → n = w.expectedSize)

inductive Ended (w : Outcomes) (r : Request) (d : PrivateDir) :
    PrivateDir × Except ImportError FileName → Prop where
  | early {d' : PrivateDir} {e : ImportError}
      (stopped : Copies w r d → w.deleteOld = false)
      (old : d'.files (.imported r) = d.files (.imported r)) : Ended w r d (d', .error e)
  | copied {d' : PrivateDir} {f : FileName} (renamed : w.rename = true)
      (new : d'.files (.imported r) = some (delivered w.copy)) : Ended w r d (d', .ok f)
  | lost {d' : PrivateDir} {e : ImportError} (copies : Copies w r d)
      (deleted : d.files (.imported r) ≠ none → w.deleteOld = true) (left : w.rename = false)
      (none : d'.files (.imported r) = none) : Ended w r d (d', .error e)

theorem copyLoop_delivered {ops : List CopyOp} {buffer target : List Byte} {copied n : Int}
    (h : (copyLoop ops buffer target copied).2 = some n) :
    (copyLoop ops buffer target copied).1 = target ++ buffer ++ delivered ops := by
  fun_induction copyLoop with
  | case1 bytes ops target copied ih => simpa [delivered] using ih h
  | case2 count ops b buffer target copied ih =>
    rw [ih h, List.append_assoc target, List.take_append_drop]
    rfl
  | case3 => simp [delivered]
  | case4 => cases h

@[simp] theorem imported_delete_part (d : PrivateDir) (deleted : Bool) :
    (d.delete deleted (.part r)).files (.imported r) = d.files (.imported r) := by
  cases deleted <;> simp [PrivateDir.delete]

theorem copyToPrivateFile_ended (w : Outcomes) (r : Request) (d : PrivateDir) :
    Ended w r d (copyToPrivateFile w r d) := by
  rw [copyToPrivateFile]
  dsimp only
  split
  · next hdir => exact .early (fun h => by rcases h.dir with h | h <;> simp [h] at hdir) rfl
  next hdir =>
  split
  · next hstale => exact .early (fun h => by rcases h.stale with h | h <;> simp [h] at hstale) rfl
  next hstale =>
  by_cases hopened : w.opened = true
  · simp only [PrivateDir.copyViaFileDescriptor, if_pos hopened]
    split
    · next hnone =>
      refine .early (fun h => ?_) (by simp)
      obtain ⟨n, hn, -⟩ := h.copied
      cases hnone.symm.trans hn
    next copied hcopied =>
    have hend : Copies w r d ↔ 0 < copied ∧ (0 < w.expectedSize → copied = w.expectedSize) := by
      refine ⟨fun h => ?_, fun h => ⟨?_, ?_, hopened, copied, hcopied, h⟩⟩
      · obtain ⟨n, hn, hsize⟩ := h.copied
        cases hcopied.symm.trans hn
        exact hsize
      · cases hp : d.present <;> simp_all
      · cases hp : d.files (.part r) <;> simp_all
    split
    · next hsize => exact .early (fun h => absurd ((hend.mp h).2 hsize.1) hsize.2) (by simp)
    next hsize =>
    split
    · next hempty => exact .early (fun h => absurd (hend.mp h).1 (by omega)) (by simp)
    next hempty =>
    split
    · next hkept => exact .early (fun _ => by simp_all) (by simp)
    next hkept =>
    split
    · next hleft =>
      refine .lost (hend.mpr ⟨by omega, by simpa using hsize⟩) ?_ (by simpa using hleft) ?_
      · simpa [isSome_iff_ne_none] using hkept
      · rw [imported_delete_part]
        exact update_self ..
    · next hrenamed =>
      exact .copied (by simpa using hrenamed)
        (by simp [PrivateDir.renameTo, PrivateDir.delete, copyLoop_delivered hcopied])
  · simp only [PrivateDir.copyViaFileDescriptor, if_neg hopened]
    exact .early (fun h => absurd h.opened hopened) (by simp)

/-- The import is all or nothing exactly when it does not delete an old file and then fails to rename the
copy. -/
theorem import_all_or_nothing_iff (w : Outcomes) (r : Request) (d : PrivateDir) :
    AllOrNothing w r d (copyToPrivateFile w r d) ↔
      ¬(Copies w r d ∧ d.files (.imported r) ≠ none ∧ w.deleteOld = true ∧ w.rename = false) := by
  have h := copyToPrivateFile_ended w r d
  generalize copyToPrivateFile w r d = x at h ⊢
  cases h with
  | early stopped old =>
    refine iff_of_true ⟨fun _ _ => old, nofun, fun hne => old ▸ hne⟩ ?_
    rintro ⟨hcopies, -, hdeleted, -⟩
    cases (stopped hcopies).symm.trans hdeleted
  | copied renamed new =>
    refine iff_of_true ⟨nofun, fun _ _ => new, fun _ => by simp [new]⟩ ?_
    rintro ⟨-, -, -, hleft⟩
    cases renamed.symm.trans hleft
  | lost copies deleted left none =>
    constructor
    · rintro h ⟨-, hne, -⟩
      exact h.kept hne none
    · intro h
      have hold : d.files (.imported r) = Option.none := by
        by_contra hne
        exact h ⟨copies, hne, deleted hne, left⟩
      exact ⟨fun _ _ => none.trans hold.symm, nofun, fun hne => absurd hold hne⟩

def oneByte : PrivateDir where
  present := true
  files f := if f = .imported .hdd then some [1] else none

def renameFails : Outcomes where
  expectedSize := 1
  mkdirs := true
  deleteStale := true
  opened := true
  copy := [.read [2], .write 1, .endOfFile, .synced]
  deletePart := true
  deleteOld := true
  rename := false

/-- The disk image that was there is gone, and so is the new one. -/
theorem import_leaves_neither :
    ¬ AllOrNothing renameFails .hdd oneByte (copyToPrivateFile renameFails .hdd oneByte) ∧
      (copyToPrivateFile renameFails .hdd oneByte).1.files (.imported .hdd) = none ∧
      (copyToPrivateFile renameFails .hdd oneByte).1.files (.part .hdd) = none := by
  refine ⟨fun h => h.kept (by decide) ?_, ?_, ?_⟩ <;> decide

end XogMobile.Android
