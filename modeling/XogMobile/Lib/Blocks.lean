import Mathlib.Algebra.Order.Group.Int
import Mathlib.Tactic.Common

/-!
# Copies of blocks

A list of operations on a memory, each of which leaves most addresses alone. Where several of them write
to one address the last one counts; if they agree it does not matter which. Two such operations copy a
block from another memory and store a block at an address that may be negative.
-/

namespace XogMobile.Lib

variable {α β τ : Type}

section

variable {op : τ → (α → β) → α → β} {hits : τ → Prop} {a : α} {m : α → β} {ts : List τ}

theorem foldl_apply_of_miss (hmiss : ∀ t ∈ ts, ∀ m, op t m a = m a) : ts.foldl (fun m t => op t m) m a = m a := by
  induction ts generalizing m with
  | nil => rfl
  | cons t ts ih =>
    rw [List.foldl_cons, ih fun u hu => hmiss u (List.mem_cons_of_mem t hu), hmiss t List.mem_cons_self]

theorem foldl_apply_of_hit {value : β} (hmiss : ∀ t ∈ ts, ¬ hits t → ∀ m, op t m a = m a)
    (hhit : ∀ t ∈ ts, hits t → ∀ m, op t m a = value) (hsome : ∃ t ∈ ts, hits t) :
    ts.foldl (fun m t => op t m) m a = value := by
  induction ts generalizing m with
  | nil =>
    obtain ⟨t, ht, -⟩ := hsome
    cases ht
  | cons t ts ih =>
    have hmiss' := fun u hu => hmiss u (List.mem_cons_of_mem t hu)
    rw [List.foldl_cons]
    by_cases htail : ∃ u ∈ ts, hits u
    · exact ih hmiss' (fun u hu => hhit u (List.mem_cons_of_mem t hu)) htail
    · obtain ⟨u, hu, hin⟩ := hsome
      rw [foldl_apply_of_miss fun v hv => hmiss' v hv fun hin => htail ⟨v, hv, hin⟩]
      obtain rfl | hu := List.mem_cons.mp hu
      · exact hhit u List.mem_cons_self hin m
      · exact absurd ⟨u, hu, hin⟩ htail

end

/-- `memcpy` from one memory to another. -/
def copyBlock (count : Nat) (src : Nat → β) (source target : Nat) (dst : Nat → β) (a : Nat) : β :=
  if target ≤ a ∧ a < target + count then src (source + (a - target)) else dst a

section

variable {count a : Nat} {src dst : Nat → β} {source target : τ → Nat} {ts : List τ}

theorem foldl_copyBlock_of_none (h : ∀ t ∈ ts, ¬ (target t ≤ a ∧ a < target t + count)) :
    ts.foldl (fun dst t => copyBlock count src (source t) (target t) dst) dst a = dst a :=
  foldl_apply_of_miss fun t ht _ => if_neg (h t ht)

theorem foldl_copyBlock_of_inj {t : τ} {k : Nat} (ht : t ∈ ts) (hk : k < count)
    (hinj : ∀ u ∈ ts, ∀ j < count, target u + j = target t + k → u = t ∧ j = k) :
    ts.foldl (fun dst t => copyBlock count src (source t) (target t) dst) dst (target t + k) = src (source t + k) := by
  refine foldl_apply_of_hit (fun u _ hmiss _ => if_neg hmiss) (fun u hu hin _ => ?_)
    ⟨t, ht, by omega, by omega⟩
  obtain ⟨rfl, hj⟩ := hinj u hu (target t + k - target u) (by omega) (by omega)
  rw [copyBlock, if_pos hin, hj]

end

def storeBlock (count : Nat) (bytes : Nat → β) (target : Int) (m : Int → β) (a : Int) : β :=
  if target ≤ a ∧ a < target + count then bytes (a - target).toNat else m a

section

variable {count : Nat} {bytes : τ → Nat → β} {target : τ → Nat} {m : Int → β} {ts : List τ}

theorem foldl_storeBlock_of_none {a : Int} (h : ∀ t ∈ ts, ¬ ((target t : Int) ≤ a ∧ a < target t + count)) :
    ts.foldl (fun m t => storeBlock count (bytes t) (target t) m) m a = m a :=
  foldl_apply_of_miss fun t ht _ => if_neg (h t ht)

theorem foldl_storeBlock_of_inj {t : τ} {k : Nat} (ht : t ∈ ts) (hk : k < count)
    (hinj : ∀ u ∈ ts, ∀ j < count, target u + j = target t + k → u = t ∧ j = k) :
    ts.foldl (fun m t => storeBlock count (bytes t) (target t) m) m ((target t + k : Nat) : Int) = bytes t k := by
  refine foldl_apply_of_hit (fun u _ hmiss _ => if_neg hmiss) (fun u hu hin _ => ?_)
    ⟨t, ht, by omega, by omega⟩
  obtain ⟨rfl, hj⟩ := hinj u hu (((target t + k : Nat) : Int) - target u).toNat (by omega) (by omega)
  rw [storeBlock, if_pos hin, hj]

end

end XogMobile.Lib
