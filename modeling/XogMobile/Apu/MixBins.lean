import XogMobile.Apu.VoiceWork
import Mathlib.Algebra.BigOperators.Fin
import Mathlib.Algebra.BigOperators.Pi
import Mathlib.Tactic.Abel

/-!
# Mix bins of the voice workers

A worker mixes the voices it was given into bins of its own, and the bins of all workers are added. A
multipass voice reads the multipass bin and clears it, so the voices that feed that bin have to be with
the same worker as the voice that reads it. Samples are in a commutative group; a bin is one element of
it, and what a voice makes of the samples it reads is a parameter.

The schedule goes on to the next worker after every voice, except after a plain voice that feeds the
multipass bin. It forgets that exception once a multipass voice has fed the bin itself.
-/

namespace XogMobile.Apu.Mix

open Lib Function List

def multipassBin : Fin 32 := 31

/-- What the schedule can know of a voice, and whether it is paused. -/
structure Shape where
  multipass : Bool
  mpBin : Fin 32
  clearMix : Bool
  bin : Fin 8 → Fin 32
  paused : Bool

structure Voice (G : Type) extends Shape where
  /-- From the samples of the multipass bin; a voice with samples of its own is given 0. -/
  mix : G → Fin 8 → G

namespace Shape

variable (v : Shape)

/-- `get_voice_bin_src_dst`. -/
def bins : Bins where
  src := if v.multipass then 1#32 <<< v.mpBin.val else 0
  dst := (List.finRange 8).foldl (fun dst i => dst ||| 1#32 <<< (v.bin i).val) 0
  clr := if v.multipass && v.clearMix then 1#32 <<< v.mpBin.val else 0

def Feeds : Prop := ∃ i, v.bin i = multipassBin

instance : Decidable v.Feeds := inferInstanceAs (Decidable (∃ _, _))

def feeds : Bool := !v.paused && decide v.Feeds

def reads : Bool := v.multipass && !v.paused

/-- Whether the last multipass voice, paused or not, feeds the multipass bin. -/
def stuckAfter (stuck : Bool) : Bool := if v.multipass then decide v.Feeds else stuck

/-- Whether the schedule goes on to the next worker after the voice. -/
def moves (stuck : Bool) : Bool := v.multipass || !decide v.Feeds || stuck

end Shape

variable {G : Type}

def noWork (α : Type) (_ : Nat) : Worker α :=
  { pending := false, queue := [], mixbins := [], asleep := true, assigned := [], calls := [] }

/-- `voice_work_schedule` for a queue and a number of workers. -/
def scheduled (n : Nat) (queue : List (Voice G)) : Option (Nat → Worker (Voice G)) :=
  scheduleFrom n (fun v => v.bins) queue 0 false 0 (noWork (Voice G))

/-- The three assertions of `voice_work_schedule`. -/
def Accepted : BitVec 32 → List Bins → Prop
  | _, [] => True
  | dirty, b :: queue => BinsOk b dirty ∧ Accepted ((dirty &&& ~~~b.clr) ||| b.dst) queue

/-- Every unpaused multipass voice has its sources on its own worker. `moved` counts how often the schedule
has gone on so far, and `fed` has that number for each voice whose samples wait in the multipass bin. -/
def Served (n : Nat) : Bool → Nat → List Nat → List Shape → Prop
  | _, _, _, [] => True
  | stuck, moved, fed, v :: queue =>
    (v.reads = true → ∀ m ∈ fed, m % n = moved % n) ∧
      Served n (v.stuckAfter stuck) (if v.moves stuck then moved + 1 else moved)
        ((if v.feeds then [moved] else []) ++ if v.reads then [] else fed) queue

instance decidableServed (n : Nat) : ∀ (stuck : Bool) (moved : Nat) (fed : List Nat)
    (queue : List Shape), Decidable (Served n stuck moved fed queue)
  | _, _, _, [] => isTrue trivial
  | _, _, _, _ :: queue => @instDecidableAnd _ _ _ (decidableServed n _ _ _ queue)

instance decidableAccepted : ∀ (dirty : BitVec 32) (queue : List Bins), Decidable (Accepted dirty queue)
  | _, [] => isTrue trivial
  | _, _ :: queue => @instDecidableAnd _ _ _ (decidableAccepted _ queue)

/-! ## What the schedule sees -/

section

variable {v : Shape} {dirty : BitVec 32}

theorem shift_multipass : ∀ b : Fin 32, (1#32 <<< b.val) &&& multipassBinMask ≠ 0 ↔ b = multipassBin := by
  decide

theorem shift_eq_multipass : ∀ b : Fin 32, 1#32 <<< b.val = multipassBinMask → b = multipassBin := by
  decide

theorem shift_ne_zero : ∀ b : Fin 32, 1#32 <<< b.val ≠ 0 := by
  decide

theorem and_multipass (x : BitVec 32) : x &&& multipassBinMask ≠ 0 ↔ x.getLsbD 31 = true := by
  have hmask : multipassBinMask = BitVec.twoPow 32 31 := by decide
  rw [hmask, BitVec.and_twoPow]
  split
  · next h => exact iff_of_true (by decide) h
  · next h => exact iff_of_false (· rfl) h

theorem or_and_ne_zero (x y : BitVec 32) : (x ||| y) &&& multipassBinMask ≠ 0 ↔
    x &&& multipassBinMask ≠ 0 ∨ y &&& multipassBinMask ≠ 0 := by
  simp only [and_multipass, BitVec.getLsbD_or, Bool.or_eq_true]

theorem dst_multipass (v : Shape) : v.bins.dst &&& multipassBinMask ≠ 0 ↔ v.Feeds := by
  have hfold : ∀ (l : List (Fin 8)) (dst : BitVec 32),
      l.foldl (fun dst i => dst ||| 1#32 <<< (v.bin i).val) dst &&& multipassBinMask ≠ 0 ↔
        dst &&& multipassBinMask ≠ 0 ∨ ∃ i ∈ l, v.bin i = multipassBin := by
    intro l
    induction l with
    | nil => simp
    | cons i l ih =>
      intro dst
      rw [foldl_cons, ih, or_and_ne_zero, shift_multipass]
      simp [or_assoc]
  unfold Shape.bins
  rw [hfold]
  simp [Shape.Feeds]

theorem multipass_of_ok (hok : BinsOk v.bins dirty) (h : v.multipass = true) :
    v.mpBin = multipassBin ∧ v.clearMix = true := by
  have hsrc : v.bins.src = 1#32 <<< v.mpBin.val := if_pos h
  have hne : v.bins.src ≠ 0 := by
    rw [hsrc]
    exact shift_ne_zero _
  refine ⟨shift_eq_multipass _ (hsrc ▸ hok.1.resolve_left hne), ?_⟩
  by_contra hclear
  have hclr : v.bins.clr = 0 := if_neg (by simp [hclear])
  have hmask := hok.2.1.resolve_left hne
  rw [hclr] at hmask
  exact absurd hmask (by decide)

theorem clr_multipass (hok : BinsOk v.bins dirty) :
    v.bins.clr = if v.multipass then multipassBinMask else 0 := by
  unfold Shape.bins
  split
  · next h =>
    obtain ⟨hbin, hclear⟩ := multipass_of_ok hok h
    rw [h, hclear, hbin]
    rfl
  · next h => rw [if_neg (by simp [h])]

/-- The group flag and the bit of the multipass bin in `dirty`, as `stuck` and the voices tell them. -/
structure Matching (group : Bool) (dirty : BitVec 32) (stuck : Bool) : Prop where
  dirty : dirty &&& multipassBinMask ≠ 0 ↔ group = true ∨ stuck = true
  group : group = true → stuck = false

/-- The group flag after a voice, as `voice_work_schedule` computes it. -/
def groupAfter (b : Bins) (group : Bool) (dirty : BitVec 32) : Bool :=
  (group || b.dst &&& multipassBinMask &&& ~~~dirty != 0) && b.clr &&& multipassBinMask == 0

def dirtyAfter (b : Bins) (dirty : BitVec 32) : BitVec 32 := (dirty &&& ~~~b.clr) ||| b.dst

variable {group stuck : Bool}

theorem groupAfter_eq (b : Bins) (group : Bool) (dirty : BitVec 32) : groupAfter b group dirty =
    ((group || b.dst.getLsbD 31 && !dirty.getLsbD 31) && !b.clr.getLsbD 31) := by
  have hdst : b.dst &&& multipassBinMask &&& ~~~dirty = (b.dst &&& ~~~dirty) &&& multipassBinMask := by
    rw [BitVec.and_assoc, BitVec.and_assoc, BitVec.and_comm multipassBinMask]
  have hbit (x : BitVec 32) : (x &&& multipassBinMask != 0) = x.getLsbD 31 := by
    rw [Bool.eq_iff_iff, bne_iff_ne, and_multipass]
  unfold groupAfter
  rw [hdst, hbit, ← Bool.not_not (_ == _), ← bne, hbit]
  simp

theorem Matching.step (h : Matching group dirty stuck) (hok : BinsOk v.bins dirty) :
    groupAfter v.bins group dirty = !v.moves stuck ∧
      Matching (groupAfter v.bins group dirty) (dirtyAfter v.bins dirty) (v.stuckAfter stuck) := by
  have hfeeds : v.bins.dst.getLsbD 31 = decide v.Feeds := by
    rw [Bool.eq_iff_iff, ← and_multipass, dst_multipass, decide_eq_true_iff]
  obtain ⟨hdirty, hgroup⟩ := h
  rw [and_multipass] at hdirty
  have hthird : v.multipass = true ∨ v.Feeds ∨ dirty.getLsbD 31 = false := by
    rcases hok.2.2 with hsrc | hdst | hclear
    · left
      by_contra hplain
      exact hsrc (if_neg hplain)
    · exact .inr (.inl ((dst_multipass v).mp hdst))
    · right; right
      rw [← Bool.not_eq_true, ← and_multipass, not_not]
      exact hclear
  have hbit : (dirtyAfter v.bins dirty).getLsbD 31 =
      ((dirty.getLsbD 31 && !v.multipass) || decide v.Feeds) := by
    unfold dirtyAfter
    rw [BitVec.getLsbD_or, hfeeds, clr_multipass hok]
    cases v.multipass <;> simp [multipassBinMask]
  have hnext : groupAfter v.bins group dirty = !v.moves stuck := by
    rw [groupAfter_eq, hfeeds, clr_multipass hok]
    unfold Shape.moves
    cases hm : v.multipass <;> cases hf : decide v.Feeds <;> cases stuck <;> cases group <;> simp_all [multipassBinMask]
  refine ⟨hnext, ?_, ?_⟩
  · rw [and_multipass, hbit, hnext]
    unfold Shape.moves Shape.stuckAfter
    cases hm : v.multipass <;> cases hf : decide v.Feeds <;> cases stuck <;> cases group <;> simp_all
  · rw [hnext]
    unfold Shape.moves Shape.stuckAfter
    cases v.multipass <;> cases stuck <;> simp

end

/-! ## Processing -/

variable [AddCommGroup G]

def Voice.mixInto (v : Voice G) (samples : G) (mixbins : Fin 32 → G) : Fin 32 → G :=
  (List.finRange 8).foldl
    (fun m i => update m (v.bin i) (m (v.bin i) + v.mix samples i)) mixbins

def Voice.process (mixbins : Fin 32 → G) (v : Voice G) : Fin 32 → G :=
  if v.paused then mixbins
  else if v.multipass then
    -- `get_multipass_samples`
    v.mixInto (mixbins v.mpBin)
      (if v.clearMix then update mixbins v.mpBin 0 else mixbins)
  else v.mixInto 0 mixbins

def processAll (queue : List (Voice G)) : Fin 32 → G := queue.foldl Voice.process 0

def workersSum (n : Nat) (workers : Nat → Worker (Voice G)) : Fin 32 → G :=
  ∑ i ∈ Finset.range n, processAll (workers i).queue

/-! ## What a voice changes -/

section

variable {v : Voice G} {n : Nat}

def Voice.contribution (v : Voice G) (samples : G) : Fin 32 → G :=
  ((List.finRange 8).map fun i => Pi.single (v.bin i) (v.mix samples i)).sum

theorem mixInto_eq (v : Voice G) (samples : G) (m : Fin 32 → G) : v.mixInto samples m = m + v.contribution samples := by
  unfold Voice.mixInto Voice.contribution
  induction finRange 8 generalizing m with
  | nil => simp
  | cons i l ih =>
    have hadd : update m (v.bin i) (m (v.bin i) + v.mix samples i) = m + Pi.single (v.bin i) (v.mix samples i) := by
      funext b
      by_cases hb : b = v.bin i
      · subst hb
        simp
      · simp [hb]
    rw [foldl_cons, hadd, ih, map_cons, sum_cons, add_assoc]

theorem contribution_multipass (h : ¬v.Feeds) (samples : G) : v.contribution samples multipassBin = 0 := by
  unfold Voice.contribution
  induction finRange 8 with
  | nil => rfl
  | cons i l ih =>
    have hne : multipassBin ≠ v.bin i := fun heq => h ⟨i, heq.symm⟩
    rw [map_cons, sum_cons, Pi.add_apply, ih, Pi.single_eq_of_ne hne, add_zero]

def Voice.change (v : Voice G) (samples : G) : Fin 32 → G :=
  if v.paused then 0
  else if v.multipass then v.contribution samples - Pi.single multipassBin samples
  else v.contribution 0

theorem change_of_not_reads (h : v.reads = false) (samples : G) : v.change samples = v.change 0 := by
  unfold Shape.reads at h
  unfold Voice.change
  cases hpaused : v.paused with
  | true => rfl
  | false =>
    rw [hpaused, Bool.not_false, Bool.and_true] at h
    rw [h]
    rfl

theorem change_multipass (h : v.feeds = false) (samples : G) :
    v.change samples multipassBin = if v.reads then -samples else 0 := by
  unfold Shape.feeds at h
  unfold Voice.change Shape.reads
  cases hpaused : v.paused with
  | true => simp
  | false =>
    have hnot : ¬v.Feeds := by simpa [hpaused] using h
    cases hmultipass : v.multipass <;> simp [contribution_multipass hnot]

/-- What the assertions leave of a multipass voice: it reads the multipass bin and clears it. -/
def Shape.Orderly (v : Shape) : Prop := v.multipass = true → v.mpBin = multipassBin ∧ v.clearMix = true

theorem Accepted.orderly {dirty : BitVec 32} {queue : List Shape}
    (h : Accepted dirty (queue.map Shape.bins)) : ∀ v ∈ queue, v.Orderly := by
  induction queue generalizing dirty with
  | nil => nofun
  | cons v queue ih => exact forall_mem_cons.mpr ⟨multipass_of_ok h.1, ih h.2⟩

theorem process_eq (h : v.Orderly) (m : Fin 32 → G) : v.process m = m + v.change (m multipassBin) := by
  unfold Voice.process Voice.change
  split
  · rw [add_zero]
  · split
    · next hmultipass =>
      obtain ⟨hbin, hclear⟩ := h hmultipass
      rw [if_pos hclear, hbin, mixInto_eq]
      funext b
      by_cases hb : b = multipassBin
      · subst hb
        simp
      · simp [hb]
    · rw [mixInto_eq]

end

/-! ## The schedule loop -/

section

variable {n moved w : Nat} {group stuck : Bool} {dirty : BitVec 32} {fed : List Nat}
  {bins : Nat → Fin 32 → G} {one : Fin 32 → G} {v : Voice G} {queue : List (Voice G)}

/-- The bins of all workers after the voices of the queue have been handed out and processed. -/
def spread (n : Nat) : Bool → Nat → List (Voice G) → (Nat → Fin 32 → G) → Nat → Fin 32 → G
  | _, _, [], bins => bins
  | stuck, moved, v :: queue, bins =>
    spread n (v.stuckAfter stuck) (if v.moves stuck then moved + 1 else moved) queue
      (update bins (moved % n) (v.process (bins (moved % n))))

theorem scheduleFrom_spread (n moved : Nat) (workers : Nat → Worker (Voice G)) (hmatch : Matching group dirty stuck)
    (haccepted : Accepted dirty (queue.map fun v => v.bins)) :
    ∃ done, scheduleFrom n (fun v => v.bins) queue (moved % n) group dirty workers = some done ∧
      (fun i => processAll (done i).queue) = spread n stuck moved queue fun i => processAll (workers i).queue := by
  induction queue generalizing moved group dirty stuck workers with
  | nil => exact ⟨workers, rfl, rfl⟩
  | cons v queue ih =>
    obtain ⟨hok, haccepted⟩ := haccepted
    obtain ⟨hgroup, hmatch⟩ := hmatch.step hok
    have hnext : (if groupAfter v.bins group dirty then moved % n else (moved % n + 1) % n) =
        (if v.moves stuck then moved + 1 else moved) % n := by
      rw [hgroup]
      cases v.moves stuck <;> simp
    have hbins : (fun i => processAll (update workers (moved % n) ((workers (moved % n)).give v) i).queue) =
        update (fun i => processAll (workers i).queue) (moved % n)
          (v.process (processAll (workers (moved % n)).queue)) := by
      funext i
      by_cases hi : i = moved % n
      · subst hi
        simp [processAll, Worker.give]
      · simp [hi]
    obtain ⟨done, hdone, heq⟩ := ih (if v.moves stuck then moved + 1 else moved)
      (update workers (moved % n) ((workers (moved % n)).give v)) hmatch haccepted
    refine ⟨done, ?_, ?_⟩
    · rw [← hnext] at hdone
      exact (if_pos hok).trans hdone
    · rw [heq, hbins]
      rfl

/-- The bins of the workers add up to those of one array, and the multipass bin of a worker is empty
unless a voice whose samples wait in it is with that worker. -/
structure Held (n : Nat) (fed : List Nat) (bins : Nat → Fin 32 → G) (one : Fin 32 → G) : Prop where
  sum : ∑ i ∈ Finset.range n, bins i = one
  others : ∀ i < n, (∀ m ∈ fed, m % n ≠ i) → bins i multipassBin = 0

theorem Held.multipass_eq (h : Held n fed bins one) (hw : w < n) (hfed : ∀ m ∈ fed, m % n = w) :
    bins w multipassBin = one multipassBin := by
  rw [← h.sum, Finset.sum_apply]
  have hrest : ∀ i ∈ Finset.range n, i ≠ w → bins i multipassBin = 0 := fun i hi hne =>
    h.others i (Finset.mem_range.mp hi) fun m hm heq => hne (heq ▸ hfed m hm)
  exact (Finset.sum_eq_single w hrest fun hout => absurd (Finset.mem_range.mpr hw) hout).symm

theorem Held.process (h : Held n fed bins one) (hn : 0 < n) (horderly : v.Orderly)
    (hfed : v.reads = true → ∀ m ∈ fed, m % n = moved % n) :
    Held n ((if v.feeds then [moved] else []) ++ if v.reads then [] else fed)
      (update bins (moved % n) (v.process (bins (moved % n)))) (v.process one) := by
  have hw := Nat.mod_lt moved hn
  have hprocess := process_eq horderly
  have hchange : v.change (bins (moved % n) multipassBin) = v.change (one multipassBin) := by
    cases hreads : v.reads with
    | true => rw [h.multipass_eq hw (hfed hreads)]
    | false => rw [change_of_not_reads hreads, change_of_not_reads hreads (one _)]
  refine ⟨?_, fun i hi hother => ?_⟩
  · rw [Finset.sum_update_of_mem (Finset.mem_range.mpr hw), hprocess, hprocess, hchange, ← h.sum,
      ← Finset.add_sum_erase _ _ (Finset.mem_range.mpr hw), Finset.sdiff_singleton_eq_erase]
    abel
  · have hold : v.reads = false → bins i multipassBin = 0 := fun hreads =>
      h.others i hi fun m hm => hother m (mem_append_right _ (by rwa [hreads]))
    by_cases hne : i = moved % n
    · have hfeeds : v.feeds = false := by
        by_contra hfeeds
        rw [Bool.not_eq_false] at hfeeds
        exact hother moved (by simp [hfeeds]) hne.symm
      subst hne
      rw [update_self, hprocess, Pi.add_apply, change_multipass hfeeds]
      cases hreads : v.reads with
      | true => simp
      | false => simp [hold hreads]
    · rw [update_of_ne hne]
      cases hreads : v.reads with
      | true => exact h.others i hi fun m hm heq => hne (heq ▸ hfed hreads m hm)
      | false => exact hold hreads

/-- Over a served queue the workers' bins sum to what one thread mixes. -/
theorem Held.spread_sum (h : Held n fed bins one) (hn : 0 < n) (horderly : ∀ v ∈ queue, v.Orderly)
    (hserved : Served n stuck moved fed (queue.map Voice.toShape)) :
    ∑ i ∈ Finset.range n, spread n stuck moved queue bins i = queue.foldl Voice.process one := by
  induction queue generalizing stuck moved fed bins one with
  | nil => exact h.sum
  | cons v queue ih =>
    obtain ⟨hv, horderly⟩ := forall_mem_cons.mp horderly
    exact ih (h.process hn hv hserved.1) horderly hserved.2

end

/-! ## A source that is not heard

Where a multipass voice and one of its sources are with different workers, let the source put out 1, the
multipass voice turn 1 into 2, and every later multipass voice keep 2 and nothing else. In order the queue
ends with a 2 in some bin; the workers never have more than the 1. -/

section

variable {n moved w : Nat} {stuck : Bool} {fed : List Nat} {v : Shape} {queue : List Shape}
  {bins : Nat → Fin 32 → ℤ} {one : Fin 32 → ℤ} {x : ℤ}

/-- The voice that puts out `f` of what it reads, in one slot. -/
def Shape.sounding (v : Shape) (slot : Fin 8) (f : ℤ → ℤ) : Voice ℤ :=
  { v with mix := fun samples i => if i = slot then f samples else 0 }

theorem sounding_contribution (v : Shape) (slot : Fin 8) (f : ℤ → ℤ) (samples : ℤ) :
    (v.sounding slot f).contribution samples = Pi.single (v.bin slot) (f samples) := by
  unfold Voice.contribution Shape.sounding
  rw [← Fin.sum_univ_def, Finset.sum_eq_single slot]
  · simp
  · intro i _ hne
    simp [hne]
  · exact fun hout => absurd (Finset.mem_univ slot) hout

theorem sounding_process (h : v.Orderly) (slot : Fin 8) (f : ℤ → ℤ) (m : Fin 32 → ℤ) :
    (v.sounding slot f).process m = m + if v.paused then 0
      else if v.multipass then Pi.single (v.bin slot) (f (m multipassBin)) - Pi.single multipassBin (m multipassBin)
      else Pi.single (v.bin slot) (f 0) := by
  rw [process_eq (v := v.sounding slot f) h]
  unfold Voice.change
  rw [sounding_contribution, sounding_contribution]
  rfl

/-- A voice that puts out nothing where it reads nothing. -/
theorem sounding_deaf (h : v.Orderly) (slot : Fin 8) {f : ℤ → ℤ} (hf : f 0 = 0) {m : Fin 32 → ℤ}
    (hm : v.reads = true → m multipassBin = 0) : (v.sounding slot f).process m = m := by
  unfold Shape.reads at hm
  rw [sounding_process h, hf]
  cases hpaused : v.paused with
  | true => simp
  | false =>
    cases hmultipass : v.multipass with
    | false => simp
    | true => simp [hm (by simp [hpaused, hmultipass]), hf]

theorem sounding_reads (h : v.Orderly) (hreads : v.reads = true) (slot : Fin 8) (f : ℤ → ℤ) (x : ℤ) :
    (v.sounding slot f).process (Pi.single multipassBin x) = Pi.single (v.bin slot) (f x) := by
  obtain ⟨hmultipass, hpaused⟩ := Bool.and_eq_true_iff.mp hreads
  rw [sounding_process h, hmultipass, Bool.not_eq_true' _ |>.mp hpaused]
  simp

theorem sounding_emits (h : v.Orderly) (hfeeds : v.feeds = true) :
    ∃ slot, (v.sounding slot fun _ => 1).process 0 = Pi.single multipassBin 1 := by
  obtain ⟨hpaused, hfeeds⟩ := Bool.and_eq_true_iff.mp hfeeds
  obtain ⟨slot, hslot⟩ := of_decide_eq_true hfeeds
  refine ⟨slot, ?_⟩
  rw [sounding_process h, Bool.not_eq_true' _ |>.mp hpaused, hslot]
  cases v.multipass <;> simp

/-- The bins of the workers when all there is are samples in one worker's multipass bin. -/
def token (w : Nat) (x : ℤ) : Nat → Fin 32 → ℤ := Pi.single w (Pi.single multipassBin x)

/-- Voices of the given shapes for which the workers have no more than a 1 in a multipass bin, where the
queue in order gives a 2. -/
def Differs (n : Nat) (stuck : Bool) (moved : Nat) (queue : List Shape) (bins : Nat → Fin 32 → ℤ)
    (one : Fin 32 → ℤ) : Prop :=
  ∃ voices : List (Voice ℤ), voices.map Voice.toShape = queue ∧ ∃ w x b, w < n ∧ x ≤ 1 ∧
    spread n stuck moved voices bins = token w x ∧ voices.foldl Voice.process one = Pi.single b 2

theorem Differs.cons (v : Voice ℤ)
    (h : Differs n (v.stuckAfter stuck) (if v.moves stuck then moved + 1 else moved) queue
      (update bins (moved % n) (v.process (bins (moved % n)))) (v.process one)) :
    Differs n stuck moved (v.toShape :: queue) bins one := by
  obtain ⟨voices, rfl, h⟩ := h
  exact ⟨v :: voices, rfl, h⟩

/-- A voice that leaves both sides as they are. -/
theorem Differs.skip (slot : Fin 8) (f : ℤ → ℤ)
    (hbins : (v.sounding slot f).process (bins (moved % n)) = bins (moved % n))
    (hone : (v.sounding slot f).process one = one)
    (h : Differs n (v.stuckAfter stuck) (if v.moves stuck then moved + 1 else moved) queue bins one) :
    Differs n stuck moved (v :: queue) bins one := by
  refine Differs.cons (v.sounding slot f) ?_
  rw [hbins, hone, update_eq_self]
  exact h

theorem token_multipass (w i : Nat) (x : ℤ) : token w x i multipassBin = if i = w then x else 0 := by
  unfold token
  split
  · next h => rw [h, Pi.single_eq_same, Pi.single_eq_same]
  · next h => rw [Pi.single_eq_of_ne h, Pi.zero_apply]

def onlyTurns (x samples : ℤ) : ℤ := if samples = x then 2 else 0

theorem onlyTurns_of_ne {x samples : ℤ} (h : samples ≠ x) : onlyTurns x samples = 0 := if_neg h

theorem onlyTurns_self (x : ℤ) : onlyTurns x x = 2 := if_pos rfl

theorem differs_behind (horderly : ∀ v ∈ queue, v.Orderly) (hw : w < n) (hx : x ≤ 1) (b : Fin 32) :
    Differs n stuck moved queue (token w x) (Pi.single b 2) := by
  induction queue generalizing stuck moved x b with
  | nil => exact ⟨[], rfl, w, x, b, hw, hx, rfl, rfl⟩
  | cons v queue ih =>
    obtain ⟨hv, horderly⟩ := forall_mem_cons.mp horderly
    refine Differs.cons (v.sounding 0 (onlyTurns 2)) ?_
    have hzero : onlyTurns 2 0 = 0 := rfl
    have hbins : ∃ y ≤ 1, update (token w x) (moved % n) ((v.sounding 0 (onlyTurns 2)).process (token w x (moved % n))) =
        token w y := by
      by_cases hread : v.reads = true ∧ moved % n = w
      · obtain ⟨hreads, rfl⟩ := hread
        refine ⟨0, by decide, ?_⟩
        have htoken : token (moved % n) x (moved % n) = Pi.single multipassBin x := Pi.single_eq_same _ _
        rw [htoken, sounding_reads hv hreads, onlyTurns_of_ne (by omega)]
        funext i
        by_cases hi : i = moved % n
        · simp [hi, token]
        · simp [hi, token]
      · refine ⟨x, hx, ?_⟩
        rw [sounding_deaf hv 0 hzero fun hreads => ?_, update_eq_self]
        rw [token_multipass, if_neg fun heq => hread ⟨hreads, heq⟩]
    have hone : ∃ b', (v.sounding 0 (onlyTurns 2)).process (Pi.single b 2) = Pi.single b' 2 := by
      by_cases hread : v.reads = true ∧ b = multipassBin
      · obtain ⟨hreads, rfl⟩ := hread
        exact ⟨v.bin 0, by rw [sounding_reads hv hreads, onlyTurns_self]⟩
      · refine ⟨b, sounding_deaf hv 0 hzero fun hreads => ?_⟩
        exact Pi.single_eq_of_ne (fun heq => hread ⟨hreads, heq.symm⟩) 2
    obtain ⟨y, hy, hbins⟩ := hbins
    obtain ⟨b', hone⟩ := hone
    rw [hbins, hone]
    exact ih horderly hy b'

/-- The next unpaused multipass voice is with another worker than `w`. -/
def Misses (n w : Nat) : Bool → Nat → List Shape → Prop
  | _, _, [] => False
  | stuck, moved, v :: queue =>
    if v.reads then moved % n ≠ w
    else Misses n w (v.stuckAfter stuck) (if v.moves stuck then moved + 1 else moved) queue

theorem Misses.differs (h : Misses n w stuck moved queue) (horderly : ∀ v ∈ queue, v.Orderly) (hw : w < n) :
    Differs n stuck moved queue (token w 1) (Pi.single multipassBin 1) := by
  induction queue generalizing stuck moved with
  | nil => exact h.elim
  | cons v queue ih =>
    obtain ⟨hv, horderly⟩ := forall_mem_cons.mp horderly
    unfold Misses at h
    cases hreads : v.reads with
    | true =>
      rw [hreads, if_pos rfl] at h
      refine Differs.cons (v.sounding 0 (onlyTurns 1)) ?_
      rw [sounding_deaf hv 0 rfl fun _ => by rw [token_multipass, if_neg h], update_eq_self,
        sounding_reads hv hreads, onlyTurns_self]
      exact differs_behind horderly hw le_rfl _
    | false =>
      rw [hreads] at h
      have hnot : ¬v.reads = true := by rw [hreads]; exact Bool.false_ne_true
      have hdeaf := fun m => sounding_deaf (m := m) hv 0 (f := fun _ => 0) rfl fun h => absurd h hnot
      exact Differs.skip 0 (fun _ => 0) (hdeaf _) (hdeaf _) (ih h horderly)

theorem differs_of_not_served (h : ¬Served n stuck moved fed queue) (horderly : ∀ v ∈ queue, v.Orderly)
    (hn : 0 < n) : (∃ m ∈ fed, Misses n (m % n) stuck moved queue) ∨ Differs n stuck moved queue 0 0 := by
  induction queue generalizing stuck moved fed with
  | nil => exact absurd trivial h
  | cons v queue ih =>
    obtain ⟨hv, horderly⟩ := forall_mem_cons.mp horderly
    unfold Misses
    by_cases hread : v.reads = true → ∀ m ∈ fed, m % n = moved % n
    · have hlater : ¬Served n _ _ _ queue := fun hserved => h ⟨hread, hserved⟩
      rcases ih hlater horderly with ⟨m, hm, hmiss⟩ | hdiffers
      · rcases mem_append.mp hm with hm | hm
        · obtain ⟨hfeeds, rfl⟩ : v.feeds = true ∧ m = moved := by simpa using hm
          right
          obtain ⟨slot, hemits⟩ := sounding_emits hv hfeeds
          refine Differs.cons (v.sounding slot fun _ => 1) ?_
          rw [Pi.zero_apply, hemits]
          exact hmiss.differs horderly (Nat.mod_lt m hn)
        · left
          have hreads : v.reads = false := by
            by_contra hreads
            rw [if_pos (Bool.not_eq_false _ ▸ hreads)] at hm
            exact absurd hm not_mem_nil
          rw [hreads] at hm
          exact ⟨m, hm, by rwa [hreads]⟩
      · right
        have hdeaf := sounding_deaf (m := 0) hv 0 (f := fun _ => 0) rfl fun _ => rfl
        exact Differs.skip 0 (fun _ => 0) hdeaf hdeaf hdiffers
    · left
      push Not at hread
      obtain ⟨hreads, m, hm, hne⟩ := hread
      exact ⟨m, hm, by rw [if_pos hreads]; exact hne.symm⟩

theorem sum_token_ne {b : Fin 32} (hw : w < n) (hx : x ≤ 1) :
    ∑ i ∈ Finset.range n, token w x i ≠ Pi.single b 2 := by
  have hsum : ∑ i ∈ Finset.range n, token w x i = Pi.single multipassBin x := by
    rw [Finset.sum_eq_single_of_mem w (Finset.mem_range.mpr hw) fun i _ hne => Pi.single_eq_of_ne hne _]
    exact Pi.single_eq_same _ _
  rw [hsum]
  intro heq
  have hb := congrFun heq b
  by_cases hbin : b = multipassBin
  · subst hbin
    simp only [Pi.single_eq_same] at hb
    omega
  · simp [hbin] at hb

end

/-- For every queue that the assertions accept and every number of workers: whatever the voices put out,
the bins of the workers add up to those of one array on which the queue is processed in order, if and only
if every unpaused multipass voice has its sources on its own worker. -/
theorem workers_mix_iff_served (n : Nat) (queue : List Shape) (hn : 0 < n)
    (haccepted : Accepted 0 (queue.map Shape.bins)) :
    (∀ (G : Type) [AddCommGroup G] (voices : List (Voice G)), voices.map Voice.toShape = queue →
      ∃ workers, scheduled n voices = some workers ∧ workersSum n workers = processAll voices) ↔
    Served n false 0 [] queue := by
  have hmatch : Matching false 0 false := ⟨by simp, nofun⟩
  have horderly := haccepted.orderly
  have hspread {G : Type} [AddCommGroup G] {voices : List (Voice G)} (hshapes : voices.map Voice.toShape = queue) :
      ∃ workers, scheduled n voices = some workers ∧
        workersSum n workers = ∑ i ∈ Finset.range n, spread n false 0 voices 0 i := by
    have haccepted : Accepted 0 (voices.map fun v => v.bins) := by
      rw [← hshapes, map_map] at haccepted
      exact haccepted
    obtain ⟨workers, hscheduled, heq⟩ := scheduleFrom_spread n 0 (noWork (Voice G)) hmatch haccepted
    rw [Nat.zero_mod] at hscheduled
    exact ⟨workers, hscheduled, Finset.sum_congr rfl fun i _ => congrFun heq i⟩
  constructor
  · intro hall
    by_contra hserved
    rcases differs_of_not_served hserved horderly hn with ⟨_, hm, _⟩ | ⟨voices, hshapes, hdiffers⟩
    · exact absurd hm not_mem_nil
    · obtain ⟨w, x, b, hw, hx, hbins, hone⟩ := hdiffers
      obtain ⟨workers, hscheduled, hsum⟩ := hspread hshapes
      obtain ⟨workers', hscheduled', hequal⟩ := hall ℤ voices hshapes
      obtain rfl : workers = workers' := Option.some_inj.mp (hscheduled.symm.trans hscheduled')
      rw [hsum, hbins] at hequal
      exact sum_token_ne hw hx (hequal.trans hone)
  · intro hserved G _ voices hshapes
    obtain ⟨workers, hscheduled, hsum⟩ := hspread hshapes
    refine ⟨workers, hscheduled, hsum.trans ?_⟩
    have hheld : Held n [] (0 : Nat → Fin 32 → G) 0 := ⟨Finset.sum_const_zero, fun _ _ _ => rfl⟩
    subst hshapes
    exact hheld.spread_sum hn (fun v hv => horderly _ (mem_map_of_mem hv)) hserved

/-! ## Examples of queues -/

def source : Shape :=
  { multipass := false, mpBin := 0, clearMix := false, bin := fun _ => multipassBin, paused := false }

def submix : Shape :=
  { multipass := true, mpBin := multipassBin, clearMix := true, bin := fun _ => 0, paused := false }

def feedback : Shape := { submix with bin := fun _ => multipassBin }

def pausedSubmix : Shape := { submix with paused := true }

def sounds (v : Shape) : Voice ℤ :=
  { v with mix := fun samples i => if i = 0 then (if v.multipass then samples else 1) else 0 }

/-- Two workers mix as one would two groups of sources and, last in the queue, a multipass voice that feeds
the bin it reads. -/
theorem workers_mix_iff_served_groups :
    let voices := [source, source, submix, source, submix, source, feedback].map sounds
    ∃ workers, scheduled 2 voices = some workers ∧ workersSum 2 workers = processAll voices := by
  exact (workers_mix_iff_served 2 [source, source, submix, source, submix, source, feedback] (by decide)
    (by decide)).mpr (by decide) ℤ _ rfl

/-- Two workers mix other bins than one where a multipass voice reads what another one fed, and where a
paused one leaves in the bin what its sources wrote. -/
theorem workers_mix_other :
    let fedBack := [source, feedback, submix].map sounds
    let pausedBetween := [source, pausedSubmix, source, submix].map sounds
    ((scheduled 2 fedBack).map fun workers => workersSum 2 workers 0) = some 0 ∧ processAll fedBack 0 = 1 ∧
      ((scheduled 2 pausedBetween).map fun workers => workersSum 2 workers 0) = some 1 ∧
        processAll pausedBetween 0 = 2 := by
  decide +kernel

end XogMobile.Apu.Mix
