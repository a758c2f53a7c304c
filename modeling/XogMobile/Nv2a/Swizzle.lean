import XogMobile.Lib.Blocks
import XogMobile.Lib.Bytes
import XogMobile.Lib.Rows
import XogMobile.Lib.ZOrder
import XogMobile.Nv2a.Vertices

/-!
# Swizzled textures

A swizzled texture stores its texels in the order of their interleaved coordinates. `swizzle_box` and
`unswizzle_box` copy between it and rows and slices of texels. They keep an offset for each axis and step
it with a mask instead of interleaving the coordinates of each texel. The offsets, the masks and the
offsets in bytes are words: beyond that size texels are lost.
-/

namespace XogMobile.Nv2a.Swizzle

open Lib Lib.ZOrder Function BitVec Nat List

inductive Axis where
  | x
  | y
  | z
  deriving DecidableEq

instance : Fintype Axis := ⟨{.x, .y, .z}, by rintro (_ | _ | _) <;> decide⟩

theorem sum_axis (f : Axis → Nat) : ∑ a, f a = f .x + f .y + f .z := by
  change Finset.sum {.x, .y, .z} f = _
  rw [Finset.sum_insert (by decide), Finset.sum_insert (by decide), Finset.sum_singleton, add_assoc]

structure MaskLoop where
  masks : Axis → Word
  (bit maskBit : Word)
  done : Bool

namespace MaskLoop

def init : MaskLoop := ⟨fun _ => 0, 1, 1, true⟩

def mark (size : Axis → Word) (s : MaskLoop) (a : Axis) : MaskLoop :=
  if s.bit < size a then
    { s with
      masks := update s.masks a (s.masks a ||| s.maskBit)
      maskBit := s.maskBit <<< 1
      done := false }
  else s

def round (size : Axis → Word) (s : MaskLoop) : MaskLoop :=
  let s := [Axis.x, .y, .z].foldl (mark size) { s with done := true }
  { s with bit := s.bit <<< 1 }

def loop (size : Axis → Word) : Nat → MaskLoop → Option MaskLoop
  | 0, _ => none
  | fuel + 1, s => if (round size s).done then some (round size s) else loop size fuel (round size s)

end MaskLoop

/-- `generate_swizzle_masks`, with its assertion. -/
def generateSwizzleMasks (fuel : Nat) (size : Axis → Word) : Option (Axis → Word) :=
  (MaskLoop.loop size fuel .init).bind fun s =>
    if s.masks .x ^^^ s.masks .y ^^^ s.masks .z = s.maskBit - 1 then some s.masks else none

def maskedLoop {σ : Type} (mask : Word) (count : Nat) (body : Nat → Word → σ → σ) (s : σ) : σ :=
  ((List.range count).foldl (fun (s : σ × Word) i => (body i s.2 s.1, (s.2 - mask) &&& mask)) (s, 0)).1

structure Texel where
  (x y z : Nat)
  (offX offY offZ : Word)

structure Box where
  size : Axis → Word
  (rowPitch slicePitch bytesPerPixel : Word)

namespace Box

def width (b : Box) : Nat := (b.size .x).toNat
def height (b : Box) : Nat := (b.size .y).toNat
def depth (b : Box) : Nat := (b.size .z).toNat

/-- The loops that `swizzle_box_internal` and `unswizzle_box_internal` share. -/
def loops {σ : Type} (b : Box) (masks : Axis → Word) (body : Texel → σ → σ) (s : σ) : σ :=
  maskedLoop (masks .z) b.depth (fun z offZ =>
    maskedLoop (masks .y) b.height fun y offY =>
      maskedLoop (masks .x) b.width fun x offX => body ⟨x, y, z, offX, offY, offZ⟩) s

/-- Where a texel is among rows and slices. The slices are counted by a pointer. -/
def linear (b : Box) (t : Texel) : Nat :=
  t.z * b.slicePitch.toNat + (BitVec.ofNat 32 t.y * b.rowPitch).toNat +
    (BitVec.ofNat 32 t.x * b.bytesPerPixel).toNat

def swizzled (b : Box) (t : Texel) : Nat :=
  ((t.offY + t.offZ) * b.bytesPerPixel).toNat + (t.offX * b.bytesPerPixel).toNat

def swizzleBox (fuel : Nat) (b : Box) (src dst : Nat → Byte) : Option (Nat → Byte) :=
  (generateSwizzleMasks fuel b.size).map fun masks =>
    b.loops masks (fun t => copyBlock b.bytesPerPixel.toNat src (b.linear t) (b.swizzled t)) dst

def unswizzleBox (fuel : Nat) (b : Box) (src dst : Nat → Byte) : Option (Nat → Byte) :=
  (generateSwizzleMasks fuel b.size).map fun masks =>
    b.loops masks (fun t => copyBlock b.bytesPerPixel.toNat src (b.swizzled t) (b.linear t)) dst

def visits (fuel : Nat) (b : Box) : Option (List Texel) :=
  (generateSwizzleMasks fuel b.size).map fun masks => b.loops masks (fun t ts => ts ++ [t]) []

end Box

def lastRound (log : Axis → Nat) : Nat := max (log .x) (max (log .y) (log .z))

def order (log : Axis → Nat) : List Axis := rounds [.x, .y, .z] log (lastRound log)

def wordMasks (log : Axis → Nat) (a : Axis) : Word := BitVec.ofNat 32 (mask a (order log))

section Masks

variable {size : Axis → Word} {log : Axis → Nat}

def MaskLoop.after (bits : List Axis) (k : Nat) (done : Bool) : MaskLoop where
  masks a := BitVec.ofNat 32 (mask a bits)
  bit := BitVec.ofNat 32 (2 ^ k)
  maskBit := BitVec.ofNat 32 (2 ^ bits.length)
  done

variable {k fuel : Nat}

theorem MaskLoop.mark_after (hsize : ∀ a, (size a).toNat = 2 ^ log a) (hk : k < 32)
    (bits : List Axis) (done : Bool) (a : Axis) :
    (MaskLoop.after bits k done).mark size a =
      if k < log a then MaskLoop.after (bits ++ [a]) k false else MaskLoop.after bits k done := by
  have hbit : (MaskLoop.after bits k done).bit < size a ↔ k < log a := by
    have hlt : 2 ^ k < 2 ^ 32 := Nat.pow_lt_pow_right (by decide) hk
    rw [lt_def, hsize]
    change 2 ^ k % 2 ^ 32 < _ ↔ _
    rw [mod_eq_of_lt hlt, Nat.pow_lt_pow_iff_right (by decide)]
  refine if_congr hbit ?_ rfl
  simp only [MaskLoop.after, MaskLoop.mk.injEq, true_and, and_true]
  constructor
  · funext a'
    rw [mask_append]
    by_cases ha : a' = a
    · subst ha
      have hor := two_pow_add_eq_or_of_lt (mask_lt a' bits) 1
      rw [update_self, mask, mask, if_pos rfl, add_comm, hor, lor_comm]
      apply eq_of_toNat_eq
      rw [toNat_or, toNat_ofNat, toNat_ofNat, toNat_ofNat, or_mod_two_pow, mul_one]
    · rw [update_of_ne ha, mask, if_neg (Ne.symm ha)]
      rfl
  · rw [length_append, length_singleton, pow_succ]
    apply eq_of_toNat_eq
    rw [toNat_shiftLeft, toNat_ofNat, toNat_ofNat, Nat.shiftLeft_eq, mod_mul_mod]

theorem MaskLoop.foldl_mark (hsize : ∀ a, (size a).toNat = 2 ^ log a) (hk : k < 32)
    (axes bits : List Axis) (done : Bool) :
    axes.foldl (MaskLoop.mark size) (MaskLoop.after bits k done) =
      MaskLoop.after (bits ++ axes.filter fun a => k < log a) k (done && (axes.filter fun a => k < log a).isEmpty) := by
  induction axes generalizing bits done with
  | nil => rw [filter_nil, append_nil, isEmpty_nil, Bool.and_true, foldl_nil]
  | cons a axes ih =>
    rw [foldl_cons, mark_after hsize hk]
    by_cases ha : k < log a
    · rw [if_pos ha, ih, filter_cons_of_pos (by simpa using ha)]
      simp
    · rw [if_neg ha, ih, filter_cons_of_neg (by simpa using ha)]

theorem MaskLoop.round_after (hsize : ∀ a, (size a).toNat = 2 ^ log a) (hk : k < 32) (bits : List Axis) (done : Bool) :
    (MaskLoop.after bits k done).round size =
      MaskLoop.after (bits ++ [Axis.x, .y, .z].filter fun a => k < log a) (k + 1)
        ([Axis.x, .y, .z].filter fun a => k < log a).isEmpty := by
  have hfold := foldl_mark hsize hk [.x, .y, .z] bits true
  rw [Bool.true_and] at hfold
  have hbit : BitVec.ofNat 32 (2 ^ k) <<< 1 = BitVec.ofNat 32 (2 ^ (k + 1)) := by
    apply eq_of_toNat_eq
    rw [toNat_shiftLeft, toNat_ofNat, toNat_ofNat, Nat.shiftLeft_eq, mod_mul_mod, ← pow_add]
  change (let s := [Axis.x, .y, .z].foldl (mark size) (MaskLoop.after bits k true)
    { s with bit := s.bit <<< 1 }) = _
  rw [hfold]
  simp only [MaskLoop.after, hbit]

theorem le_lastRound (log : Axis → Nat) (a : Axis) : log a ≤ lastRound log := by
  unfold lastRound
  cases a <;> omega

theorem filter_isEmpty_iff : ([Axis.x, .y, .z].filter fun a => k < log a).isEmpty = true ↔ lastRound log ≤ k := by
  rw [List.isEmpty_iff, filter_eq_nil_iff]
  unfold lastRound
  simp only [mem_cons, not_mem_nil, or_false, decide_eq_true_eq, forall_eq_or_imp, forall_eq]
  omega

theorem MaskLoop.loop_after (hsize : ∀ a, (size a).toNat = 2 ^ log a) (hlast : lastRound log < 32)
    (hk : k ≤ lastRound log) (hfuel : lastRound log < fuel + k) (done : Bool) :
    MaskLoop.loop size fuel (MaskLoop.after (rounds [.x, .y, .z] log k) k done) =
      some (MaskLoop.after (order log) (lastRound log + 1) true) := by
  induction fuel generalizing k done with
  | zero => omega
  | succ fuel ih =>
    rw [loop, round_after hsize (by omega), ← rounds_succ]
    by_cases hend : lastRound log ≤ k
    · obtain rfl : k = lastRound log := by omega
      have hnone : [Axis.x, .y, .z].filter (fun a => lastRound log < log a) = [] :=
        List.isEmpty_iff.mp (filter_isEmpty_iff.mpr hend)
      rw [rounds_succ, hnone, append_nil]
      rfl
    · have hsome := filter_isEmpty_iff.not.mpr hend
      rw [Bool.not_eq_true] at hsome
      rw [hsome]
      exact ih (by omega) (by omega) false

theorem mask_xor (bits : List Axis) : mask .x bits ^^^ mask .y bits ^^^ mask .z bits = 2 ^ bits.length - 1 := by
  induction bits with
  | nil => rfl
  | cons i bits ih =>
    have hpos := Nat.two_pow_pos bits.length
    have hbit (a : Axis) : (if i = a then 1 else 0) < 2 := by split <;> decide
    have hxor : (if i = .x then 1 else 0) ^^^ (if i = .y then 1 else 0) < 2 := by
      cases i <;> decide
    have hone : (if i = .x then 1 else 0) ^^^ (if i = .y then 1 else 0) ^^^
        (if i = .z then 1 else 0) = 1 := by
      cases i <;> rfl
    rw [mask, mask, mask, xor_cons (hbit .x) (hbit .y), xor_cons hxor (hbit .z), length_cons]
    omega

theorem generateSwizzleMasks_eq (hsize : ∀ a, (size a).toNat = 2 ^ log a) (hfuel : 32 ≤ fuel) :
    generateSwizzleMasks fuel size = some (wordMasks log) := by
  have hlog (a : Axis) : log a < 32 := by
    have hlt := (size a).isLt
    rwa [hsize, Nat.pow_lt_pow_iff_right (by decide)] at hlt
  have hlast : lastRound log < 32 := by
    have hx := hlog .x
    have hy := hlog .y
    have hz := hlog .z
    unfold lastRound
    omega
  have hloop : MaskLoop.loop size fuel .init = _ := MaskLoop.loop_after hsize hlast (zero_le _) (by omega) true
  rw [generateSwizzleMasks, hloop]
  apply if_pos
  apply eq_of_toNat_eq
  have hpos := Nat.two_pow_pos (order log).length
  change _ = (BitVec.ofNat 32 (2 ^ (order log).length) - 1).toNat
  have hone : BitVec.ofNat 32 (2 ^ (order log).length) - 1 = BitVec.ofNat 32 (2 ^ (order log).length - 1) := by
    rw [sub_eq_iff_eq_add]
    apply eq_of_toNat_eq
    rw [toNat_add, toNat_ofNat]
    change _ = ((2 ^ (order log).length - 1) % 2 ^ 32 + 1) % 2 ^ 32
    rw [mod_add_mod, Nat.sub_add_cancel hpos]
  rw [hone, ← mask_xor]
  simp only [MaskLoop.after, toNat_xor, toNat_ofNat, xor_mod_two_pow]

end Masks

theorem maskedLoop_eq {σ : Type} (mask : Word) (count : Nat) (body : Nat → Word → σ → σ) (s : σ) :
    maskedLoop mask count body s = (range count).foldl (fun s i => body i ((step mask)^[i] 0) s) s := by
  have hpair : (range count).foldl
      (fun (s : σ × Word) i => (body i s.2 s.1, (s.2 - mask) &&& mask)) (s, 0) =
        ((range count).foldl (fun s i => body i ((step mask)^[i] 0) s) s, (step mask)^[count] 0) := by
    induction count with
    | zero => rfl
    | succ count ih =>
      rw [range_succ, foldl_append, foldl_append, ih, Function.iterate_succ_apply']
      rfl
  rw [maskedLoop, hpair]

namespace Box

variable {b : Box} {log : Axis → Nat} {fuel : Nat}

def texel (masks : Axis → Word) (x y z : Nat) : Texel :=
  ⟨x, y, z, (step (masks .x))^[x] 0, (step (masks .y))^[y] 0, (step (masks .z))^[z] 0⟩

def texels (b : Box) (masks : Axis → Word) : List Texel :=
  (List.range b.depth).flatMap fun z => (List.range b.height).flatMap fun y =>
    (List.range b.width).map fun x => texel masks x y z

theorem texel_masks (log : Axis → Nat) (x y z : Nat) : texel (wordMasks log) x y z =
    ⟨x, y, z, .ofNat 32 (deposit .x (order log) x), .ofNat 32 (deposit .y (order log) y),
      .ofNat 32 (deposit .z (order log) z)⟩ := by
  simp only [texel, wordMasks, iterate_step]

theorem loops_eq {σ : Type} (masks : Axis → Word) (body : Texel → σ → σ) (s : σ) :
    b.loops masks body s = (b.texels masks).foldl (fun s t => body t s) s := by
  simp only [loops, maskedLoop_eq, texels, foldl_flatMap, foldl_map]
  rfl

theorem mem_texels {masks : Axis → Word} {t : Texel} : t ∈ b.texels masks ↔
    ∃ x y z, x < b.width ∧ y < b.height ∧ z < b.depth ∧ t = texel masks x y z := by
  simp only [texels, mem_flatMap, mem_map, mem_range]
  constructor
  · rintro ⟨z, hz, y, hy, x, hx, rfl⟩
    exact ⟨x, y, z, hx, hy, hz, rfl⟩
  · rintro ⟨x, y, z, hx, hy, hz, rfl⟩
    exact ⟨z, hz, y, hy, x, hx, rfl⟩

theorem visits_eq (hsize : ∀ a, (b.size a).toNat = 2 ^ log a) (hfuel : 32 ≤ fuel) :
    b.visits fuel = some (b.texels (wordMasks log)) := by
  rw [visits, generateSwizzleMasks_eq hsize hfuel, Option.map_some, loops_eq]
  generalize b.texels _ = ts
  have hfold (acc : List Texel) : ts.foldl (fun s t => s ++ [t]) acc = acc ++ ts := by
    induction ts generalizing acc with
    | nil => exact (append_nil acc).symm
    | cons t ts ih => rw [foldl_cons, ih, List.append_assoc, singleton_append]
  rw [hfold, nil_append]

end Box

def coords (x y z : Nat) : Axis → Nat
  | .x => x
  | .y => y
  | .z => z

def Texel.offset (t : Texel) : Nat := t.offX.toNat + (t.offY + t.offZ).toNat

namespace Box

/-- Each texel is visited at its interleaved coordinates, these fill the texture, and swizzling and
unswizzling undo each other. -/
structure Faithful (fuel : Nat) (b : Box) (log : Axis → Nat) : Prop where
  visits : ∃ ts, b.visits fuel = some ts ∧
    (∀ t ∈ ts, t.offset = interleave (order log) (coords t.x t.y t.z)) ∧
    ∀ x y z, x < b.width → y < b.height → z < b.depth → ∃ t ∈ ts, t.x = x ∧ t.y = y ∧ t.z = z
  bijective : Set.BijOn (ZOrder.interleave (order log)) {c | ∀ a, c a < (b.size a).toNat}
    (Set.Iio (b.width * b.height * b.depth))
  linear : ∀ src mid dst, ∃ s l, b.swizzleBox fuel src mid = some s ∧ b.unswizzleBox fuel s dst = some l ∧
    ∀ x y z k, x < b.width → y < b.height → z < b.depth → k < b.bytesPerPixel.toNat →
      l (z * b.slicePitch.toNat + y * b.rowPitch.toNat + x * b.bytesPerPixel.toNat + k) =
        src (z * b.slicePitch.toNat + y * b.rowPitch.toNat + x * b.bytesPerPixel.toNat + k)
  swizzled : ∀ src mid dst, ∃ l s, b.unswizzleBox fuel src mid = some l ∧ b.swizzleBox fuel l dst = some s ∧
    ∀ a < b.width * b.height * b.depth * b.bytesPerPixel.toNat, s a = src a

/-- Neither the texels nor the bytes of the two parts of an offset are too many for a word. -/
def Fits (b : Box) (log : Axis → Nat) : Prop :=
  b.width * b.height * b.depth ≤ 2 ^ 32 ∧
    mask .x (order log) * b.bytesPerPixel.toNat < 2 ^ 32 ∧
    (mask .y (order log) + mask .z (order log)) * b.bytesPerPixel.toNat < 2 ^ 32

theorem count_order (log : Axis → Nat) (a : Axis) : (order log).count a = log a := by
  have hone : [Axis.x, .y, .z].count a = 1 := by cases a <;> rfl
  rw [order, count_rounds hone]
  exact min_eq_right (le_lastRound log a)

theorem length_order (log : Axis → Nat) : (order log).length = log .x + log .y + log .z := by
  rw [← sum_count, sum_axis, count_order, count_order, count_order]

theorem deposit_add (log : Axis → Nat) (x y z : Nat) :
    deposit .x (order log) x + (deposit .y (order log) y + deposit .z (order log) z) =
      interleave (order log) (coords x y z) := by
  rw [← sum_deposit, sum_axis, add_assoc]
  rfl

section Sizes

variable {b : Box} {log : Axis → Nat} {fuel : Nat} (hsize : ∀ a, (b.size a).toNat = 2 ^ log a)

include hsize

theorem texels_eq : b.width * b.height * b.depth = 2 ^ (order log).length := by
  rw [length_order, pow_add, pow_add, width, height, depth, hsize, hsize, hsize]

theorem box_eq : {c : Axis → Nat | ∀ a, c a < (b.size a).toNat} = ZOrder.Box (order log) := by
  ext c
  simp only [ZOrder.Box, hsize, count_order]

theorem coords_mem {x y z : Nat} (hx : x < b.width) (hy : y < b.height) (hz : z < b.depth) :
    coords x y z ∈ ZOrder.Box (order log) := by
  rw [← box_eq hsize]
  intro a
  cases a <;> assumption

theorem interleave_bijective : Set.BijOn (ZOrder.interleave (order log))
    {c | ∀ a, c a < (b.size a).toNat} (Set.Iio (b.width * b.height * b.depth)) := by
  rw [box_eq hsize, texels_eq hsize]
  exact interleave_bijOn (order log)

theorem coords_last : interleave (order log) (coords (b.width - 1) (b.height - 1) (b.depth - 1)) =
    b.width * b.height * b.depth - 1 := by
  have hlast : coords (b.width - 1) (b.height - 1) (b.depth - 1) = fun a => 2 ^ (order log).count a - 1 := by
    funext a
    rw [count_order, ← hsize]
    cases a <;> rfl
  rw [hlast, interleave_last, texels_eq hsize]

section Fits

variable (hlen : (order log).length ≤ 32)

include hlen in
omit hsize in
theorem texel_offsets (x y z : Nat) :
    let t := texel (wordMasks log) x y z
    t.offX.toNat = deposit .x (order log) x ∧
      (t.offY + t.offZ).toNat = deposit .y (order log) y + deposit .z (order log) z := by
  have hlt := interleave_lt (order log) (coords x y z)
  have hpow : 2 ^ (order log).length ≤ 2 ^ 32 := Nat.pow_le_pow_right Nat.two_pos hlen
  rw [← deposit_add] at hlt
  rw [texel_masks]
  dsimp only
  rw [BitVec.toNat_add, BitVec.toNat_ofNat, BitVec.toNat_ofNat, BitVec.toNat_ofNat]
  constructor
  · exact Nat.mod_eq_of_lt (by omega)
  · rw [Nat.mod_eq_of_lt (show deposit .y (order log) y < 2 ^ 32 by omega),
      Nat.mod_eq_of_lt (show deposit .z (order log) z < 2 ^ 32 by omega), Nat.mod_eq_of_lt (by omega)]

include hlen in
omit hsize in
theorem texel_offset (x y z : Nat) : (texel (wordMasks log) x y z).offset = interleave (order log) (coords x y z) := by
  obtain ⟨hx, hyz⟩ := texel_offsets hlen x y z
  rw [Texel.offset, hx, hyz, deposit_add]

end Fits

omit hsize in
theorem swizzled_texel (x y z : Nat) : b.swizzled (texel (wordMasks log) x y z) =
      (deposit .y (order log) y + deposit .z (order log) z) * b.bytesPerPixel.toNat % 2 ^ 32 +
        deposit .x (order log) x * b.bytesPerPixel.toNat % 2 ^ 32 := by
  rw [texel_masks, swizzled, ← ofNat_add, toNat_mul, toNat_mul, toNat_ofNat, toNat_ofNat, mod_mul_mod, mod_mul_mod]

theorem length_le_of_fits (hfits : b.Fits log) : (order log).length ≤ 32 := by
  have hle := hfits.1
  rwa [texels_eq hsize, Nat.pow_le_pow_iff_right one_lt_two] at hle

omit hsize in
theorem swizzled_of_fits (hfits : b.Fits log) (x y z : Nat) : b.swizzled (texel (wordMasks log) x y z) =
      interleave (order log) (coords x y z) * b.bytesPerPixel.toNat := by
  have hx := mul_le_mul_right b.bytesPerPixel.toNat (deposit_le_mask .x (order log) x)
  have hyz := mul_le_mul_right b.bytesPerPixel.toNat
    (Nat.add_le_add (deposit_le_mask .y (order log) y) (deposit_le_mask .z (order log) z))
  rw [swizzled_texel, mod_eq_of_lt (hyz.trans_lt hfits.2.2),
    mod_eq_of_lt (hx.trans_lt hfits.2.1), ← deposit_add, add_comm, ← Nat.add_mul]

end Sizes

def place (b : Box) (x y z : Nat) : Nat :=
  z * b.slicePitch.toNat + y * b.rowPitch.toNat + x * b.bytesPerPixel.toNat

/-- Rows and slices do not overlap. -/
structure Pitched (b : Box) : Prop where
  pixel : 0 < b.bytesPerPixel.toNat
  row : b.width * b.bytesPerPixel.toNat ≤ b.rowPitch.toNat
  slice : b.height * b.rowPitch.toNat ≤ b.slicePitch.toNat ∨
    b.depth = 1 ∧ b.height * b.rowPitch.toNat ≤ 2 ^ 32

namespace Pitched

variable {b : Box} {masks : Axis → Word} {x x' y y' z z' k k' : Nat}

theorem linear_texel (h : b.Pitched) (hx : x < b.width) (hy : y < b.height) :
    b.linear (texel masks x y z) = b.place x y z := by
  have hrow : x * b.bytesPerPixel.toNat + b.bytesPerPixel.toNat ≤ b.width * b.bytesPerPixel.toNat := row_end_le hx
  have hslice : y * b.rowPitch.toNat + b.rowPitch.toNat ≤ b.height * b.rowPitch.toNat := row_end_le hy
  have hpixel := h.pixel
  have hpitch := h.row
  have hle := h.slice
  have hwidth := (b.size .x).isLt
  have hheight := (b.size .y).isLt
  change b.width < _ at hwidth
  change b.height < _ at hheight
  change z * _ + y % 2 ^ 32 * _ % 2 ^ 32 + x % 2 ^ 32 * _ % 2 ^ 32 = _
  rw [place, mod_eq_of_lt (show y < 2 ^ 32 by omega), mod_eq_of_lt (show x < 2 ^ 32 by omega),
    mod_eq_of_lt (show y * b.rowPitch.toNat < 2 ^ 32 by omega),
    mod_eq_of_lt (show x * b.bytesPerPixel.toNat < 2 ^ 32 by omega)]

theorem linear_inj (h : b.Pitched) (hx : x < b.width) (hx' : x' < b.width) (hy : y < b.height)
    (hy' : y' < b.height) (hz : z < b.depth) (hz' : z' < b.depth) (hk : k < b.bytesPerPixel.toNat)
    (hk' : k' < b.bytesPerPixel.toNat)
    (heq : b.place x y z + k = b.place x' y' z' + k') :
    x = x' ∧ y = y' ∧ z = z' ∧ k = k' := by
  have hrow {x k : Nat} (hx : x < b.width) (hk : k < b.bytesPerPixel.toNat) :
      x * b.bytesPerPixel.toNat + k < b.rowPitch.toNat := by
    have hend : x * b.bytesPerPixel.toNat + b.bytesPerPixel.toNat ≤ b.width * b.bytesPerPixel.toNat := row_end_le hx
    have hpitch := h.row
    omega
  have hslice {y k : Nat} (hy : y < b.height) (hk : k < b.rowPitch.toNat) :
      y * b.rowPitch.toNat + k < b.height * b.rowPitch.toNat := by
    have hend : y * b.rowPitch.toNat + b.rowPitch.toNat ≤ b.height * b.rowPitch.toNat := row_end_le hy
    omega
  unfold place at heq
  have hin := hslice hy (hrow hx hk)
  have hin' := hslice hy' (hrow hx' hk')
  obtain ⟨rfl, hplace⟩ : z = z' ∧ y * b.rowPitch.toNat + (x * b.bytesPerPixel.toNat + k) =
      y' * b.rowPitch.toNat + (x' * b.bytesPerPixel.toNat + k') := by
    obtain hle | ⟨hone, -⟩ := h.slice
    · refine (row_eq_iff (hin.trans_le hle) (hin'.trans_le hle)).mp ?_
      omega
    · obtain rfl : z = 0 := by omega
      obtain rfl : z' = 0 := by omega
      omega
  obtain ⟨rfl, hcolumn⟩ := (row_eq_iff (hrow hx hk) (hrow hx' hk')).mp hplace
  obtain ⟨rfl, rfl⟩ := (row_eq_iff hk hk').mp hcolumn
  exact ⟨rfl, rfl, rfl, rfl⟩

end Pitched

section

variable {b : Box} {log : Axis → Nat} {fuel : Nat} {src dst : Nat → Byte}
  (hsize : ∀ a, (b.size a).toNat = 2 ^ log a) (hfuel : 32 ≤ fuel) (hpitched : b.Pitched)

include hsize hfuel in
theorem swizzleBox_foldl : b.swizzleBox fuel src dst = some ((b.texels (wordMasks log)).foldl (fun dst t =>
      copyBlock b.bytesPerPixel.toNat src (b.linear t) (b.swizzled t) dst) dst) := by
  rw [swizzleBox, generateSwizzleMasks_eq hsize hfuel, Option.map_some, loops_eq]

include hsize hfuel in
theorem unswizzleBox_foldl : b.unswizzleBox fuel src dst = some ((b.texels (wordMasks log)).foldl (fun dst t =>
      copyBlock b.bytesPerPixel.toNat src (b.swizzled t) (b.linear t) dst) dst) := by
  rw [unswizzleBox, generateSwizzleMasks_eq hsize hfuel, Option.map_some, loops_eq]

include hsize in
theorem interleave_inj {x x' y y' z z' : Nat} (hx : x < b.width) (hx' : x' < b.width)
    (hy : y < b.height) (hy' : y' < b.height) (hz : z < b.depth) (hz' : z' < b.depth)
    (heq : interleave (order log) (coords x y z) = interleave (order log) (coords x' y' z')) :
    x = x' ∧ y = y' ∧ z = z' := by
  have hcoords := (interleave_bijOn (order log)).injOn (coords_mem hsize hx hy hz)
    (coords_mem hsize hx' hy' hz') heq
  exact ⟨congrFun hcoords .x, congrFun hcoords .y, congrFun hcoords .z⟩

include hsize hfuel hpitched in
theorem swizzleBox_eq (hfits : b.Fits log) : ∃ s, b.swizzleBox fuel src dst = some s ∧
    ∀ x y z k, x < b.width → y < b.height → z < b.depth → k < b.bytesPerPixel.toNat →
      s (interleave (order log) (coords x y z) * b.bytesPerPixel.toNat + k) = src (b.place x y z + k) := by
  refine ⟨_, swizzleBox_foldl hsize hfuel, ?_⟩
  intro x y z k hx hy hz hk
  rw [← swizzled_of_fits hfits, ← hpitched.linear_texel hx hy]
  refine foldl_copyBlock_of_inj (mem_texels.mpr ⟨x, y, z, hx, hy, hz, rfl⟩) hk ?_
  intro t ht j hj heq
  obtain ⟨x', y', z', hx', hy', hz', rfl⟩ := mem_texels.mp ht
  rw [swizzled_of_fits hfits, swizzled_of_fits hfits, row_eq_iff hj hk] at heq
  obtain ⟨rfl, rfl, rfl⟩ := interleave_inj hsize hx' hx hy' hy hz' hz heq.1
  exact ⟨rfl, heq.2⟩

include hsize hfuel hpitched in
theorem unswizzleBox_eq (hfits : b.Fits log) : ∃ l, b.unswizzleBox fuel src dst = some l ∧
    ∀ x y z k, x < b.width → y < b.height → z < b.depth → k < b.bytesPerPixel.toNat → l (b.place x y z + k) =
        src (interleave (order log) (coords x y z) * b.bytesPerPixel.toNat + k) := by
  refine ⟨_, unswizzleBox_foldl hsize hfuel, ?_⟩
  intro x y z k hx hy hz hk
  rw [← swizzled_of_fits hfits, ← hpitched.linear_texel hx hy]
  refine foldl_copyBlock_of_inj (mem_texels.mpr ⟨x, y, z, hx, hy, hz, rfl⟩) hk ?_
  intro t ht j hj heq
  obtain ⟨x', y', z', hx', hy', hz', rfl⟩ := mem_texels.mp ht
  rw [hpitched.linear_texel hx' hy', hpitched.linear_texel hx hy] at heq
  obtain ⟨rfl, rfl, rfl, rfl⟩ := hpitched.linear_inj hx' hx hy' hy hz' hz hj hk heq
  exact ⟨rfl, rfl⟩

include hsize hfuel hpitched in
theorem faithful_of_fits (hfits : b.Fits log) : Faithful fuel b log where
  visits := by
    refine ⟨_, visits_eq hsize hfuel, fun t ht => ?_, fun x y z hx hy hz => ?_⟩
    · obtain ⟨x, y, z, -, -, -, rfl⟩ := mem_texels.mp ht
      exact texel_offset (length_le_of_fits hsize hfits) x y z
    · exact ⟨_, mem_texels.mpr ⟨x, y, z, hx, hy, hz, rfl⟩, rfl, rfl, rfl⟩
  bijective := interleave_bijective hsize
  linear src mid dst := by
    obtain ⟨s, hs, hswizzled⟩ := swizzleBox_eq hsize hfuel hpitched hfits
    obtain ⟨l, hl, hlinear⟩ := unswizzleBox_eq hsize hfuel hpitched hfits
    refine ⟨s, l, hs, hl, fun x y z k hx hy hz hk => ?_⟩
    exact (hlinear x y z k hx hy hz hk).trans (hswizzled x y z k hx hy hz hk)
  swizzled src mid dst := by
    obtain ⟨l, hl, hlinear⟩ := unswizzleBox_eq hsize hfuel hpitched hfits
    obtain ⟨s, hs, hswizzled⟩ := swizzleBox_eq hsize hfuel hpitched hfits
    refine ⟨l, s, hl, hs, fun a ha => ?_⟩
    have hpixel : a / b.bytesPerPixel.toNat ∈ Set.Iio (b.width * b.height * b.depth) :=
      Nat.div_lt_of_lt_mul (by rwa [Nat.mul_comm])
    obtain ⟨c, hc, hinterleave⟩ := (interleave_bijective hsize).surjOn hpixel
    have hcoords : coords (c .x) (c .y) (c .z) = c := by
      funext axis
      cases axis <;> rfl
    have hk := Nat.mod_lt a hpitched.pixel
    rw [← Nat.div_add_mod' a b.bytesPerPixel.toNat, ← hinterleave, ← hcoords,
      hswizzled _ _ _ _ (hc .x) (hc .y) (hc .z) hk, hlinear _ _ _ _ (hc .x) (hc .y) (hc .z) hk]

include hsize in
theorem size_pos : 0 < b.width ∧ 0 < b.height ∧ 0 < b.depth := by
  have hpos (a : Axis) : 0 < (b.size a).toNat := by
    rw [hsize]
    exact Nat.two_pow_pos _
  exact ⟨hpos .x, hpos .y, hpos .z⟩

include hsize in
theorem length_le_of_faithful (h : Faithful fuel b log) : (order log).length ≤ 32 := by
  obtain ⟨hx, hy, hz⟩ := size_pos hsize
  obtain ⟨ts, -, hoffset, hall⟩ := h.visits
  obtain ⟨t, ht, htx, hty, htz⟩ := hall (b.width - 1) (b.height - 1) (b.depth - 1) (by omega) (by omega) (by omega)
  have hlast := hoffset t ht
  rw [htx, hty, htz, coords_last hsize, texels_eq hsize, Texel.offset] at hlast
  have hword := t.offX.isLt
  have hword' := (t.offY + t.offZ).isLt
  have hlt : 2 ^ (order log).length < 2 ^ 33 := by
    have hpos := Nat.two_pow_pos (order log).length
    omega
  rw [Nat.pow_lt_pow_iff_right Nat.one_lt_two] at hlt
  omega

include hsize hfuel in
theorem last_written (h : Faithful fuel b log) (hpixel : 0 < b.bytesPerPixel.toNat) :
    ∃ x y z, x < b.width ∧ y < b.height ∧ z < b.depth ∧ b.width * b.height * b.depth * b.bytesPerPixel.toNat ≤
        b.swizzled (texel (wordMasks log) x y z) + b.bytesPerPixel.toNat := by
  have hbytes : 0 < b.width * b.height * b.depth * b.bytesPerPixel.toNat := by
    rw [texels_eq hsize]
    exact Nat.mul_pos (Nat.two_pow_pos _) hpixel
  obtain ⟨l, s, -, hs, hbyte⟩ := h.swizzled (fun _ => 1) (fun _ => 0) (fun _ => 0)
  have hlast := hbyte _ (Nat.sub_one_lt hbytes.ne')
  rw [swizzleBox_foldl hsize hfuel] at hs
  cases hs
  by_contra hnone
  rw [foldl_copyBlock_of_none] at hlast
  · exact absurd hlast (by decide)
  · intro t ht hin
    obtain ⟨x, y, z, hx, hy, hz, rfl⟩ := mem_texels.mp ht
    exact hnone ⟨x, y, z, hx, hy, hz, by omega⟩

include hsize hfuel in
theorem fits_of_faithful (h : Faithful fuel b log) (hpixel : 0 < b.bytesPerPixel.toNat) : b.Fits log := by
  have hlen := length_le_of_faithful hsize h
  obtain ⟨x, y, z, hx, hy, hz, hlast⟩ := last_written hsize hfuel h hpixel
  have hpos := Nat.two_pow_pos (order log).length
  have hle : b.width * b.height * b.depth ≤ 2 ^ 32 := by
    rw [texels_eq hsize]
    exact Nat.pow_le_pow_right Nat.two_pos hlen
  rw [swizzled_texel, texels_eq hsize] at hlast
  -- Without wrapping around the texel would be at most the last one, so it is and nothing wraps around.
  have hmax : (2 ^ (order log).length - 1) * b.bytesPerPixel.toNat + b.bytesPerPixel.toNat =
      2 ^ (order log).length * b.bytesPerPixel.toNat := by
    rw [← Nat.succ_mul, Nat.succ_eq_add_one, Nat.sub_add_cancel hpos]
  have hwhole := Nat.mul_le_mul_right b.bytesPerPixel.toNat
    (Nat.le_sub_one_of_lt (interleave_lt (order log) (coords x y z)))
  have hparts := congrArg (· * b.bytesPerPixel.toNat) (deposit_add log x y z)
  rw [Nat.add_mul] at hparts
  have hmodx := Nat.mod_le (deposit .x (order log) x * b.bytesPerPixel.toNat) (2 ^ 32)
  have hmodyz := Nat.mod_le
    ((deposit .y (order log) y + deposit .z (order log) z) * b.bytesPerPixel.toNat) (2 ^ 32)
  have hsame : interleave (order log) (coords x y z) =
      interleave (order log) (coords (b.width - 1) (b.height - 1) (b.depth - 1)) := by
    rw [coords_last hsize, texels_eq hsize]
    apply Nat.eq_of_mul_eq_mul_right hpixel
    omega
  obtain ⟨rfl, rfl, rfl⟩ := interleave_inj hsize hx (by omega) hy (by omega) hz (by omega) hsame
  have hdeposit (a : Axis) : deposit a (order log) ((b.size a).toNat - 1) = mask a (order log) := by
    rw [hsize, ← count_order log a, deposit_last]
  have hlt := Nat.mod_lt (deposit .x (order log) (b.width - 1) * b.bytesPerPixel.toNat)
    (Nat.two_pow_pos 32)
  have hlt' := Nat.mod_lt ((deposit .y (order log) (b.height - 1) +
    deposit .z (order log) (b.depth - 1)) * b.bytesPerPixel.toNat) (Nat.two_pow_pos 32)
  refine ⟨hle, ?_, ?_⟩
  · rw [← hdeposit .x]
    change deposit .x (order log) (b.width - 1) * _ < _
    omega
  · rw [← hdeposit .y, ← hdeposit .z]
    change (deposit .y (order log) (b.height - 1) + deposit .z (order log) (b.depth - 1)) * _ < _
    omega

include hsize hfuel hpitched in
/-- Swizzling is faithful to exactly the boxes whose offsets fit. -/
theorem swizzle_box_faithful_iff : Faithful fuel b log ↔ b.Fits log :=
  ⟨fun h => fits_of_faithful hsize hfuel h hpitched.pixel, faithful_of_fits hsize hfuel hpitched⟩

end

def packed (width height depth bytesPerPixel : Word) : Box where
  size
    | .x => width
    | .y => height
    | .z => depth
  rowPitch := width * bytesPerPixel
  slicePitch := height * (width * bytesPerPixel)
  bytesPerPixel

theorem swizzle_box_faithful_small : Faithful 32 (packed 8 32 2 4) (coords 3 5 1) := by
  have hsize : ∀ a, ((packed 8 32 2 4).size a).toNat = 2 ^ coords 3 5 1 a := by
    intro a
    cases a <;> rfl
  have hpitched : (packed 8 32 2 4).Pitched := ⟨by decide, by decide, .inl (by decide)⟩
  exact (swizzle_box_faithful_iff hsize (le_refl 32) hpitched).mpr
    ⟨by decide, by decide, by decide⟩

/-- A texture of 2048 x 2048 x 2048 texels of one byte has 33 bits of coordinates. The last one is lost:
texels that differ in it are visited at the same offset. -/
theorem swizzle_box_aliases :
    (packed 2048 2048 2048 1).Pitched ∧ ¬ Faithful 32 (packed 2048 2048 2048 1) (coords 11 11 11) ∧
      ∃ ts, (packed 2048 2048 2048 1).visits 32 = some ts ∧
        ∃ t ∈ ts, ∃ t' ∈ ts, t.x = t'.x ∧ t.y = t'.y ∧ t.z = 0 ∧ t'.z = 1024 ∧
          t.offX = t'.offX ∧ t.offY = t'.offY ∧ t.offZ = t'.offZ := by
  have hsize : ∀ a, ((packed 2048 2048 2048 1).size a).toNat = 2 ^ coords 11 11 11 a := by
    intro a
    cases a <;> rfl
  have hpitched : (packed 2048 2048 2048 1).Pitched := ⟨by decide, by decide, .inl (by decide)⟩
  refine ⟨hpitched, fun h => ?_, _, visits_eq hsize (le_refl 32), ?_⟩
  · have hfits := (fits_of_faithful hsize (le_refl 32) h hpitched.pixel).1
    exact absurd hfits (by decide)
  · refine ⟨_, mem_texels.mpr ⟨0, 0, 0, by decide, by decide, by decide, rfl⟩, _,
      mem_texels.mpr ⟨0, 0, 1024, by decide, by decide, by decide, rfl⟩, rfl, rfl, rfl, rfl, rfl, rfl,
      ?_⟩
    rw [texel_masks, texel_masks]
    decide

end Box

end XogMobile.Nv2a.Swizzle
