import Mathlib.Tactic.IntervalCases
import XogMobile.Lib.Bytes
import XogMobile.Nv2a.Vertices

/-!
# Compressed blocks

A DXT block is four by four texels: two colours of 16 bits, for each texel an index into the colours and
two more between them, and in two of the formats the alpha of each texel. The functions of `s3tc.c` read
the numbers of a block as words and shift the fields out of them. `Dxt.texel` says where the fields are in
the bytes of the block.
-/

namespace XogMobile.Nv2a.S3tc

open Lib Nat

inductive Format where
  | dxt1
  | dxt3
  | dxt5
  deriving DecidableEq

def Format.blockSize : Format → Nat
  | .dxt1 => 8
  | .dxt3 => 16
  | .dxt5 => 16

theorem Format.blockSize_pos (format : Format) : 0 < format.blockSize := by
  cases format <;> decide

/-- `r[4]`, `g[4]`, `b[4]` and `a[16]`. -/
structure Colors where
  (r g b a : Nat → Byte)

def red (c : BitVec 16) : Byte := (((c.setWidth 32 &&& 0xF800) >>> 8) * 0xFF / 0xF8).setWidth 8

def green (c : BitVec 16) : Byte := (((c.setWidth 32 &&& 0x07E0) >>> 3) * 0xFF / 0xFC).setWidth 8

def blue (c : BitVec 16) : Byte := (((c.setWidth 32 &&& 0x001F) <<< 3) * 0xFF / 0xF8).setWidth 8

def mix (p q total : Word) (v0 v1 : Byte) : Byte :=
  ((p * v0.setWidth 32 + q * v1.setWidth 32) / total).setWidth 8

def channel (transparent : Bool) (v0 v1 : Byte) : Nat → Byte
  | 0 => v0
  | 1 => v1
  | 2 => if transparent then mix 1 1 2 v0 v1 else mix 2 1 3 v0 v1
  | _ => if transparent then 0 else mix 1 2 3 v0 v1

def decodeBc1Colors (c0 c1 : BitVec 16) (transparent : Bool) : Colors where
  r := channel transparent (red c0) (red c1)
  g := channel transparent (green c0) (green c1)
  b := channel transparent (blue c0) (blue c1)
  a := fun index => if index = 3 ∧ transparent then 0 else 255

def loadWord (bytes : Nat) (block : Nat → Byte) (n : Nat) : BitVec (8 * bytes) :=
  BitVec.ofNat _ (leNat (readBytes block (bytes * n) bytes))

/-- `a_palette`. -/
def alphaPalette (a0 a1 : Byte) (n : Nat) : Byte :=
  if a1 < a0 then
    match n with
    | 0 => a0
    | 1 => a1
    | 2 => mix 6 1 7 a0 a1
    | 3 => mix 5 2 7 a0 a1
    | 4 => mix 4 3 7 a0 a1
    | 5 => mix 3 4 7 a0 a1
    | 6 => mix 2 5 7 a0 a1
    | _ => mix 1 6 7 a0 a1
  else
    match n with
    | 0 => a0
    | 1 => a1
    | 2 => mix 4 1 5 a0 a1
    | 3 => mix 3 2 5 a0 a1
    | 4 => mix 2 3 5 a0 a1
    | 5 => mix 1 4 5 a0 a1
    | 6 => 0
    | _ => 255

/-- What `decompress_dxt*_block` passes to `write_block_to_texture`. -/
structure Block where
  colors : Colors
  indices : Word
  separateAlpha : Bool

/-- `decompress_dxt1_block`, `decompress_dxt3_block` and `decompress_dxt5_block`. -/
def decodeBlock (format : Format) (block : Nat → Byte) : Block :=
  match format with
  | .dxt1 =>
    let c0 := loadWord 2 block 0
    let c1 := loadWord 2 block 1
    ⟨decodeBc1Colors c0 c1 (c0 ≤ c1), loadWord 4 block 1, false⟩
  | .dxt3 =>
    let colors := decodeBc1Colors (loadWord 2 block 4) (loadWord 2 block 5) false
    let alpha := loadWord 8 block 0
    ⟨{ colors with a := fun i => ((((alpha >>> (4 * i)) &&& 0x0F) <<< 4) * 0xFF / 0xF0).setWidth 8 },
      loadWord 4 block 3, true⟩
  | .dxt5 =>
    let colors := decodeBc1Colors (loadWord 2 block 4) (loadWord 2 block 5) false
    let alpha := loadWord 8 block 0
    ⟨{ colors with
        a := fun i => alphaPalette (block 0) (block 1) ((alpha >>> (16 + 3 * i)) &&& 0x07).toNat },
      loadWord 4 block 3, true⟩

def Block.texel (b : Block) (xyIndex : Nat) (k : Nat) : Byte :=
  let index := ((b.indices >>> (2 * xyIndex)) &&& 0x03).toNat
  let alphaIndex := if b.separateAlpha then xyIndex else index
  match k with
  | 0 => b.colors.r index
  | 1 => b.colors.g index
  | 2 => b.colors.b index
  | _ => b.colors.a alphaIndex

namespace Dxt

def color (block : Nat → Nat) (k : Nat) : Nat := block k + 256 * block (k + 1)

def component (c : Nat) : Nat → Nat
  | 0 => c / 2048 * 255 / 31
  | 1 => c / 32 % 64 * 255 / 63
  | _ => c % 32 * 255 / 31

def between (halves : Bool) (v0 v1 : Nat) : Nat → Nat
  | 0 => v0
  | 1 => v1
  | 2 => if halves then (v0 + v1) / 2 else (2 * v0 + v1) / 3
  | _ => if halves then 0 else (v0 + 2 * v1) / 3

def index (block : Nat → Nat) (k x y : Nat) : Nat := block (k + y) / 4 ^ x % 4

def explicitAlpha (block : Nat → Nat) (x y : Nat) : Nat := block (2 * y + x / 2) / 16 ^ (x % 2) % 16 * 17

def mixture (a0 a1 code : Nat) : Nat :=
  if a1 < a0 then
    if code = 0 then a0 else if code = 1 then a1 else ((8 - code) * a0 + (code - 1) * a1) / 7
  else if code = 0 then a0
  else if code = 1 then a1
  else if code = 6 then 0
  else if code = 7 then 255
  else ((6 - code) * a0 + (code - 1) * a1) / 5

def mixedAlpha (block : Nat → Nat) (x y : Nat) : Nat :=
  mixture (block 0) (block 1) ((block 2 + 256 * (block 3 + 256 * (block 4 + 256 * (block 5 +
    256 * (block 6 + 256 * block 7))))) / 8 ^ (4 * y + x) % 8)

def texel (format : Format) (block : Nat → Nat) (x y : Nat) (k : Nat) : Nat :=
  match format with
  | .dxt1 =>
    let halves := decide (color block 0 ≤ color block 2)
    if k < 3 then
      between halves (component (color block 0) k) (component (color block 2) k) (index block 4 x y)
    else if halves ∧ index block 4 x y = 3 then 0 else 255
  | .dxt3 =>
    if k < 3 then
      between false (component (color block 8) k) (component (color block 10) k) (index block 12 x y)
    else explicitAlpha block x y
  | .dxt5 =>
    if k < 3 then
      between false (component (color block 8) k) (component (color block 10) k) (index block 12 x y)
    else mixedAlpha block x y

end Dxt

theorem land_shiftLeft (n k j : Nat) : n &&& ((2 ^ j - 1) <<< k) = n / 2 ^ k % 2 ^ j * 2 ^ k := by
  rw [← shiftRight_eq_div_pow, ← and_two_pow_sub_one_eq_mod, ← shiftLeft_eq]
  apply eq_of_testBit_eq
  intro i
  simp only [testBit_and, testBit_shiftLeft]
  by_cases hi : k ≤ i
  · simp [hi]
  · simp [hi]

theorem scale_five : ∀ q < 32, q * 8 * 0xFF % 2 ^ 32 / 0xF8 % 2 ^ 8 = q * 255 / 31 := by decide

theorem scale_six : ∀ q < 64, q * 4 * 0xFF % 2 ^ 32 / 0xFC % 2 ^ 8 = q * 255 / 63 := by decide

theorem toNat_red (c : BitVec 16) : (red c).toNat = Dxt.component c.toNat 0 := by
  have hland := land_shiftLeft c.toNat 11 5
  change c.toNat &&& 0xF800 = c.toNat / 2048 % 32 * 2048 at hland
  have hvalue : (red c).toNat = (c.toNat % 2 ^ 32 &&& 0xF800) >>> 8 * 0xFF % 2 ^ 32 / 0xF8 % 2 ^ 8 := by
    simp [red]
  have hfield : c.toNat / 2048 % 32 * 2048 / 2 ^ 8 = c.toNat / 2048 * 8 := by omega
  rw [hvalue, mod_eq_of_lt (show c.toNat < 2 ^ 32 by omega), hland, shiftRight_eq_div_pow,
    hfield, scale_five _ (by omega), Dxt.component]

theorem toNat_green (c : BitVec 16) : (green c).toNat = Dxt.component c.toNat 1 := by
  have hland := land_shiftLeft c.toNat 5 6
  change c.toNat &&& 0x07E0 = c.toNat / 32 % 64 * 32 at hland
  have hvalue : (green c).toNat = (c.toNat % 2 ^ 32 &&& 0x07E0) >>> 3 * 0xFF % 2 ^ 32 / 0xFC % 2 ^ 8 := by
    simp [green]
  have hfield : c.toNat / 32 % 64 * 32 / 2 ^ 3 = c.toNat / 32 % 64 * 4 := by omega
  rw [hvalue, mod_eq_of_lt (show c.toNat < 2 ^ 32 by omega), hland, shiftRight_eq_div_pow,
    hfield, scale_six _ (by omega), Dxt.component]

theorem toNat_blue (c : BitVec 16) : (blue c).toNat = Dxt.component c.toNat 2 := by
  have hland : c.toNat &&& 0x001F = c.toNat % 32 := and_two_pow_sub_one_eq_mod c.toNat 5
  have hvalue : (blue c).toNat = ((c.toNat % 2 ^ 32 &&& 0x001F) <<< 3 % 2 ^ 32 * 0xFF % 2 ^ 32) / 0xF8 % 2 ^ 8 := by
    simp [blue]
  have hfield : c.toNat % 32 * 2 ^ 3 % 2 ^ 32 = c.toNat % 32 * 8 := by omega
  rw [hvalue, mod_eq_of_lt (show c.toNat < 2 ^ 32 by omega), hland, shiftLeft_eq, hfield, scale_five _ (by omega)]
  rfl

theorem toNat_mix {p q total : Word} (hsum : p.toNat + q.toNat = total.toNat) (hpos : 0 < total.toNat)
    (hsmall : total.toNat ≤ 7) (v0 v1 : Byte) :
    (mix p q total v0 v1).toNat = (p.toNat * v0.toNat + q.toNat * v1.toNat) / total.toNat := by
  have hlt := v0.isLt
  have hlt' := v1.isLt
  have hp := mul_le_mul_left p.toNat (le_sub_one_of_lt hlt)
  have hq := mul_le_mul_left q.toNat (le_sub_one_of_lt hlt')
  have hdiv : (p.toNat * v0.toNat + q.toNat * v1.toNat) / total.toNat < 2 ^ 8 := Nat.div_lt_of_lt_mul (by omega)
  have hvalue : (mix p q total v0 v1).toNat =
      (p.toNat * v0.toNat + q.toNat * v1.toNat) % 2 ^ 32 / total.toNat % 2 ^ 8 := by
    simp [mix]
  have hsum' : p.toNat * v0.toNat + q.toNat * v1.toNat < 2 ^ 32 := by omega
  rw [hvalue, mod_eq_of_lt hsum', mod_eq_of_lt hdiv]

theorem toNat_channel (transparent : Bool) (v0 v1 : Byte) (n : Nat) :
    (channel transparent v0 v1 n).toNat = Dxt.between transparent v0.toNat v1.toNat n := by
  have hhalf : (mix 1 1 2 v0 v1).toNat = (1 * v0.toNat + 1 * v1.toNat) / 2 :=
    toNat_mix rfl (by decide) (by decide) v0 v1
  have hthird : (mix 2 1 3 v0 v1).toNat = (2 * v0.toNat + 1 * v1.toNat) / 3 :=
    toNat_mix rfl (by decide) (by decide) v0 v1
  have hthird' : (mix 1 2 3 v0 v1).toNat = (1 * v0.toNat + 2 * v1.toNat) / 3 :=
    toNat_mix rfl (by decide) (by decide) v0 v1
  rw [one_mul] at hhalf hthird hthird'
  rw [one_mul] at hhalf
  rcases n with _ | _ | _ | n
  · rfl
  · rfl
  · cases transparent with
    | false => exact hthird
    | true => exact hhalf
  · cases transparent with
    | false => exact hthird'
    | true => rfl

theorem toNat_alphaPalette (a0 a1 : Byte) {n : Nat} (hn : n < 8) :
    (alphaPalette a0 a1 n).toNat = Dxt.mixture a0.toNat a1.toNat n := by
  unfold alphaPalette Dxt.mixture
  by_cases hgt : a1 < a0
  · rw [if_pos hgt, if_pos (BitVec.lt_def.mp hgt)]
    interval_cases n
    · rfl
    · rfl
    all_goals exact toNat_mix rfl (by decide) (by decide) a0 a1
  · rw [if_neg hgt, if_neg fun h => hgt (BitVec.lt_def.mpr h)]
    interval_cases n
    · rfl
    · rfl
    · exact toNat_mix rfl (by decide) (by decide) a0 a1
    · exact toNat_mix rfl (by decide) (by decide) a0 a1
    · exact toNat_mix rfl (by decide) (by decide) a0 a1
    · exact toNat_mix rfl (by decide) (by decide) a0 a1
    · rfl
    · rfl

theorem toNat_loadWord_two (block : Nat → Byte) (n : Nat) :
    (loadWord 2 block n).toNat = Dxt.color (fun k => (block k).toNat) (2 * n) := by
  simp [loadWord, readBytes, leNat, Dxt.color, List.range_succ]
  omega

theorem toNat_loadWord_four (block : Nat → Byte) (n : Nat) :
    (loadWord 4 block n).toNat = (block (4 * n)).toNat + 256 * ((block (4 * n + 1)).toNat +
      256 * ((block (4 * n + 2)).toNat + 256 * (block (4 * n + 3)).toNat)) := by
  simp [loadWord, readBytes, leNat, List.range_succ]
  omega

theorem toNat_loadWord_eight (block : Nat → Byte) :
    (loadWord 8 block 0).toNat = (block 0).toNat + 256 * ((block 1).toNat + 256 * ((block 2).toNat +
      256 * ((block 3).toNat + 256 * ((block 4).toNat + 256 * ((block 5).toNat +
        256 * ((block 6).toNat + 256 * (block 7).toNat)))))) := by
  have h (k : Nat) := (block k).isLt
  simp [loadWord, readBytes, leNat, List.range_succ]
  omega

variable {x y k : Nat}

theorem div_mod_byte (hx : x < 4) (m : Nat) : m / 4 ^ x % 4 = m % 256 / 4 ^ x % 4 := by
  interval_cases x <;> simp only [reducePow] <;> omega

theorem index_eq (block : Nat → Byte) (n : Nat) (hx : x < 4) (hy : y < 4) :
    ((loadWord 4 block n >>> (2 * (4 * y + x))) &&& 0x03).toNat = Dxt.index (fun k => (block k).toNat) (4 * n) x y := by
  have hvalue : ((loadWord 4 block n >>> (2 * (4 * y + x))) &&& 0x03).toNat =
      (loadWord 4 block n).toNat / 2 ^ (2 * (4 * y + x)) % 4 := by
    rw [BitVec.toNat_and, BitVec.toNat_ushiftRight, shiftRight_eq_div_pow]
    exact and_two_pow_sub_one_eq_mod _ 2
  have hpow : 2 ^ (2 * (4 * y + x)) = 256 ^ y * 4 ^ x := by
    rw [Nat.pow_mul, pow_add, Nat.pow_mul]
  have hbyte : (loadWord 4 block n).toNat / 256 ^ y % 256 = (block (4 * n + y)).toNat := by
    have h (k : Nat) := (block k).isLt
    rw [toNat_loadWord_four]
    interval_cases y <;> simp only [reducePow, add_zero] <;> omega
  rw [hvalue, hpow, ← Nat.div_div_eq_div_mul, div_mod_byte hx, hbyte, Dxt.index]

theorem loadWord_eight_byte (block : Nat → Byte) (hk : k < 8) :
    (loadWord 8 block 0).toNat / 256 ^ k % 256 = (block k).toNat := by
  have h (k : Nat) := (block k).isLt
  rw [toNat_loadWord_eight]
  interval_cases k <;> simp only [reducePow] <;> omega

theorem scale_four : ∀ q < 16, q * 16 % 2 ^ 64 * 0xFF % 2 ^ 64 / 0xF0 % 2 ^ 8 = q * 17 := by decide

theorem explicitAlpha_eq (block : Nat → Byte) (hx : x < 4) (hy : y < 4) :
    (((((loadWord 8 block 0 >>> (4 * (4 * y + x))) &&& 0x0F) <<< 4) * 0xFF / 0xF0).setWidth 8).toNat =
      Dxt.explicitAlpha (fun k => (block k).toNat) x y := by
  have hfield : ((loadWord 8 block 0 >>> (4 * (4 * y + x))) &&& 0x0F).toNat =
      (block (2 * y + x / 2)).toNat / 16 ^ (x % 2) % 16 := by
    have hpow : 2 ^ (4 * (4 * y + x)) = 256 ^ (2 * y + x / 2) * 16 ^ (x % 2) := by
      rw [show 4 * (4 * y + x) = 8 * (2 * y + x / 2) + 4 * (x % 2) by omega, pow_add, Nat.pow_mul, Nat.pow_mul]
    have hnibble (m : Nat) : m / 16 ^ (x % 2) % 16 = m % 256 / 16 ^ (x % 2) % 16 := by
      obtain hzero | hone := mod_two_eq_zero_or_one x
      · rw [hzero]
        omega
      · rw [hone]
        omega
    rw [BitVec.toNat_and, BitVec.toNat_ushiftRight, shiftRight_eq_div_pow, hpow, ← Nat.div_div_eq_div_mul]
    refine (and_two_pow_sub_one_eq_mod _ 4).trans ?_
    rw [hnibble, loadWord_eight_byte block (by omega)]
  rw [Dxt.explicitAlpha, ← scale_four _ (mod_lt _ (by decide)), ← hfield]
  simp [shiftLeft_eq]

theorem mixedAlpha_eq (block : Nat → Byte) (x y : Nat) : (alphaPalette (block 0) (block 1)
        ((loadWord 8 block 0 >>> (16 + 3 * (4 * y + x))) &&& 0x07).toNat).toNat =
      Dxt.mixedAlpha (fun k => (block k).toNat) x y := by
  have hcode : ((loadWord 8 block 0 >>> (16 + 3 * (4 * y + x))) &&& 0x07).toNat =
      (loadWord 8 block 0).toNat / 65536 / 8 ^ (4 * y + x) % 8 := by
    rw [BitVec.toNat_and, BitVec.toNat_ushiftRight, shiftRight_eq_div_pow, pow_add, pow_mul, ← Nat.div_div_eq_div_mul]
    exact and_two_pow_sub_one_eq_mod _ 3
  have hnumber : (loadWord 8 block 0).toNat / 65536 = (block 2).toNat + 256 * ((block 3).toNat +
      256 * ((block 4).toNat + 256 * ((block 5).toNat + 256 * ((block 6).toNat + 256 * (block 7).toNat)))) := by
    rw [toNat_loadWord_eight]
    omega
  have hlt : ((loadWord 8 block 0 >>> (16 + 3 * (4 * y + x))) &&& 0x07).toNat < 8 := by
    rw [hcode]
    exact mod_lt _ (by decide)
  rw [toNat_alphaPalette _ _ hlt, hcode, hnumber, Dxt.mixedAlpha]

theorem decodeBc1Colors_eq (c0 c1 : BitVec 16) (transparent : Bool) (index : Nat) :
    ((decodeBc1Colors c0 c1 transparent).r index).toNat =
        Dxt.between transparent (Dxt.component c0.toNat 0) (Dxt.component c1.toNat 0) index ∧
      ((decodeBc1Colors c0 c1 transparent).g index).toNat =
        Dxt.between transparent (Dxt.component c0.toNat 1) (Dxt.component c1.toNat 1) index ∧
      ((decodeBc1Colors c0 c1 transparent).b index).toNat =
        Dxt.between transparent (Dxt.component c0.toNat 2) (Dxt.component c1.toNat 2) index := by
  rw [← toNat_red, ← toNat_red, ← toNat_green, ← toNat_green, ← toNat_blue, ← toNat_blue]
  exact ⟨toNat_channel .., toNat_channel .., toNat_channel ..⟩

theorem decodeBc1Colors_alpha (c0 c1 : BitVec 16) (transparent : Bool) (index : Nat) :
    ((decodeBc1Colors c0 c1 transparent).a index).toNat = if transparent ∧ index = 3 then 0 else 255 := by
  simp only [decodeBc1Colors, and_comm]
  split <;> rfl

theorem texel_eq (format : Format) (block : Nat → Byte) (hx : x < 4) (hy : y < 4) (hk : k < 4) :
    ((decodeBlock format block).texel (4 * y + x) k).toNat = Dxt.texel format (fun k => (block k).toNat) x y k := by
  have hcolor (n : Nat) : Dxt.color (fun k => (block k).toNat) (2 * n) = (loadWord 2 block n).toNat :=
    (toNat_loadWord_two block n).symm
  obtain ⟨hr, hg, hb⟩ := decodeBc1Colors_eq (loadWord 2 block 4) (loadWord 2 block 5) false
    ((loadWord 4 block 3 >>> (2 * (4 * y + x))) &&& 0x03).toNat
  cases format with
  | dxt1 =>
    have hle : decide ((loadWord 2 block 0).toNat ≤ (loadWord 2 block 1).toNat) =
        decide (loadWord 2 block 0 ≤ loadWord 2 block 1) :=
      decide_eq_decide.mpr BitVec.le_def.symm
    obtain ⟨hr, hg, hb⟩ := decodeBc1Colors_eq (loadWord 2 block 0) (loadWord 2 block 1)
      (loadWord 2 block 0 ≤ loadWord 2 block 1)
      ((loadWord 4 block 1 >>> (2 * (4 * y + x))) &&& 0x03).toNat
    have ha := decodeBc1Colors_alpha (loadWord 2 block 0) (loadWord 2 block 1)
      (loadWord 2 block 0 ≤ loadWord 2 block 1)
      ((loadWord 4 block 1 >>> (2 * (4 * y + x))) &&& 0x03).toNat
    rw [Dxt.texel, ← index_eq block 1 hx hy, hcolor 0, hcolor 1]
    interval_cases k
    · exact hr
    · exact hg
    · exact hb
    · exact ha
  | dxt3 =>
    rw [Dxt.texel, ← index_eq block 3 hx hy, hcolor 4, hcolor 5]
    interval_cases k
    · exact hr
    · exact hg
    · exact hb
    · exact explicitAlpha_eq block hx hy
  | dxt5 =>
    rw [Dxt.texel, ← index_eq block 3 hx hy, hcolor 4, hcolor 5]
    interval_cases k
    · exact hr
    · exact hg
    · exact hb
    · exact mixedAlpha_eq block x y

end XogMobile.Nv2a.S3tc
