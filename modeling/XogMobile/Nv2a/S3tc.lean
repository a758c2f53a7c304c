import Mathlib.Tactic.Ring
import XogMobile.Lib.Blocks
import XogMobile.Lib.Rows
import XogMobile.Lib.Tiles
import XogMobile.Nv2a.Dxt

/-!
# Decompression of textures

`s3tc_decompress_3d` runs through the blocks of a texture in the order they are stored: groups of up to
four slices, in a group the rows of blocks, in a row the blocks, and for each block its slices. Each block
is cut off at the width and the height. The indices, the positions and the offsets in bytes are `int`, so
this holds up to two gigabytes of compressed blocks and of texels.

The decoder records the offset of each block it reads and of each texel it writes. The records are for the
proofs alone.
-/

namespace XogMobile.Nv2a.S3tc

open Lib Function List Nat

structure Decoder where
  converted : Int → Byte
  (reads writes : List Word)

def Decoder.storeTexel (d : Decoder) (offset : Word) (texel : Nat → Byte) : Decoder where
  converted := storeBlock 4 texel offset.toInt d.converted
  reads := d.reads
  writes := d.writes ++ [offset]

/-- The values of `for (int v = start; v < start + 4 && v < size; v++)`. -/
def span (start size : Word) : List Word :=
  ((List.range 4).map fun n => start + BitVec.ofNat 32 n).takeWhile fun v =>
    v.slt (start + 4) && v.slt size

def writeBlockToTexture (b : Block) (i j width height zPosFactor : Word) (d : Decoder) : Decoder :=
  let x0 := i * 4
  let y0 := j * 4
  (span y0 height).foldl (fun d y =>
    (span x0 width).foldl (fun d x =>
      d.storeTexel ((zPosFactor + y * width + x) * 4) (b.texel (4 * (y - y0) + x - x0).toNat)) d) d

def decompressBlock (format : Format) (data : Int → Byte) (blockIndex i j width height zPosFactor : Word)
    (d : Decoder) : Decoder :=
  let offset := BitVec.ofNat 32 format.blockSize * blockIndex
  writeBlockToTexture (decodeBlock format fun k => data (offset.toInt + k)) i j width height zPosFactor
    { d with reads := d.reads ++ [offset] }

def numBlocks (size : Word) : Nat := (((size + 3) &&& ~~~3) / 4).toNat

structure DepthLoop where
  (curDepth subBlockIndex : Word)
  out : Decoder

def depthGroup (format : Format) (data : Int → Byte) (width height depth : Word) (s : DepthLoop) :
    DepthLoop :=
  let residualDepth := depth - s.curDepth
  let blockDepth := if residualDepth.slt 4 then residualDepth else 4
  let s := (List.range (numBlocks height)).foldl (fun s j =>
    (List.range (numBlocks width)).foldl (fun s i =>
      (List.range blockDepth.toInt.toNat).foldl (fun (s : DepthLoop) slice =>
        { s with
          out := decompressBlock format data s.subBlockIndex (BitVec.ofNat 32 i) (BitVec.ofNat 32 j)
            width height ((s.curDepth + BitVec.ofNat 32 slice) * width * height) s.out
          subBlockIndex := s.subBlockIndex + 1 }) s) s) s
  { s with curDepth := s.curDepth + blockDepth }

/-- `s3tc_decompress_3d`: the bytes that are allocated, and the decoder at the end. -/
def s3tcDecompress3d (format : Format) (data converted : Int → Byte) (width height depth : Word) :
    Option (Word × Decoder) :=
  if 0 < width ∧ 0 < height ∧ 0 < depth then
    some (width * height * depth * 4,
      ((List.range ((depth + 3) / 4).toNat).foldl (fun s _ => depthGroup format data width height depth s)
        ⟨0, 0, ⟨converted, [], []⟩⟩).out)
  else none

def s3tcDecompress2d (format : Format) (data converted : Int → Byte) (width height : Word) :
    Option (Word × Decoder) :=
  if 0 < width ∧ 0 < height then
    some (width * height * 4, (List.range (numBlocks height)).foldl (fun d j =>
      (List.range (numBlocks width)).foldl (fun d i =>
        decompressBlock format data
          (BitVec.ofNat 32 j * BitVec.ofNat 32 (numBlocks width) + BitVec.ofNat 32 i)
          (BitVec.ofNat 32 i) (BitVec.ofNat 32 j) width height 0 d) d) ⟨converted, [], []⟩)
  else none

def blocks (size : Nat) : Nat := (size + 3) / 4

/-- Where the block of a column, a row and a slice is stored. A group of four slices, or of those that are
left, is stored together. -/
def blockIndex (width height depth i j z : Nat) : Nat :=
  blocks width * blocks height * (4 * (z / 4)) +
    ((j * blocks width + i) * min 4 (depth - 4 * (z / 4)) + z % 4)

/-- Every block is read once and in order, every texel is written once, and it is the texel of the
format. -/
structure Decompressed (format : Format) (data converted : Int → Byte) (width height depth : Nat)
    (size : Word) (d : Decoder) : Prop where
  allocated : size.toNat = width * height * depth * 4
  reads : d.reads.map BitVec.toInt =
    (List.range (blocks width * blocks height * depth)).map fun n => ((format.blockSize * n : Nat) : Int)
  writes : (d.writes.map BitVec.toInt).Perm
    ((List.range (width * height * depth)).map fun n => ((4 * n : Nat) : Int))
  texels : ∀ x y z k, x < width → y < height → z < depth → k < 4 →
    (d.converted ((4 * ((z * height + y) * width + x) + k : Nat))).toNat =
      Dxt.texel format
        (fun n =>
          (data ((format.blockSize * blockIndex width height depth (x / 4) (y / 4) z + n : Nat))).toNat)
        (x % 4) (y % 4) k
  frame : ∀ a : Int, a < 0 ∨ ((width * height * depth * 4 : Nat) : Int) ≤ a → d.converted a = converted a

/-- Neither the texels nor the blocks have more bytes than an offset can count. -/
def Fits (format : Format) (width height depth : Nat) : Prop :=
  width * height * depth * 4 ≤ 2 ^ 31 ∧ blocks width * blocks height * depth * format.blockSize ≤ 2 ^ 31

def groupBlocks (columns rows depth : Nat) : List (Nat × Nat × Nat) :=
  (List.range rows).flatMap fun j => (List.range columns).flatMap fun i =>
    (List.range depth).map fun slice => (j, i, slice)

theorem length_groupBlocks (columns rows depth : Nat) :
    (groupBlocks columns rows depth).length = rows * (columns * depth) := by
  refine length_flatMap_const (fun j => length_flatMap_const (fun i => ?_) columns) rows
  rw [length_map, length_range]

theorem zipIdx_groupBlocks (columns rows depth n : Nat) :
    (groupBlocks columns rows depth).zipIdx n = (groupBlocks columns rows depth).map fun b =>
      (b, n + ((b.1 * columns + b.2.1) * depth + b.2.2)) := by
  have hslices (j i : Nat) : ((range depth).map fun slice => (j, i, slice)).length = depth := by
    rw [length_map, length_range]
  rw [groupBlocks, zipIdx_flatMap_range _ n fun j _ =>
    length_flatMap_const (fun j => length_flatMap_const (hslices j) columns) j, map_flatMap]
  refine flatMap_congr fun j _ => ?_
  rw [zipIdx_flatMap_range _ _ fun i _ => length_flatMap_const (hslices j) i, map_flatMap]
  refine flatMap_congr fun i _ => ?_
  rw [zipIdx_map_range, map_map]
  refine map_congr_left fun slice _ => ?_
  rw [comp_apply, add_mul, mul_assoc]
  refine Prod.ext rfl ?_
  dsimp only
  omega

theorem foldl_counter {α : Type} (body : Word → Word → α → Decoder → Decoder) (bs : List α) (cur : Word)
    (n : Nat) (out : Decoder) :
    bs.foldl (fun (s : DepthLoop) b =>
        { s with
          out := body s.subBlockIndex s.curDepth b s.out
          subBlockIndex := s.subBlockIndex + 1 }) ⟨cur, BitVec.ofNat 32 n, out⟩ =
      ⟨cur, BitVec.ofNat 32 (n + bs.length),
        (bs.zipIdx n).foldl (fun d b => body (BitVec.ofNat 32 b.2) cur b.1 d) out⟩ := by
  induction bs generalizing n out with
  | nil => rfl
  | cons b bs ih =>
    have hnext : BitVec.ofNat 32 n + 1 = BitVec.ofNat 32 (n + 1) := (BitVec.ofNat_add n 1).symm
    rw [foldl_cons, zipIdx_cons, foldl_cons, length_cons]
    rw [hnext, ih, add_right_comm, add_assoc]

section Group

variable {format : Format} {data : Int → Byte} {width height depth : Word}

theorem depthGroup_eq (cur : Word) (n : Nat) (out : Decoder) {blockDepth : Word} {slices : Nat}
    (hdepth : blockDepth = if (depth - cur).slt 4 then depth - cur else 4)
    (hslices : blockDepth.toInt.toNat = slices) :
    depthGroup format data width height depth ⟨cur, BitVec.ofNat 32 n, out⟩ = ⟨cur + blockDepth,
        BitVec.ofNat 32 (n + numBlocks height * (numBlocks width * slices)),
        (groupBlocks (numBlocks width) (numBlocks height) slices).foldl (fun d b =>
          decompressBlock format data (BitVec.ofNat 32 (n + ((b.1 * numBlocks width + b.2.1) * slices + b.2.2)))
            (BitVec.ofNat 32 b.2.1) (BitVec.ofNat 32 b.1) width height
            ((cur + BitVec.ofNat 32 b.2.2) * width * height) d) out⟩ := by
  have hfold := foldl_counter (fun index cur (b : Nat × Nat × Nat) d =>
    decompressBlock format data index (BitVec.ofNat 32 b.2.1) (BitVec.ofNat 32 b.1) width height
      ((cur + BitVec.ofNat 32 b.2.2) * width * height) d)
    (groupBlocks (numBlocks width) (numBlocks height) slices) cur n out
  rw [zipIdx_groupBlocks, foldl_map, length_groupBlocks] at hfold
  conv_lhs at hfold => simp only [groupBlocks, foldl_flatMap, foldl_map]
  unfold depthGroup
  dsimp only
  rw [← hdepth, hslices, hfold]

theorem s3tcDecompress3d_one (converted : Int → Byte) : s3tcDecompress3d format data converted width height 1 =
      s3tcDecompress2d format data converted width height := by
  have hgroups : range (((1 : Word) + 3) / 4).toNat = [0] := rfl
  have hone : (1 : Word) = if ((1 : Word) - 0).slt 4 then 1 - 0 else 4 := by decide
  have hslices : (1 : Word).toInt.toNat = 1 := rfl
  have hpos : ((0 : Word) + BitVec.ofNat 32 0) * width * height = 0 := by simp
  have hindex (j i : Nat) : BitVec.ofNat 32 (0 + ((j * numBlocks width + i) * 1 + 0)) =
      BitVec.ofNat 32 j * BitVec.ofNat 32 (numBlocks width) + BitVec.ofNat 32 i := by
    rw [zero_add, mul_one, add_zero, BitVec.ofNat_add, BitVec.ofNat_mul]
  have hsize : width * height * 1 * 4 = width * height * 4 := congrArg (· * 4) (BitVec.mul_one _)
  refine if_congr (and_congr_right fun _ => and_iff_left (by decide)) ?_ rfl
  rw [hgroups, foldl_cons, hsize]
  refine congrArg (fun out => some (_, out)) ?_
  refine (congrArg DepthLoop.out (depthGroup_eq 0 0 ⟨converted, [], []⟩ hone hslices)).trans ?_
  simp only [groupBlocks, foldl_flatMap, foldl_map, range_one, foldl_cons, foldl_nil, hindex, hpos]

end Group

theorem toInt_ofNat {n : Nat} (hn : n < 2 ^ 31) : (BitVec.ofNat 32 n).toInt = n := by
  rw [BitVec.toInt_eq_toNat_of_lt]
  · rw [BitVec.toNat_ofNat, mod_eq_of_lt (by omega)]
  · rw [BitVec.toNat_ofNat]
    omega

theorem slt_ofNat {m n : Nat} (hm : m < 2 ^ 31) (hn : n < 2 ^ 31) :
    (BitVec.ofNat 32 m).slt (BitVec.ofNat 32 n) = decide (m < n) := by
  rw [BitVec.slt, toInt_ofNat hm, toInt_ofNat hn]
  exact decide_eq_decide.mpr Int.ofNat_lt

theorem toNat_add_three {n : Nat} (hn : n < 2 ^ 31) : (BitVec.ofNat 32 n + 3).toNat = n + 3 := by
  bv_omega

theorem numBlocks_eq {size : Nat} (hsize : size < 2 ^ 31) : numBlocks (.ofNat 32 size) = blocks size := by
  have hmask : (~~~3 : Word).toNat = 2 ^ 32 - 4 := rfl
  have hand : ((.ofNat 32 size + 3) &&& ~~~3 : Word).toNat / 2 ^ 2 = (size + 3) / 2 ^ 2 := by
    rw [BitVec.toNat_and, and_div_two_pow, toNat_add_three hsize]
    refine (and_two_pow_sub_one_eq_mod _ 30).trans (mod_eq_of_lt ?_)
    omega
  exact hand

theorem span_eq {size j : Nat} (hj : j * 4 + 4 < 2 ^ 31) (hsize : size < 2 ^ 31) :
    span (.ofNat 32 j * 4) (.ofNat 32 size) = (tile 4 size j).map (BitVec.ofNat 32) := by
  have hstart (n : Nat) : BitVec.ofNat 32 j * 4 + BitVec.ofNat 32 n = BitVec.ofNat 32 (j * 4 + n) := by
    rw [BitVec.ofNat_add, BitVec.ofNat_mul]
    rfl
  have hend : BitVec.ofNat 32 j * 4 + 4 = BitVec.ofNat 32 (j * 4 + 4) := hstart 4
  rw [span, takeWhile_map, tile, map_map]
  rw [takeWhile_range (n := size - j * 4) fun n hn => ?_]
  · exact map_congr_left fun n _ => hstart n
  · rw [comp_apply, hstart, hend, slt_ofNat (by omega) hj, slt_ofNat (by omega) hsize, ← Bool.decide_and]
    exact decide_eq_decide.mpr (by omega)

structure Pos where
  (x y z : Nat)

def blockTexels (width height i j z : Nat) : List Pos :=
  (tile 4 height j).flatMap fun y => (tile 4 width i).map fun x => ⟨x, y, z⟩

def Pos.place (p : Pos) (width height : Nat) : Nat := 4 * ((p.z * height + p.y) * width + p.x)

theorem foldl_storeTexel (offset : Pos → Nat) (texel : Pos → Nat → Byte) (ps : List Pos) (d : Decoder) :
    ps.foldl (fun d p => d.storeTexel (BitVec.ofNat 32 (offset p)) (texel p)) d =
      ⟨ps.foldl (fun m p => storeBlock 4 (texel p) (BitVec.ofNat 32 (offset p)).toInt m) d.converted,
        d.reads, d.writes ++ ps.map fun p => BitVec.ofNat 32 (offset p)⟩ := by
  induction ps generalizing d with
  | nil =>
    rw [map_nil, append_nil]
    rfl
  | cons p ps ih =>
    rw [foldl_cons, ih, map_cons, append_cons]
    rfl

section Exact

variable {format : Format} {data : Int → Byte} {width height depth : Nat}

theorem writeBlockToTexture_eq (b : Block) {i j : Nat} (z : Nat) (hi : i * 4 + 4 < 2 ^ 31)
    (hj : j * 4 + 4 < 2 ^ 31) (hwidth : width < 2 ^ 31) (hheight : height < 2 ^ 31) (d : Decoder) :
    writeBlockToTexture b (.ofNat 32 i) (.ofNat 32 j) (.ofNat 32 width) (.ofNat 32 height)
        (.ofNat 32 z * .ofNat 32 width * .ofNat 32 height) d =
      (blockTexels width height i j z).foldl (fun d p =>
        d.storeTexel (.ofNat 32 (p.place width height)) (b.texel (4 * (p.y % 4) + p.x % 4))) d := by
  have hplace (x y : Nat) : (BitVec.ofNat 32 z * .ofNat 32 width * .ofNat 32 height +
      .ofNat 32 y * .ofNat 32 width + .ofNat 32 x) * 4 = .ofNat 32 (Pos.place ⟨x, y, z⟩ width height) := by
    have hnat : Pos.place ⟨x, y, z⟩ width height = (z * width * height + y * width + x) * 4 := by
      unfold Pos.place
      ring
    rw [hnat]
    simp only [BitVec.ofNat_mul, BitVec.ofNat_add]
    rfl
  have hindex {x y : Nat} (hx : x ∈ tile 4 width i) (hy : y ∈ tile 4 height j) :
      (4 * (BitVec.ofNat 32 y - BitVec.ofNat 32 j * 4) + BitVec.ofNat 32 x -
        BitVec.ofNat 32 i * 4).toNat = 4 * (y % 4) + x % 4 := by
    rw [mem_tile (by decide)] at hx hy
    have hrow : BitVec.ofNat 32 y - BitVec.ofNat 32 j * 4 = BitVec.ofNat 32 (y % 4) := by bv_omega
    have hcolumn : 4 * BitVec.ofNat 32 (y % 4) + BitVec.ofNat 32 x - BitVec.ofNat 32 i * 4 =
        BitVec.ofNat 32 (4 * (y % 4) + x % 4) := by bv_omega
    rw [hrow, hcolumn, BitVec.toNat_ofNat, mod_eq_of_lt (by omega)]
  unfold writeBlockToTexture blockTexels
  dsimp only
  rw [span_eq hj hheight, span_eq hi hwidth, foldl_flatMap, foldl_map]
  refine foldl_ext _ _ _ fun d y hy => ?_
  rw [foldl_map, foldl_map]
  refine foldl_ext _ _ _ fun d x hx => ?_
  rw [hplace, hindex hx hy]

structure BlockPos where
  (i j z : Nat)

def storedBlocks (width height depth groups : Nat) : List BlockPos :=
  (List.range groups).flatMap fun k =>
    (groupBlocks (blocks width) (blocks height) (min 4 (depth - 4 * k))).map fun b =>
      ⟨b.2.1, b.1, 4 * k + b.2.2⟩

theorem storedBlocks_succ (width height depth k : Nat) :
    storedBlocks width height depth (k + 1) = storedBlocks width height depth k ++
      (groupBlocks (blocks width) (blocks height) (min 4 (depth - 4 * k))).map fun b =>
        ⟨b.2.1, b.1, 4 * k + b.2.2⟩ := by
  rw [storedBlocks, storedBlocks, range_succ, flatMap_append, flatMap_singleton]

theorem mem_groupBlocks {columns rows slices : Nat} {b : Nat × Nat × Nat} :
    b ∈ groupBlocks columns rows slices ↔ b.1 < rows ∧ b.2.1 < columns ∧ b.2.2 < slices := by
  simp only [groupBlocks, mem_flatMap, mem_map, mem_range]
  constructor
  · rintro ⟨j, hj, i, hi, slice, hslice, rfl⟩
    exact ⟨hj, hi, hslice⟩
  · rintro ⟨hj, hi, hslice⟩
    exact ⟨b.1, hj, b.2.1, hi, b.2.2, hslice, rfl⟩

theorem blockIndex_group {k slice : Nat} (hslice : slice < min 4 (depth - 4 * k)) (i j : Nat) :
    blockIndex width height depth i j (4 * k + slice) = blocks width * blocks height * (4 * k) +
      ((j * blocks width + i) * min 4 (depth - 4 * k) + slice) := by
  have hgroup : (4 * k + slice) / 4 = k := by omega
  have hmod : (4 * k + slice) % 4 = slice := by omega
  rw [blockIndex, hgroup, hmod]

def decompressAt (format : Format) (data : Int → Byte) (width height depth : Nat) (d : Decoder)
    (b : BlockPos) : Decoder :=
  decompressBlock format data (.ofNat 32 (blockIndex width height depth b.i b.j b.z)) (.ofNat 32 b.i)
    (.ofNat 32 b.j) (.ofNat 32 width) (.ofNat 32 height)
    (.ofNat 32 b.z * .ofNat 32 width * .ofNat 32 height) d

theorem depthGroups_eq (hwidth : width < 2 ^ 31) (hheight : height < 2 ^ 31) (hdepth : depth < 2 ^ 31)
    {groups : Nat} (hgroups : groups ≤ blocks depth) (out : Decoder) :
    (List.range groups).foldl
        (fun s _ => depthGroup format data (.ofNat 32 width) (.ofNat 32 height) (.ofNat 32 depth) s)
        ⟨0, 0, out⟩ =
      ⟨.ofNat 32 (min (4 * groups) depth), .ofNat 32 (blocks width * blocks height * min (4 * groups) depth),
        (storedBlocks width height depth groups).foldl (decompressAt format data width height depth) out⟩ := by
  induction groups with
  | zero => rfl
  | succ k ih =>
    -- The groups before are full.
    have hfull : 4 * k < depth := by
      unfold blocks at hgroups
      omega
    have hresidual : BitVec.ofNat 32 depth - .ofNat 32 (4 * k) = .ofNat 32 (depth - 4 * k) := by
      bv_omega
    have hslt : (BitVec.ofNat 32 (depth - 4 * k)).slt 4 = decide (depth - 4 * k < 4) := slt_ofNat (by omega) (by decide)
    have hblock : BitVec.ofNat 32 (min 4 (depth - 4 * k)) =
        if (BitVec.ofNat 32 depth - .ofNat 32 (4 * k)).slt 4 then .ofNat 32 depth - .ofNat 32 (4 * k)
        else 4 := by
      rw [hresidual, hslt]
      by_cases hlast : depth - 4 * k < 4
      · rw [decide_eq_true hlast, if_pos rfl, min_eq_right (by omega)]
      · rw [decide_eq_false hlast, min_eq_left (by omega)]
        rfl
    have hslices : (BitVec.ofNat 32 (min 4 (depth - 4 * k))).toInt.toNat = min 4 (depth - 4 * k) := by
      rw [toInt_ofNat (by omega), Int.toNat_natCast]
    rw [range_succ, foldl_append, ih (by omega), foldl_cons, min_eq_left (le_of_lt hfull),
      depthGroup_eq _ _ _ hblock hslices, numBlocks_eq hwidth, numBlocks_eq hheight, ← BitVec.ofNat_add]
    have hnext : 4 * k + min 4 (depth - 4 * k) = min (4 * (k + 1)) depth := by omega
    refine DepthLoop.mk.injEq .. |>.mpr ⟨by rw [hnext], ?_, ?_⟩
    · rw [← hnext]
      congr 1
      ring
    · rw [storedBlocks_succ, foldl_append, foldl_map]
      refine foldl_ext _ _ _ fun d b hb => ?_
      obtain ⟨-, -, hslice⟩ := mem_groupBlocks.mp hb
      rw [decompressAt, blockIndex_group hslice, BitVec.ofNat_add (4 * k)]

end Exact

variable {groups width height depth : Nat}

theorem storedBlocks_index (width height depth : Nat) (hgroups : groups ≤ blocks depth) :
    (storedBlocks width height depth groups).map (fun b => blockIndex width height depth b.i b.j b.z) =
      List.range (blocks width * blocks height * min (4 * groups) depth) := by
  induction groups with
  | zero => rw [Nat.zero_min, mul_zero, storedBlocks, range_zero, flatMap_nil, map_nil]
  | succ k ih =>
    have hfull : 4 * k < depth := by
      unfold blocks at hgroups
      omega
    have hgroup : ((groupBlocks (blocks width) (blocks height) (min 4 (depth - 4 * k))).map fun b =>
          (⟨b.2.1, b.1, 4 * k + b.2.2⟩ : BlockPos)).map (fun b => blockIndex width height depth b.i b.j b.z) =
        range' (blocks width * blocks height * (4 * k))
          (blocks height * (blocks width * min 4 (depth - 4 * k))) := by
      rw [← length_groupBlocks (blocks width), ← zipIdx_map_snd, zipIdx_groupBlocks, map_map, map_map]
      refine map_congr_left fun b hb => ?_
      obtain ⟨-, -, hslice⟩ := mem_groupBlocks.mp hb
      rw [comp_apply, comp_apply, blockIndex_group hslice]
    have hnext : min (4 * (k + 1)) depth = 4 * k + min 4 (depth - 4 * k) := by omega
    have hcount : blocks height * (blocks width * min 4 (depth - 4 * k)) =
        blocks width * blocks height * min 4 (depth - 4 * k) := by ring
    rw [storedBlocks_succ, map_append, ih (by omega), hgroup,
      min_eq_left (le_of_lt hfull), hnext, mul_add, range_eq_range',
      range_eq_range', ← range'_append_1, zero_add, hcount]

theorem mem_storedBlocks {b : BlockPos} (hb : b ∈ storedBlocks width height depth groups) :
    b.i < blocks width ∧ b.j < blocks height ∧ b.z < depth := by
  simp only [storedBlocks, mem_flatMap, mem_map] at hb
  obtain ⟨k, hk, c, hc, rfl⟩ := hb
  obtain ⟨hj, hi, hslice⟩ := mem_groupBlocks.mp hc
  exact ⟨hi, hj, by dsimp only; omega⟩

theorem flatMap_blocks {α : Type} (size : Nat) (f : Nat → List α) :
    ((List.range (blocks size)).flatMap fun j => (tile 4 size j).flatMap f) = (List.range size).flatMap f := by
  have hall : min (blocks size * 4) size = size := by
    unfold blocks
    omega
  rw [← flatMap_assoc, flatMap_tile, hall]

def textureTexels (width height depth : Nat) : List Pos :=
  (List.range depth).flatMap fun z => (List.range height).flatMap fun y =>
    (List.range width).flatMap fun x => [⟨x, y, z⟩]

theorem texels_perm (width height depth : Nat) : ((storedBlocks width height depth (blocks depth)).flatMap fun b =>
        blockTexels width height b.i b.j b.z).Perm (textureTexels width height depth) := by
  have hloops : ((storedBlocks width height depth (blocks depth)).flatMap fun b =>
        blockTexels width height b.i b.j b.z) =
      (range (blocks depth)).flatMap fun k => (range (blocks height)).flatMap fun j =>
        (range (blocks width)).flatMap fun i => (tile 4 depth k).flatMap fun z =>
          (tile 4 height j).flatMap fun y => (tile 4 width i).flatMap fun x => [(⟨x, y, z⟩ : Pos)] := by
    simp only [storedBlocks, groupBlocks, blockTexels, tile, map_eq_flatMap, flatMap_assoc,
      flatMap_singleton, mul_comm 4]
  rw [hloops, textureTexels, ← flatMap_blocks depth]
  refine List.Perm.flatMap_left _ fun k _ => ?_
  refine (List.Perm.flatMap_left _ fun j _ => flatMap_perm_comm _ _ _).trans ?_
  refine (flatMap_perm_comm _ _ _).trans (List.Perm.flatMap_left _ fun z _ => ?_)
  rw [← flatMap_blocks height]
  refine List.Perm.flatMap_left _ fun j _ => ?_
  refine (flatMap_perm_comm _ _ _).trans (List.Perm.flatMap_left _ fun y _ => ?_)
  rw [flatMap_blocks width]

theorem mem_textureTexels {p : Pos} :
    p ∈ textureTexels width height depth ↔ p.x < width ∧ p.y < height ∧ p.z < depth := by
  simp only [textureTexels, mem_flatMap, mem_range, mem_singleton]
  constructor
  · rintro ⟨z, hz, y, hy, x, hx, rfl⟩
    exact ⟨hx, hy, hz⟩
  · rintro ⟨hx, hy, hz⟩
    exact ⟨p.z, hz, p.y, hy, p.x, hx, rfl⟩

theorem textureTexels_place (width height depth : Nat) :
    (textureTexels width height depth).map (fun p => p.place width height) =
      (List.range (width * height * depth)).map (4 * ·) := by
  have hcount : width * height * depth = depth * height * width := by ring
  rw [hcount, ← flatMap_rows (depth * height) width, ← flatMap_rows depth height]
  simp only [textureTexels, Pos.place, map_eq_flatMap, flatMap_assoc, flatMap_singleton]

theorem place_inj {p q : Pos} {j k : Nat} (hp : p ∈ textureTexels width height depth)
    (hq : q ∈ textureTexels width height depth) (hj : j < 4) (hk : k < 4)
    (heq : p.place width height + j = q.place width height + k) : p = q ∧ j = k := by
  obtain ⟨hpx, hpy, -⟩ := mem_textureTexels.mp hp
  obtain ⟨hqx, hqy, -⟩ := mem_textureTexels.mp hq
  rw [Pos.place, Pos.place, mul_comm 4, mul_comm 4] at heq
  obtain ⟨hplace, rfl⟩ := (row_eq_iff hj hk).mp heq
  obtain ⟨hrow, hx⟩ := (row_eq_iff hpx hqx).mp hplace
  obtain ⟨hz, hy⟩ := (row_eq_iff hpy hqy).mp hrow
  refine ⟨?_, rfl⟩
  exact Pos.mk.injEq .. |>.mpr ⟨hx, hy, hz⟩

section Fits

variable {format : Format} {data : Int → Byte} {width height depth : Nat}

def texelBytes (format : Format) (data : Int → Byte) (width height depth : Nat) (p : Pos) : Nat → Byte :=
  (decodeBlock format fun k =>
    data ((format.blockSize * blockIndex width height depth (p.x / 4) (p.y / 4) p.z + k : Nat))).texel
      (4 * (p.y % 4) + p.x % 4)

/-- The decoder after some blocks have been decoded. -/
def Decoder.after (d : Decoder) (format : Format) (data : Int → Byte) (width height depth : Nat)
    (bs : List BlockPos) : Decoder :=
  let texels := bs.flatMap fun b => blockTexels width height b.i b.j b.z
  ⟨texels.foldl (fun m p => storeBlock 4 (texelBytes format data width height depth p)
      (p.place width height) m) d.converted,
    d.reads ++ bs.map fun b =>
      .ofNat 32 (format.blockSize * blockIndex width height depth b.i b.j b.z),
    d.writes ++ texels.map fun p => .ofNat 32 (p.place width height)⟩

theorem place_lt {p : Pos} (hp : p ∈ textureTexels width height depth) :
    p.place width height + 4 ≤ width * height * depth * 4 := by
  have hmem := mem_map_of_mem (f := fun p : Pos => p.place width height) hp
  rw [textureTexels_place] at hmem
  obtain ⟨n, hn, hplace⟩ := mem_map.mp hmem
  rw [mem_range] at hn
  omega

theorem stored_index (width height depth : Nat) : (storedBlocks width height depth (blocks depth)).map
      (fun b => blockIndex width height depth b.i b.j b.z) =
    List.range (blocks width * blocks height * depth) := by
  have hall : min (4 * blocks depth) depth = depth := by
    unfold blocks
    omega
  have hindices := storedBlocks_index width height depth (le_refl (blocks depth))
  rwa [hall] at hindices

variable (hfits : Fits format width height depth)

include hfits

theorem offset_lt {b : BlockPos} (hb : b ∈ storedBlocks width height depth (blocks depth)) :
    format.blockSize * blockIndex width height depth b.i b.j b.z < 2 ^ 31 := by
  have hindex : blockIndex width height depth b.i b.j b.z < blocks width * blocks height * depth := by
    rw [← mem_range, ← stored_index]
    exact mem_map_of_mem hb
  have hread := mul_le_mul_right format.blockSize (succ_le_of_lt hindex)
  have hpos := format.blockSize_pos
  have hblocks := hfits.2
  rw [succ_mul, mul_comm (blockIndex ..)] at hread
  omega

variable (hwidth : 0 < width) (hheight : 0 < height) (hdepth : 0 < depth)

include hwidth hheight hdepth

theorem sizes_lt : width ≤ 2 ^ 29 ∧ height ≤ 2 ^ 29 ∧ depth ≤ 2 ^ 29 := by
  have htexels := hfits.1
  have hx : width ≤ width * height * depth := by
    rw [mul_assoc]
    exact Nat.le_mul_of_pos_right _ (mul_pos hheight hdepth)
  have hy : height ≤ width * height * depth := by
    rw [mul_comm width, mul_assoc]
    exact Nat.le_mul_of_pos_right _ (mul_pos hwidth hdepth)
  have hz : depth ≤ width * height * depth := Nat.le_mul_of_pos_left _ (mul_pos hwidth hheight)
  omega

theorem decompressAt_eq {b : BlockPos} (hb : b ∈ storedBlocks width height depth (blocks depth)) (d : Decoder) :
    decompressAt format data width height depth d b = d.after format data width height depth [b] := by
  obtain ⟨hw, hh, hd⟩ := sizes_lt hfits hwidth hheight hdepth
  obtain ⟨hi, hj, hz⟩ := mem_storedBlocks hb
  have htexels := hfits.1
  have hi' : b.i * 4 + 4 < 2 ^ 31 := by
    unfold blocks at hi
    omega
  have hj' : b.j * 4 + 4 < 2 ^ 31 := by
    unfold blocks at hj
    omega
  unfold decompressAt decompressBlock Decoder.after
  dsimp only
  rw [← BitVec.ofNat_mul, toInt_ofNat (offset_lt hfits hb), flatMap_singleton,
    writeBlockToTexture_eq _ _ hi' hj' (by omega) (by omega), foldl_storeTexel]
  refine Decoder.mk.injEq .. |>.mpr ⟨?_, rfl, rfl⟩
  refine foldl_ext _ _ _ fun m p hp => ?_
  simp only [blockTexels, mem_flatMap, mem_map] at hp
  obtain ⟨y, hy, x, hx, rfl⟩ := hp
  obtain ⟨hy, hrow⟩ := (mem_tile (by decide)).mp hy
  obtain ⟨hx, hcolumn⟩ := (mem_tile (by decide)).mp hx
  have hplace := place_lt (mem_textureTexels.mpr ⟨hx, hy, hz⟩ : (⟨x, y, b.z⟩ : Pos) ∈ textureTexels width height depth)
  rw [toInt_ofNat (by omega), texelBytes]
  rw [hrow, hcolumn]
  rfl

theorem foldl_decompressAt {bs : List BlockPos}
    (hbs : ∀ b ∈ bs, b ∈ storedBlocks width height depth (blocks depth)) (d : Decoder) :
    bs.foldl (decompressAt format data width height depth) d = d.after format data width height depth bs := by
  induction bs generalizing d with
  | nil =>
    rw [Decoder.after, flatMap_nil, map_nil, map_nil, append_nil, append_nil]
    rfl
  | cons b bs ih =>
    rw [foldl_cons, decompressAt_eq hfits hwidth hheight hdepth (hbs b mem_cons_self),
      ih fun c hc => hbs c (mem_cons_of_mem b hc)]
    simp only [Decoder.after, flatMap_cons, flatMap_nil, foldl_append, map_append, map_cons, map_nil,
      append_nil, append_assoc, singleton_append]

theorem s3tcDecompress3d_eq (converted : Int → Byte) :
    s3tcDecompress3d format data converted (.ofNat 32 width) (.ofNat 32 height) (.ofNat 32 depth) =
      some (.ofNat 32 width * .ofNat 32 height * .ofNat 32 depth * 4,
        Decoder.after ⟨converted, [], []⟩ format data width height depth
          (storedBlocks width height depth (blocks depth))) := by
  obtain ⟨hw, hh, hd⟩ := sizes_lt hfits hwidth hheight hdepth
  have hgroups : ((BitVec.ofNat 32 depth + 3) / 4).toNat = blocks depth := by
    rw [BitVec.toNat_udiv, toNat_add_three (by omega)]
    rfl
  have hpos {n : Nat} (hn : 0 < n) (hle : n ≤ 2 ^ 29) : 0 < BitVec.ofNat 32 n := by bv_omega
  rw [s3tcDecompress3d, if_pos ⟨hpos hwidth hw, hpos hheight hh, hpos hdepth hd⟩, hgroups,
    depthGroups_eq (by omega) (by omega) (by omega) (le_refl _),
    foldl_decompressAt hfits hwidth hheight hdepth fun _ => id]

theorem decompressed_of_fits (converted : Int → Byte) :
    ∃ size d, s3tcDecompress3d format data converted (.ofNat 32 width) (.ofNat 32 height)
        (.ofNat 32 depth) = some (size, d) ∧
      Decompressed format data converted width height depth size d := by
  have htexels := hfits.1
  have hperm := texels_perm width height depth
  refine ⟨_, _, s3tcDecompress3d_eq hfits hwidth hheight hdepth converted, ?_, ?_, ?_, ?_, ?_⟩
  · have hsize : BitVec.ofNat 32 width * .ofNat 32 height * .ofNat 32 depth * 4 =
        .ofNat 32 (width * height * depth * 4) := by
      simp only [BitVec.ofNat_mul]
      rfl
    rw [hsize, BitVec.toNat_ofNat, mod_eq_of_lt (by omega)]
  · rw [← stored_index, map_map]
    exact map_map.trans (map_congr_left fun b hb => toInt_ofNat (offset_lt hfits hb))
  · refine (Perm.of_eq map_map).trans ((hperm.map _).trans (Perm.of_eq ?_))
    have hplaces := congrArg (map (fun n : Nat => (n : Int))) (textureTexels_place width height depth)
    rw [map_map, map_map] at hplaces
    refine Eq.trans (map_congr_left fun p hp => ?_) hplaces
    have hplace := place_lt hp
    exact toInt_ofNat (by omega)
  · intro x y z k hx hy hz hk
    have hp : (⟨x, y, z⟩ : Pos) ∈ textureTexels width height depth := mem_textureTexels.mpr ⟨hx, hy, hz⟩
    dsimp only [Decoder.after]
    change BitVec.toNat (foldl _ converted _ ((Pos.place ⟨x, y, z⟩ width height + k : Nat))) = _
    rw [foldl_storeBlock_of_inj (hperm.mem_iff.mpr hp) hk fun q hq j hj heq =>
      place_inj (hperm.mem_iff.mp hq) hp hj hk heq]
    exact texel_eq format _ (mod_lt x (by decide)) (mod_lt y (by decide)) hk
  · intro a ha
    apply foldl_storeBlock_of_none
    intro p hp hin
    have hplace := place_lt (hperm.mem_iff.mp hp)
    omega

end Fits

section

variable {format : Format} {data converted : Int → Byte} {width height depth : Nat} {size : Word}
  {d : Decoder}

theorem fits_of_decompressed (hwidth : 0 < width) (hheight : 0 < height) (hdepth : 0 < depth)
    (h : Decompressed format data converted width height depth size d) :
    Fits format width height depth := by
  have hlt (v : Word) : v.toInt < 2 ^ 31 := BitVec.toInt_lt
  have htexels : 0 < width * height * depth := mul_pos (mul_pos hwidth hheight) hdepth
  have hblocks : 0 < blocks width * blocks height * depth := by
    refine mul_pos (mul_pos ?_ ?_) hdepth
    · unfold blocks
      omega
    · unfold blocks
      omega
  constructor
  · have hlast : ((4 * (width * height * depth - 1) : Nat) : Int) ∈ d.writes.map BitVec.toInt := by
      rw [h.writes.mem_iff]
      exact mem_map.mpr ⟨_, mem_range.mpr (sub_one_lt htexels.ne'), rfl⟩
    obtain ⟨v, -, hv⟩ := mem_map.mp hlast
    have hv' := hlt v
    omega
  · have hlast : ((format.blockSize * (blocks width * blocks height * depth - 1) : Nat) : Int) ∈
        d.reads.map BitVec.toInt := by
      rw [h.reads]
      exact mem_map.mpr ⟨_, mem_range.mpr (sub_one_lt hblocks.ne'), rfl⟩
    obtain ⟨v, -, hv⟩ := mem_map.mp hlast
    have hv' := hlt v
    cases format
    all_goals
      simp only [Format.blockSize] at hv ⊢
      omega

end

/-- Three-dimensional and flat textures are decompressed exactly if they fit, and a texture of one slice is
decompressed as a flat one. -/
theorem s3tc_decompress_iff (format : Format) {width height depth : Word} (hwidth : 0 < width)
    (hheight : 0 < height) (hdepth : 0 < depth) :
    ((∀ data converted, ∃ size d,
        s3tcDecompress3d format data converted width height depth = some (size, d) ∧
          Decompressed format data converted width.toNat height.toNat depth.toNat size d) ↔
        Fits format width.toNat height.toNat depth.toNat) ∧
      ((∀ data converted, ∃ size d,
        s3tcDecompress2d format data converted width height = some (size, d) ∧
          Decompressed format data converted width.toNat height.toNat 1 size d) ↔
        Fits format width.toNat height.toNat 1) ∧
      ∀ data converted, s3tcDecompress3d format data converted width height 1 =
        s3tcDecompress2d format data converted width height := by
  have hw : 0 < width.toNat := BitVec.lt_def.mp hwidth
  have hh : 0 < height.toNat := BitVec.lt_def.mp hheight
  have hiff {depth : Word} (hd : 0 < depth.toNat) : (∀ data converted, ∃ size d,
        s3tcDecompress3d format data converted width height depth = some (size, d) ∧
          Decompressed format data converted width.toNat height.toNat depth.toNat size d) ↔
        Fits format width.toNat height.toNat depth.toNat := by
    constructor
    · intro h
      obtain ⟨size, d, -, hd'⟩ := h (fun _ => 0) (fun _ => 0)
      exact fits_of_decompressed hw hh hd hd'
    · intro hfits data converted
      simpa only [BitVec.ofNat_toNat, BitVec.setWidth_eq] using
        decompressed_of_fits hfits hw hh hd converted
  have hflat := hiff (show 0 < (1 : Word).toNat by decide)
  simp only [s3tcDecompress3d_one] at hflat
  exact ⟨hiff (BitVec.lt_def.mp hdepth), hflat, fun data converted => s3tcDecompress3d_one converted⟩

theorem s3tc_decompress_iff_uneven : Fits .dxt5 5 6 7 ∧ ∀ data converted, ∃ size d,
    s3tcDecompress3d .dxt5 data converted 5 6 7 = some (size, d) ∧
      Decompressed .dxt5 data converted 5 6 7 size d := by
  have hfits : Fits .dxt5 5 6 7 := ⟨by decide, by decide⟩
  exact ⟨hfits, (s3tc_decompress_iff .dxt5 (by decide) (by decide) (by decide)).1.mpr hfits⟩

/-- A texture of 8192 x 8192 x 16 texels has more bytes than a word can count. No byte is allocated for
it. -/
theorem s3tc_decompress_overflows :
    ¬ (∀ data converted, ∃ size d,
        s3tcDecompress3d .dxt1 data converted 8192 8192 16 = some (size, d) ∧
          Decompressed .dxt1 data converted 8192 8192 16 size d) ∧
      ∀ data converted, ∃ d, s3tcDecompress3d .dxt1 data converted 8192 8192 16 = some (0, d) := by
  constructor
  · intro h
    obtain ⟨size, d, -, hd⟩ := h (fun _ => 0) (fun _ => 0)
    exact absurd (fits_of_decompressed (by decide) (by decide) (by decide) hd).1 (by decide)
  · intro data converted
    exact ⟨_, if_pos (by decide)⟩

end XogMobile.Nv2a.S3tc
