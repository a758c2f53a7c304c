import XogMobile.Nv2a.Vk.Memory
import XogMobile.Lib.Footprint

/-!
# Image blits

A blit copies or blends a rectangle of VRAM. It works on the stored bytes, so what was drawn to the
surfaces it touches has to be written back first. `pgraph_vk_image_blit` looks for such surfaces at the
start of the source and of the destination only, and it drops a destination surface that is not larger
than the rectangle. Where that suffices (`BlitSafe`) the blit acts on logical memory.
-/

namespace XogMobile.Nv2a.Vk

open Lib Function

inductive Operation where
  | srcCopy
  | blendAnd
  deriving DecidableEq

def Operation.decode (operation : Word) : Option Operation :=
  if operation = 3 then some .srcCopy else if operation = 2 then some .blendAnd else none

def moveRow (source dest count : Nat) (m : Nat → Byte) (a : Nat) : Byte :=
  if dest ≤ a ∧ a < dest + count then m (source + (a - dest)) else m a

def blendByte (beta : Word) (source dest : Byte) : Byte :=
  let betaMult := beta >>> 16
  ((source.setWidth 32 * betaMult + dest.setWidth 32 * (0x7f80 - betaMult)) / 0x7f80).setWidth 8

def blendBytes (width : Nat) : List Nat :=
  (List.range width).flatMap fun x => (List.range 3).map fun ch => x * 4 + ch

def blendRow (source dest width : Nat) (beta : Word) (m : Nat → Byte) : Nat → Byte :=
  (blendBytes width).foldl (fun m k =>
    update m (dest + k) (blendByte beta (m (source + k)) (m (dest + k)))) m

def blitRow (op : Operation) (source dest width widthBytes : Nat) (beta : Word) :
    (Nat → Byte) → Nat → Byte :=
  match op with
  | .srcCopy => moveRow source dest widthBytes
  | .blendAnd => blendRow source dest width beta

def performBlit (op : Operation) (source dest width height widthBytes sourcePitch destPitch : Nat)
    (beta : Word) (m : Nat → Byte) : Nat → Byte :=
  (List.range height).foldl (fun m y =>
    blitRow op (source + y * sourcePitch) (dest + y * destPitch) width widthBytes beta m) m

def patchAlpha (dest widthPixels height destPitch : Nat) (alphaVal : Byte) (m : Nat → Byte) :
    Nat → Byte :=
  (List.range height).foldl (fun m y =>
    (List.range widthPixels).foldl (fun m x =>
      update m (dest + y * destPitch + (x * 4 + 3)) alphaVal) m) m

def rowReads (op : Operation) (source dest width widthBytes : Nat) : Set Nat :=
  match op with
  | .srcCopy => Set.Ico source (source + widthBytes)
  | .blendAnd => {a | ∃ k ∈ blendBytes width, a = source + k ∨ a = dest + k}

def rowWrites (op : Operation) (dest width widthBytes : Nat) : Set Nat :=
  match op with
  | .srcCopy => Set.Ico dest (dest + widthBytes)
  | .blendAnd => {a | ∃ k ∈ blendBytes width, a ∈ ({dest + k} : Set Nat)}

def performReads (op : Operation) (source dest width height widthBytes sourcePitch destPitch : Nat) :
    Set Nat :=
  {a | ∃ y ∈ List.range height,
    a ∈ rowReads op (source + y * sourcePitch) (dest + y * destPitch) width widthBytes}

def performWrites (op : Operation) (dest width height widthBytes destPitch : Nat) : Set Nat :=
  {a | ∃ y ∈ List.range height, a ∈ rowWrites op (dest + y * destPitch) width widthBytes}

def patchWrites (dest widthPixels height destPitch : Nat) : Set Nat :=
  {a | ∃ y ∈ List.range height, a ∈ {a | ∃ x ∈ List.range widthPixels,
    a ∈ ({dest + y * destPitch + (x * 4 + 3)} : Set Nat)}}

section Footprints

variable {R : Set Nat} {op : Operation} {source dest width height widthBytes : Nat}
  {sourcePitch destPitch : Nat} {beta : Word}

theorem moveRow_footprint {count : Nat} (hR : Set.Ico source (source + count) ⊆ R) :
    Footprint R (Set.Ico dest (dest + count)) (moveRow source dest count) where
  frame m a ha := if_neg ha
  agree m m' heq a ha := by
    by_cases hin : dest ≤ a ∧ a < dest + count
    · rw [moveRow, moveRow, if_pos hin, if_pos hin]
      apply heq
      apply hR
      constructor <;> omega
    · rw [moveRow, moveRow, if_neg hin, if_neg hin]
      exact heq (ha.resolve_right hin)

theorem blitRow_footprint (hR : rowReads op source dest width widthBytes ⊆ R) :
    Footprint R (rowWrites op dest width widthBytes) (blitRow op source dest width widthBytes beta) := by
  cases op with
  | srcCopy => exact moveRow_footprint hR
  | blendAnd =>
    refine Footprint.foldl (blendBytes width) fun k hk => .update (dest + k) fun m m' heq => ?_
    rw [heq (hR ⟨k, hk, .inl rfl⟩), heq (hR ⟨k, hk, .inr rfl⟩)]

theorem performBlit_footprint (hR : performReads op source dest width height widthBytes sourcePitch destPitch ⊆ R) :
    Footprint R (performWrites op dest width height widthBytes destPitch)
      (performBlit op source dest width height widthBytes sourcePitch destPitch beta) :=
  .foldl _ fun y hy => blitRow_footprint fun _ ha => hR ⟨y, hy, ha⟩

theorem patchAlpha_footprint {alphaVal : Byte} : Footprint R (patchWrites dest width height destPitch)
      (patchAlpha dest width height destPitch alphaVal) :=
  .foldl _ fun _ _ => .foldl _ fun _ _ => .update _ fun _ _ _ => rfl

end Footprints

structure ContextSurfaces2D where
  (objectInstance dmaImageSource dmaImageDest colorFormat sourcePitch destPitch : Word)
  (sourceOffset destOffset : Hwaddr)

structure ImageBlit where
  (contextSurfaces operation inX inY outX outY width height : Word)

/-- What a blit reads besides memory: its own state, `beta`, the registers of PFB, RAMIN at the two
lookups of a DMA object, and the size of VRAM. -/
structure BlitInputs where
  contextSurfaces : ContextSurfaces2D
  imageBlit : ImageBlit
  beta : Word
  pfb : Nat → Word
  (sourceRamin destRamin : Ramin)
  vramSize : Hwaddr
  update : NV2AState.UpdateInputs

/-- `nv_dma_map`: the address and the length of a DMA object. -/
def nvDmaMap (ramin : Ramin) (vramSize : Hwaddr) (dmaObjAddress : Word) : Option (Hwaddr × Hwaddr) :=
  (nvDmaLoad ramin dmaObjAddress).bind fun dma =>
    let address := dma.address &&& 0x07FFFFFF
    if address < vramSize then some (address, dma.limit) else none

def nvClipGpuTileBlit (regs : Nat → Word) (blitBaseAddress len : Hwaddr) : Hwaddr :=
  ((List.range 8).findSome? fun i =>
    let limit := regs (0x240 + i * 16 + 4)
    if regs (0x240 + i * 16) &&& 1 != 0 && decide (blitBaseAddress < limit.setWidth 64) &&
        decide (limit.setWidth 64 < blitBaseAddress + len) then
      some ((limit + 1).setWidth 64 - blitBaseAddress)
    else none).getD len

def blitFormat (colorFormat : Word) : Option (Nat × Option Byte) :=
  match colorFormat.toNat with
  | 0x01 => some (1, none)
  | 0x04 => some (2, none)
  | 0x06 => some (4, some 0)
  | 0x07 => some (4, some 0xff)
  | 0x0A => some (4, none)
  | 0x0B => some (4, none)
  | _ => none

structure BlitPlan where
  operation : Option Operation
  (sourceAddr destAddr : Hwaddr)
  (source dest sourcePitch destPitch bytesPerPixel : Nat)
  alpha : Option Byte
  (rowPixels adjustedHeight leftoverBytes : Nat)
  beta : Word
  deriving DecidableEq

/-- The part of `pgraph_vk_image_blit` that computes the rectangle. -/
def BlitInputs.plan (i : BlitInputs) : Except Abort BlitPlan :=
  let cs := i.contextSurfaces
  let ib := i.imageBlit
  match blitFormat cs.colorFormat, nvDmaMap i.sourceRamin i.vramSize cs.dmaImageSource,
    nvDmaMap i.destRamin i.vramSize cs.dmaImageDest with
  | some (bytesPerPixel, alpha), some (sourceDma, sourceDmaLen), some (destDma, destDmaLen) =>
    if cs.objectInstance = ib.contextSurfaces ∧ cs.sourceOffset < sourceDmaLen ∧
        cs.destOffset < destDmaLen then
      let sourceAddr := sourceDma + cs.sourceOffset
      let destAddr := destDma + cs.destOffset
      let bpp : Word := BitVec.ofNat 32 bytesPerPixel
      let sourceOffset := ib.inY * cs.sourcePitch + ib.inX * bpp
      let destOffset := ib.outY * cs.destPitch + ib.outX * bpp
      let rowPixels :=
        min (min cs.sourcePitch.toNat cs.destPitch.toNat / bytesPerPixel) ib.width.toNat
      let destSize := ((ib.height - 1) * cs.destPitch + ib.width * bpp).setWidth 64
      let clipped := nvClipGpuTileBlit i.pfb (destAddr + destOffset.setWidth 64) destSize
      let clips := decide (clipped < destSize)
      .ok {
        operation := Operation.decode ib.operation
        sourceAddr
        destAddr
        source := sourceAddr.toNat + sourceOffset.toNat
        dest := destAddr.toNat + destOffset.toNat
        sourcePitch := cs.sourcePitch.toNat
        destPitch := cs.destPitch.toNat
        bytesPerPixel
        alpha
        rowPixels
        adjustedHeight := if clips then clipped.toNat / cs.destPitch.toNat else ib.height.toNat
        -- What is left of a row that the tile cuts.
        leftoverBytes := if clips then clipped.toNat % cs.destPitch.toNat else 0
        beta := i.beta }
    else .error .refused
  | _, _, _ => .error .refused

namespace BlitPlan

variable (p : BlitPlan)

def leftoverRows : Nat := if p.leftoverBytes = 0 then 0 else 1

def wholeRows (op : Operation) : (Nat → Byte) → Nat → Byte :=
  performBlit op p.source p.dest p.rowPixels p.adjustedHeight (p.rowPixels * p.bytesPerPixel)
    p.sourcePitch p.destPitch p.beta

def lastRow (op : Operation) : (Nat → Byte) → Nat → Byte :=
  performBlit op (p.source + p.adjustedHeight * p.sourcePitch)
    (p.dest + p.adjustedHeight * p.destPitch) (p.leftoverBytes / p.bytesPerPixel) p.leftoverRows
    p.leftoverBytes p.sourcePitch p.destPitch p.beta

def rows (op : Operation) (m : Nat → Byte) : Nat → Byte := p.lastRow op (p.wholeRows op m)

def patch (alphaVal : Byte) (m : Nat → Byte) : Nat → Byte :=
  patchAlpha (p.dest + p.adjustedHeight * p.destPitch) (p.leftoverBytes / 4) p.leftoverRows 0 alphaVal
    (patchAlpha p.dest p.rowPixels p.adjustedHeight p.destPitch alphaVal m)

/-- The blit on the bytes of memory. An unknown operation is noticed if there is something to do. -/
def perform (m : Nat → Byte) : Except Abort (Nat → Byte) :=
  match p.operation with
  | some op => .ok (p.alpha.elim (p.rows op m) fun alphaVal => p.patch alphaVal (p.rows op m))
  | none => if p.adjustedHeight = 0 ∧ p.leftoverBytes = 0 then .ok m else .error .refused

/-- The surface is dropped at the destination of the blit: it is not larger than the rectangle. -/
def Covers (s : SurfaceBinding) : Prop :=
  ¬ (p.adjustedHeight < s.height.toNat ∨ p.rowPixels < s.width.toNat)

def reads : Set Nat :=
  {a | ∃ op, p.operation = some op ∧
    (a ∈ performReads op p.source p.dest p.rowPixels p.adjustedHeight
        (p.rowPixels * p.bytesPerPixel) p.sourcePitch p.destPitch ∨
      a ∈ performReads op (p.source + p.adjustedHeight * p.sourcePitch)
        (p.dest + p.adjustedHeight * p.destPitch) (p.leftoverBytes / p.bytesPerPixel) p.leftoverRows
        p.leftoverBytes p.sourcePitch p.destPitch)}

def rowsWrites (op : Operation) : Set Nat :=
  performWrites op p.dest p.rowPixels p.adjustedHeight (p.rowPixels * p.bytesPerPixel) p.destPitch ∪
    performWrites op (p.dest + p.adjustedHeight * p.destPitch) (p.leftoverBytes / p.bytesPerPixel)
      p.leftoverRows p.leftoverBytes p.destPitch

def alphaWrites : Set Nat :=
  patchWrites p.dest p.rowPixels p.adjustedHeight p.destPitch ∪
    patchWrites (p.dest + p.adjustedHeight * p.destPitch) (p.leftoverBytes / 4) p.leftoverRows 0

def writes : Set Nat :=
  match p.operation, p.alpha with
  | some op, some _ => p.rowsWrites op ∪ p.alphaWrites
  | some op, none => p.rowsWrites op
  | none, _ => ∅

theorem rows_footprint {p : BlitPlan} {op : Operation} (hop : p.operation = some op) :
    Footprint p.reads (p.rowsWrites op) (p.rows op) := by
  have hwhole : Footprint p.reads _ (p.wholeRows op) := performBlit_footprint fun a ha => ⟨op, hop, .inl ha⟩
  have hlast : Footprint p.reads _ (p.lastRow op) := performBlit_footprint fun a ha => ⟨op, hop, .inr ha⟩
  exact hwhole.comp hlast

theorem perform_ok {p : BlitPlan} {m m' : Nat → Byte} (h : p.perform m = .ok m') :
    ∃ f, Footprint p.reads p.writes f ∧ ∀ m, p.perform m = .ok (f m) := by
  cases hop : p.operation with
  | none =>
    simp only [perform, hop] at h ⊢
    split at h
    · next hidle =>
      refine ⟨fun m => m, ?_, fun m => if_pos hidle⟩
      rw [writes, hop]
      exact .id _
    · cases h
  | some op =>
    cases halpha : p.alpha with
    | none =>
      refine ⟨p.rows op, ?_, fun m => ?_⟩
      · rw [writes, hop, halpha]
        exact rows_footprint hop
      · simp only [perform, hop, halpha, Option.elim_none]
    | some alphaVal =>
      refine ⟨fun m => p.patch alphaVal (p.rows op m), ?_, fun m => ?_⟩
      · rw [writes, hop, halpha]
        exact (rows_footprint hop).comp (patchAlpha_footprint.comp patchAlpha_footprint)
      · simp only [perform, hop, halpha, Option.elim_some]

end BlitPlan

namespace NV2AState

def imageBlit (H : Host Memory) (d : NV2AState Memory) (i : BlitInputs) :
    Except Abort (NV2AState Memory) :=
  i.plan.bind fun p =>
    (d.exec H (.imageBlit p.sourceAddr p.destAddr p.adjustedHeight p.rowPixels i.update)).bind
      fun d => (p.perform d.r.store.vram).map fun vram =>
        { d with r := { d.r with store := { d.r.store with vram } } }

end NV2AState

def BlitPlan.drops (p : BlitPlan) (r : VkState Memory) : Set Nat :=
  {a | ∃ q, r.Dirty q ∧ (r.mem q).vramAddr = p.destAddr ∧ p.Covers (r.mem q) ∧ a ∈ (r.mem q).pixels}

namespace VkState

variable {lost : Set Nat} {r : VkState Memory} {q : Nat}

theorem blitSource_settled (tcg d24 : Bool) (addr : Hwaddr) :
    Settled lost r (NV2AState.blitSource (memoryHost tcg d24) r addr) := by
  unfold NV2AState.blitSource
  cases hget : r.surfaceGet addr with
  | none => exact .refl r
  | some q => exact surfaceDownloadIfDirty_settled (surfaceGet_eq_some hget).1

variable {addr : Hwaddr} {H : Host Memory}

theorem surfaceGet_of_sameCache {r' : VkState Memory} (hsame : SameCache r r') (hinv : CacheInv H r)
    (hq : q ∈ r'.surfaces) (haddr : (r'.mem q).vramAddr = addr) : r.surfaceGet addr = some q := by
  have hqr : q ∈ r.surfaces := hsame.surfaces ▸ hq
  have haddr' : (r.mem q).vramAddr = addr := (hsame.mem q).vramAddr.symm.trans haddr
  cases hget : r.surfaceGet addr with
  | none => exact absurd haddr' (ne_of_surfaceGet_eq_none hget hqr)
  | some p =>
    obtain ⟨hp, hpaddr⟩ := surfaceGet_eq_some hget
    rw [hinv.eq_of_vramAddr hqr hp (haddr'.trans hpaddr.symm)]

theorem blitSource_pixels (hinv : CacheInv H r) (hq : (NV2AState.blitSource H r addr).Dirty q)
    (haddr : ((NV2AState.blitSource H r addr).mem q).vramAddr = addr) :
    ((NV2AState.blitSource H r addr).mem q).pixels = ∅ := by
  have hget := surfaceGet_of_sameCache (NV2AState.blitSource_same H r addr) hinv hq.1 haddr
  unfold NV2AState.blitSource at hq ⊢
  rw [hget] at hq ⊢
  exact surfaceDownloadIfDirty_pixels hq.2

theorem blitDest_eq (H : Host Memory) (hget : r.surfaceGet addr = some q) (height rowPixels : Nat) :
    ∃ r₁ : VkState Memory, r₁ = (if height < (r.mem q).height.toNat ∨ rowPixels < (r.mem q).width.toNat then
          r.surfaceDownloadIfDirty H q
        else r.set q { r.mem q with downloadPending := false, drawDirty := false, unsaved := false }) ∧
      NV2AState.blitDest H r addr height rowPixels = r₁.set q { r₁.mem q with uploadPending := true } := by
  refine ⟨_, rfl, ?_⟩
  rw [NV2AState.blitDest, hget]
  rfl

theorem blitDest_settled (tcg d24 : Bool) (p : BlitPlan) (hlaid : r.Laid) : Settled (p.drops r) r
    (NV2AState.blitDest (memoryHost tcg d24) r p.destAddr p.adjustedHeight p.rowPixels) := by
  cases hget : r.surfaceGet p.destAddr with
  | none =>
    rw [NV2AState.blitDest, hget]
    exact .refl r
  | some q =>
    obtain ⟨hq, haddr⟩ := surfaceGet_eq_some hget
    obtain ⟨r₁, hr₁, heq⟩ := blitDest_eq (memoryHost tcg d24) hget p.adjustedHeight p.rowPixels
    have hfirst : Settled (p.drops r) r r₁ := by
      rw [hr₁]
      split
      · exact surfaceDownloadIfDirty_settled hq
      · next hcovers =>
        refine .of_one q (dirty_update rfl rfl rfl) (fun q' hne => update_of_ne hne _ _) rfl
          (fun a ha hdirty hqa => ?_) (fun _ _ _ => rfl)
        exact absurd ⟨q, hdirty, haddr, hcovers, hqa⟩ ha
    rw [heq]
    exact hfirst.trans hlaid (.set ⟨rfl, rfl, rfl, rfl⟩)

theorem blitDest_pixels {height rowPixels : Nat} (hinv : CacheInv H r)
    (hq : (NV2AState.blitDest H r addr height rowPixels).Dirty q)
    (haddr : ((NV2AState.blitDest H r addr height rowPixels).mem q).vramAddr = addr) :
    ((NV2AState.blitDest H r addr height rowPixels).mem q).pixels = ∅ := by
  have hsame := NV2AState.blitDest_same H r addr height rowPixels
  have hget := surfaceGet_of_sameCache hsame hinv hq.1 haddr
  obtain ⟨r₁, hr₁, heq⟩ := blitDest_eq H hget height rowPixels
  rw [heq] at hq ⊢
  have hmem : (r₁.set q { r₁.mem q with uploadPending := true }).mem q =
      { r₁.mem q with uploadPending := true } := update_self _ _ _
  have hdirty : (r₁.mem q).drawDirty = true := (congrArg SurfaceBinding.drawDirty hmem).symm.trans hq.2
  rw [hmem]
  rw [hr₁] at hdirty ⊢
  split at hdirty
  · next hsmall =>
    rw [if_pos hsmall]
    exact surfaceDownloadIfDirty_pixels hdirty
  · have hclean := congrArg SurfaceBinding.drawDirty (update_self q { r.mem q with
      downloadPending := false, drawDirty := false, unsaved := false } r.mem)
    exact absurd (hclean.symm.trans hdirty) Bool.false_ne_true

end VkState

/-- The surface is still drawn to and not written back when the blit looks for surfaces: it is not one that
`pgraph_vk_surface_update`, which the blit calls first, evicts or downloads. -/
def NV2AState.LeftDirty (H : Host Memory) (d : NV2AState Memory) (u : NV2AState.UpdateInputs) (q : Nat) : Prop :=
  ∃ d₁, d.surfaceUpdate H u false true true = .ok d₁ ∧ d₁.r.Dirty q

/-- What was drawn is written back where the blit touches it. A surface that starts at the source is
always written back. The one that starts at the destination is dropped if it is not larger than the
rectangle, so its bytes must all be written and none read. Any other surface must stay clear. Without
TCG the targets with draws must be bound and marked, since they are written back unasked. -/
structure BlitSafe (H : Host Memory) (d : NV2AState Memory) (u : NV2AState.UpdateInputs) (p : BlitPlan) :
    Prop where
  laid : d.r.Laid
  marked : H.tcgEnabled = true ∨ ∀ color, d.DrawsMarked color
  dropped : ∀ q, d.r.Dirty q → d.LeftDirty H u q → (d.r.mem q).vramAddr ≠ p.sourceAddr →
    (d.r.mem q).vramAddr = p.destAddr → p.Covers (d.r.mem q) →
    (d.r.mem q).pixels ⊆ p.writes ∧ Disjoint (d.r.mem q).pixels p.reads
  missed : ∀ q, d.r.Dirty q → d.LeftDirty H u q → (d.r.mem q).vramAddr ≠ p.sourceAddr →
    (d.r.mem q).vramAddr ≠ p.destAddr → Disjoint (d.r.mem q).pixels (p.reads ∪ p.writes)

namespace BlitSafe

variable {tcg d24 : Bool} {d d₁ : NV2AState Memory} {u : NV2AState.UpdateInputs} {p : BlitPlan}
  (hsafe : BlitSafe (memoryHost tcg d24) d u p)
  (h₁ : d.surfaceUpdate (memoryHost tcg d24) u false true true = .ok d₁)
  (hinv : CacheInv (memoryHost tcg d24) d₁.r)
  (hsource : Settled ∅ d.r (NV2AState.blitSource (memoryHost tcg d24) d₁.r p.sourceAddr))
include hsafe h₁ hinv hsource

theorem drops (a : Nat) (ha : a ∈ p.drops (NV2AState.blitSource (memoryHost tcg d24) d₁.r p.sourceAddr)) :
    a ∈ p.writes ∧ a ∉ p.reads := by
  obtain ⟨q, hq, haddr, hcovers, hqa⟩ := ha
  obtain ⟨hdirty, hsame, -⟩ := hsource.dirty q hq
  have hblit : Settled ∅ d₁.r _ := VkState.blitSource_settled tcg d24 p.sourceAddr
  have hleft := (hblit.dirty q hq).1
  have haway : (d.r.mem q).vramAddr ≠ p.sourceAddr := by
    intro hat
    rw [VkState.blitSource_pixels hinv hq (hsame.vramAddr.trans hat)] at hqa
    exact Set.notMem_empty a hqa
  have hcovers' : p.Covers (d.r.mem q) := by
    have hdims := Prod.mk.inj hsame.dims
    rw [BlitPlan.Covers, ← hdims.1, ← hdims.2]
    exact hcovers
  obtain ⟨hwrites, hreads⟩ :=
    hsafe.dropped q hdirty ⟨d₁, h₁, hleft⟩ haway (hsame.vramAddr.symm.trans haddr) hcovers'
  rw [hsame.pixels] at hqa
  exact ⟨hwrites hqa, Set.disjoint_left.mp hreads hqa⟩

theorem clear {lost : Set Nat} {r₂ : VkState Memory} (hr₂ : r₂ = NV2AState.blitDest (memoryHost tcg d24)
      (NV2AState.blitSource (memoryHost tcg d24) d₁.r p.sourceAddr) p.destAddr p.adjustedHeight
      p.rowPixels)
    (hdest : Settled lost (NV2AState.blitSource (memoryHost tcg d24) d₁.r p.sourceAddr) r₂)
    (a : Nat) (ha : a ∈ p.reads ∪ p.writes) : r₂.overlay a = none := by
  rw [VkState.overlay_eq_none]
  intro q hq hqa
  obtain ⟨hq₁, hsame₁, -⟩ := hdest.dirty q hq
  obtain ⟨hdirty, hsame, -⟩ := hsource.dirty q hq₁
  have hblit : Settled ∅ d₁.r _ := VkState.blitSource_settled tcg d24 p.sourceAddr
  have hleft := (hblit.dirty q hq₁).1
  have hinv₁ := (NV2AState.blitSource_same (memoryHost tcg d24) d₁.r p.sourceAddr).inv hinv
  by_cases haddr : (d.r.mem q).vramAddr = p.sourceAddr
  · rw [hsame₁.pixels, VkState.blitSource_pixels hinv hq₁ (hsame.vramAddr.trans haddr)] at hqa
    exact Set.notMem_empty a hqa
  by_cases haddr' : (d.r.mem q).vramAddr = p.destAddr
  · have hvramAddr : (r₂.mem q).vramAddr = p.destAddr :=
      hsame₁.vramAddr.trans (hsame.vramAddr.trans haddr')
    rw [hr₂] at hq hvramAddr hqa
    rw [VkState.blitDest_pixels hinv₁ hq hvramAddr] at hqa
    exact Set.notMem_empty a hqa
  · rw [hsame₁.pixels, hsame.pixels] at hqa
    exact Set.disjoint_left.mp (hsafe.missed q hdirty ⟨d₁, h₁, hleft⟩ haddr haddr') hqa ha

end BlitSafe

/-- In every state reached, a safe blit does to logical memory what a blit does. -/
theorem imageBlit_logical {tcg d24 : Bool} {d₀ d d' : NV2AState Memory}
    {mem : Nat → SurfaceBinding} {store : Memory} {es : List (SurfaceEvent Memory)} {i : BlitInputs}
    {p : BlitPlan} (hinit : d₀.r = .init mem store)
    (hrun : run (NV2AState.step (memoryHost tcg d24)) d₀ es = some d) (hplan : i.plan = .ok p)
    (hsafe : BlitSafe (memoryHost tcg d24) d i.update p) (h : d.imageBlit (memoryHost tcg d24) i = .ok d') :
    p.perform d.r.logical = .ok d'.r.logical := by
  have hinv := cacheInv_of_run hinit hrun
  obtain ⟨p', hplan', h⟩ := bind_eq_ok.mp h
  obtain rfl := Except.ok.inj (hplan.symm.trans hplan')
  obtain ⟨d₂, h₂, h⟩ := bind_eq_ok.mp h
  obtain ⟨vram, hperform, rfl⟩ := map_eq_ok.mp h
  obtain ⟨d₁, h₁, rfl⟩ := map_eq_ok.mp h₂
  obtain ⟨f, hfootprint, hf⟩ := BlitPlan.perform_ok hperform
  obtain rfl := Except.ok.inj ((hf _).symm.trans hperform)
  have hinv₁ := NV2AState.surfaceUpdate_inv hinv h₁
  have hsource : Settled ∅ d.r _ :=
    (NV2AState.surfaceUpdate_settled hinv hsafe.laid hsafe.marked h₁).trans hsafe.laid
      (VkState.blitSource_settled tcg d24 p.sourceAddr)
  have hdest := VkState.blitDest_settled tcg d24 p (hsource.laid hsafe.laid)
  have hall := (hsource.mono (Set.empty_subset _)).trans hsafe.laid hdest
  have hdrops := hsafe.drops h₁ hinv₁ hsource
  have hclear := hsafe.clear h₁ hinv₁ hsource rfl hdest
  rw [hf]
  refine congrArg Except.ok (funext fun a => ?_)
  refine (hfootprint.overlay (fun a ha => ?_) (fun a ha => ?_) (fun a ha => ?_) a).symm
  · exact hall.logical hsafe.laid fun hlost => ha (hdrops a hlost).1
  · rw [← hall.logical hsafe.laid fun hlost => (hdrops a hlost).2 ha, VkState.logical,
      hclear a (.inl ha), Option.getD_none]
  · exact hclear a (.inr ha)

def colorBoot : NV2AState Memory where
  pg := { plainBoot.pg with regs := fun addr => if addr = control0 then 0x3C000000 else 0 }
  r := .init (fun _ => blankSurface) ⟨fun _ => 0, fun _ _ _ => 0⟩
  syncPending := false
  flushPending := false

def drawOnes (clipHorizontal clipVertical : Word) : List (SurfaceEvent Memory) :=
  [.method .setSurfaceFormat 0x00000128 plainInputs,
    .method .setSurfaceClipHorizontal clipHorizontal plainInputs,
    .method .setSurfaceClipVertical clipVertical plainInputs,
    .method .setSurfacePitch 0x00400040 plainInputs,
    .drawBegin plainInputs,
    .memory fun m => { m with image := fun _ _ _ => 1 },
    .drawEnd]

def pixelBlit (outX outY : Word) : BlitInputs where
  contextSurfaces := ⟨0, 0, 0, 0x0A, 64, 64, 0x2000, 0⟩
  imageBlit := ⟨0, 3, 0, 0, outX, outY, 1, 1⟩
  beta := 0
  pfb := fun _ => 0
  sourceRamin := plainRamin
  destRamin := plainRamin
  vramSize := 0x04000000
  update := plainInputs

def pixelPlan (dest : Nat) : BlitPlan where
  operation := some .srcCopy
  sourceAddr := 0x2000
  destAddr := 0
  source := 0x2000
  dest
  sourcePitch := 64
  destPitch := 64
  bytesPerPixel := 4
  alpha := none
  rowPixels := 1
  adjustedHeight := 1
  leftoverBytes := 0
  beta := 0

/-- The surface has one pixel and the blit goes beside it. The surface is not larger than the
rectangle, so what was drawn is dropped although the blit does not touch it. -/
theorem imageBlit_drops_pixel :
    ∃ d d' m, run (NV2AState.step (memoryHost true true)) colorBoot (drawOnes 0x10000 0x10000) = some d ∧
      (pixelBlit 1 0).plan = .ok (pixelPlan 4) ∧
      d.imageBlit (memoryHost true true) (pixelBlit 1 0) = .ok d' ∧
      (pixelPlan 4).perform d.r.logical = .ok m ∧ m 0 = 1 ∧ d'.r.logical 0 = 0 := by
  obtain ⟨d, hrun, ⟨m, hperform, hm⟩, d', hblit, hd'⟩ : ∃ d,
      run (NV2AState.step (memoryHost true true)) colorBoot (drawOnes 0x10000 0x10000) = some d ∧
      (∃ m, ((pixelPlan 4).perform d.r.logical).toOption = some m ∧ m 0 = 1) ∧
      ∃ d', (d.imageBlit (memoryHost true true) (pixelBlit 1 0)).toOption = some d' ∧
        d'.r.logical 0 = 0 := by decide +kernel
  exact ⟨d, d', m, hrun, by decide +kernel, toOption_eq_some.mp hblit, toOption_eq_some.mp hperform, hm,
    hd'⟩

theorem imageBlit_logical_inside :
    ∃ d d', run (NV2AState.step (memoryHost true true)) colorBoot (drawOnes 0x20000 0x20000) = some d ∧
      (pixelBlit 1 1).plan = .ok (pixelPlan 68) ∧ BlitSafe (memoryHost true true) d plainInputs (pixelPlan 68) ∧
      d.imageBlit (memoryHost true true) (pixelBlit 1 1) = .ok d' ∧ d.r.logical 68 = 1 ∧
      (pixelPlan 68).perform d.r.logical = .ok d'.r.logical := by
  obtain ⟨d, hrun, hsurfaces, haddr, hheight, hbyte, hblit⟩ : ∃ d,
      run (NV2AState.step (memoryHost true true)) colorBoot (drawOnes 0x20000 0x20000) = some d ∧
      d.r.surfaces = [1] ∧ (d.r.mem 1).vramAddr = 0 ∧ (d.r.mem 1).height = 2 ∧ d.r.logical 68 = 1 ∧
      (d.imageBlit (memoryHost true true) (pixelBlit 1 1)).toOption.isSome = true := by decide +kernel
  obtain ⟨d', hblit⟩ := Option.isSome_iff_exists.mp hblit
  have hplan : (pixelBlit 1 1).plan = .ok (pixelPlan 68) := by decide +kernel
  have honly : ∀ q, d.r.Dirty q → q = 1 := by
    intro q hq
    have hmem := hq.1
    rwa [hsurfaces, List.mem_singleton] at hmem
  -- The only surface starts at the destination and is larger than the rectangle.
  have hsafe : BlitSafe (memoryHost true true) d plainInputs (pixelPlan 68) := by
    refine ⟨fun p q hp hq hne => ?_, .inl rfl, fun q hq _ _ _ hcovers => ?_, fun q hq _ _ hne => ?_⟩
    · exact absurd ((honly p hp).trans (honly q hq).symm) hne
    · obtain rfl := honly q hq
      rw [BlitPlan.Covers, hheight] at hcovers
      exact absurd (.inl (by decide)) hcovers
    · obtain rfl := honly q hq
      exact absurd haddr hne
  exact ⟨d, d', hrun, hplan, hsafe, toOption_eq_some.mp hblit, hbyte,
    imageBlit_logical rfl hrun hplan hsafe (toOption_eq_some.mp hblit)⟩

end XogMobile.Nv2a.Vk
