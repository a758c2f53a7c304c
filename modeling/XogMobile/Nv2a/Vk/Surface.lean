import XogMobile.Nv2a.Pgraph

/-!
# The surface cache of the Vulkan renderer

The render targets of the guest live in images of the host. `SurfaceBinding` is one of them, and the
renderer keeps those in use in `surfaces` and those that may be used again in `invalidSurfaces`. A
surface is a pointer into `mem`. Colour and zeta are told apart by the `color` argument of the
source: `binding true` is `color_binding` and `binding false` is `zeta_binding`.

What the images and the guest memory hold is a state `σ` of its own. A download and an upload change
it in a way the host gives. An assertion that fails ends the program with an `Abort`.
-/

namespace XogMobile.Nv2a.Vk

open Lib Function

abbrev Hwaddr := BitVec 64

def maxWord (a b : Word) : Word := if b < a then a else b

structure SurfaceShape where
  (zFormat colorFormat zetaFormat logWidth logHeight clipX clipY clipWidth clipHeight : Word)
  antiAliasing : Word
  deriving DecidableEq

def SurfaceShape.zero : SurfaceShape := ⟨0, 0, 0, 0, 0, 0, 0, 0, 0, 0⟩

inductive VkFormat where
  | a1r5g5b5UnormPack16
  | r5g6b5UnormPack16
  | b8g8r8a8Unorm
  | r8Unorm
  | r8g8Unorm
  | d16Unorm
  | d24UnormS8Uint
  | d32SfloatS8Uint
  deriving DecidableEq

inductive VkUsage where
  | colorAttachment
  | depthStencilAttachment
  deriving DecidableEq

/-- `SurfaceFormatInfo`, and the bytes of a pixel in guest memory. -/
structure SurfaceFormat where
  bytesPerPixel : Word
  vkFormat : VkFormat
  usage : VkUsage
  deriving DecidableEq

/-- `kelvin_surface_color_format_map` and `kelvin_surface_color_format_vk_map`. -/
def kelvinSurfaceColorFormat : Nat → Option SurfaceFormat
  | 0x1 => some ⟨2, .a1r5g5b5UnormPack16, .colorAttachment⟩
  | 0x3 => some ⟨2, .r5g6b5UnormPack16, .colorAttachment⟩
  | 0x4 => some ⟨4, .b8g8r8a8Unorm, .colorAttachment⟩
  | 0x8 => some ⟨4, .b8g8r8a8Unorm, .colorAttachment⟩
  | 0x9 => some ⟨1, .r8Unorm, .colorAttachment⟩
  | 0xA => some ⟨2, .r8g8Unorm, .colorAttachment⟩
  | _ => none

/-- `kelvin_surface_zeta_format_map` and `kelvin_surface_zeta_vk_map`. -/
def kelvinSurfaceZetaFormat (d24 : Bool) : Nat → Option SurfaceFormat
  | 1 => some ⟨2, .d16Unorm, .depthStencilAttachment⟩
  | 2 => some ⟨4, if d24 then .d24UnormS8Uint else .d32SfloatS8Uint, .depthStencilAttachment⟩
  | _ => none

/-- `SurfaceBinding`. `unsaved` records that the surface was marked as drawn to since it was last
written back, or replaced by a blit. -/
structure SurfaceBinding where
  vramAddr : Hwaddr
  shape : SurfaceShape
  (color swizzle : Bool)
  (width height pitch : Word)
  size : Hwaddr
  frameTime : Word
  (drawDirty downloadPending uploadPending : Bool)
  format : SurfaceFormat
  (initialized unsaved : Bool)
  deriving DecidableEq

/-- `Surface`: what the guest has programmed for a target. -/
structure Surface where
  (drawDirty bufferDirty writeEnabledCache : Bool)
  (pitch offset : Word)
  deriving DecidableEq

structure BindingDim where
  (width clipX clipWidth height clipY clipHeight : Word)
  deriving DecidableEq

def SurfaceBinding.dim (s : SurfaceBinding) : BindingDim :=
  ⟨s.width, s.shape.clipX, s.shape.clipWidth, s.height, s.shape.clipY, s.shape.clipHeight⟩

/-- The part of `PGRAPHState` that the surface cache reads. -/
structure PgSurfaces where
  regs : Nat → Word
  dma : Bool → Word
  surface : Bool → Surface
  surfaceType : Word
  (surfaceShape lastSurfaceShape : SurfaceShape)
  surfaceBindingDim : BindingDim
  clearing : Bool
  frameTime : Word

/-- A surface that was moved to `invalidSurfaces`: as the eviction found it, and the images and memory at
the move. -/
structure Eviction (σ : Type) where
  slot : Nat
  surface : SurfaceBinding
  store : σ

/-- The part of `PGRAPHVkState` that the surface cache keeps. `evicted` records every eviction. -/
structure VkState (σ : Type) where
  mem : Nat → SurfaceBinding
  (surfaces invalidSurfaces : List Nat)
  binding : Bool → Option Nat
  (framebufferDirty downloadsPending downloadDirtySurfacesPending : Bool)
  store : σ
  evicted : List (Eviction σ)

structure NV2AState (σ : Type) where
  pg : PgSurfaces
  r : VkState σ
  (syncPending flushPending : Bool)

/-- The host: the accelerator, the depth format, and what downloads and uploads do to images and
memory. -/
structure Host (σ : Type) where
  (tcgEnabled d24UnormS8Uint : Bool)
  (writeBack upload : Nat → SurfaceBinding → σ → σ)

/-- The assertions that can fail. `refused` is any check of what the guest programmed, and also the ones on
the size of the zeta target that is probed and on the clear of a swizzled surface. -/
inductive Abort where
  | refused
  | evictsBound (color : Bool)
  | addressTaken
  | sizesDiffer
  deriving DecidableEq

variable {σ : Type} (H : Host σ) (r : VkState σ) (d : NV2AState σ) (pg : PgSurfaces)

namespace VkState

def set (p : Nat) (s : SurfaceBinding) : VkState σ := { r with mem := update r.mem p s }

def downloadSurface (p : Nat) (force : Bool) : VkState σ :=
  let s := r.mem p
  if !(s.downloadPending || force) || s.width == 0 || s.height == 0 then r
  else
    { r.set p { s with downloadPending := false, drawDirty := false, unsaved := false } with
      store := H.writeBack p s r.store }

def surfaceDownloadIfDirty (p : Nat) : VkState σ :=
  if (r.mem p).drawDirty then r.downloadSurface H p true else r

def uploadSurfaceData (p : Nat) (force : Bool) : VkState σ :=
  let s := r.mem p
  if !(s.uploadPending || force) then r
  else
    { r.set p { s with uploadPending := false, initialized := true } with
      store := if s.width = 0 ∨ s.height = 0 then r.store else H.upload p s r.store }

end VkState

def checkSurfaceOverlapsRange (s : SurfaceBinding) (rangeStart rangeLen : Hwaddr) : Bool :=
  let surfaceEnd := s.vramAddr + s.size
  let rangeEnd := rangeStart + rangeLen
  !(decide (rangeEnd ≤ s.vramAddr) || decide (surfaceEnd ≤ rangeStart))

def checkSurfacesOverlap (s other : SurfaceBinding) : Bool :=
  checkSurfaceOverlapsRange s other.vramAddr other.size

namespace VkState

def downloadSurfacesInRangeIfDirty (start size : Hwaddr) : VkState σ :=
  r.surfaces.foldl (fun r p =>
    if checkSurfaceOverlapsRange (r.mem p) start size then r.surfaceDownloadIfDirty H p else r) r

def processPendingDownloads : VkState σ :=
  { r.surfaces.foldl (fun r p => r.downloadSurface H p false) r with downloadsPending := false }

def downloadDirtySurfaces : VkState σ :=
  { r.surfaces.foldl (fun r p => r.surfaceDownloadIfDirty H p) r with
    downloadDirtySurfacesPending := false }

def markAccess (s : SurfaceBinding) (write : Bool) : SurfaceBinding :=
  { s with
    downloadPending := s.downloadPending || s.drawDirty
    uploadPending := s.uploadPending || write }

/-- `surface_access_callback`. It then waits while `downloadsPending` is set. -/
def surfaceAccessCallback (addr len : Hwaddr) (write : Bool) : VkState σ :=
  let touched := fun r : VkState σ => r.surfaces.filter fun p =>
    checkSurfaceOverlapsRange (r.mem p) addr len
  { (touched r).foldl (fun r p => r.set p (markAccess (r.mem p) write)) r with
    downloadsPending :=
      r.downloadsPending || (touched r).any fun p => (r.mem p).drawDirty }

/-- `pgraph_vk_wait_for_surface_download`, up to the wait. -/
def waitForSurfaceDownload (p : Nat) : VkState σ :=
  if (r.mem p).drawDirty then
    { r.set p { r.mem p with downloadPending := true } with downloadsPending := true }
  else r

def bindSurface (p : Nat) : VkState σ :=
  { r with
    binding := update r.binding (r.mem p).color (some p)
    framebufferDirty := true }

def unbindSurface (color : Bool) : VkState σ :=
  if (r.binding color).isSome then
    { r with binding := update r.binding color none, framebufferDirty := true }
  else r

def surfaceGet (addr : Hwaddr) : Option Nat := r.surfaces.find? fun p => (r.mem p).vramAddr == addr

def surfaceGetWithin (addr : Hwaddr) : Option Nat :=
  r.surfaces.find? fun p =>
    decide ((r.mem p).vramAddr ≤ addr) && decide (addr < (r.mem p).vramAddr + (r.mem p).size)

/-- `check_invalid_surface_is_compatibile`. -/
def checkInvalidSurfaceIsCompatible (s target : SurfaceBinding) : Bool :=
  s.format.vkFormat == target.format.vkFormat && s.width == target.width &&
    s.height == target.height && s.format.usage == target.format.usage

def getAnyCompatibleInvalidSurface (target : SurfaceBinding) : Option Nat :=
  r.invalidSurfaces.find? fun p => checkInvalidSurfaceIsCompatible (r.mem p) target

/-- `g_malloc`: a pointer that is on no list. -/
def malloc : Nat := (r.surfaces ++ r.invalidSurfaces).foldr max 0 + 1

def pruneInvalidSurfaces (keep : Nat) : VkState σ :=
  { r with invalidSurfaces := r.invalidSurfaces.take keep }

end VkState

def checkSurfaceCompatibility (s1 s2 : SurfaceBinding) (strict : Bool) : Bool :=
  s1.color == s2.color && s1.format.vkFormat == s2.format.vkFormat && s1.pitch == s2.pitch &&
    if strict then s1.width == s2.width && s1.height == s2.height
    else decide (s2.width ≤ s1.width) && decide (s2.height ≤ s1.height)

namespace NV2AState

/-- `invalidate_surface` unbinds the surface. A bound surface must be marked for rebinding. -/
def unbindIfBound (color : Bool) (p : Nat) : Except Abort (NV2AState σ) :=
  if d.r.binding color = some p then
    if (d.pg.surface color).bufferDirty then .ok { d with r := d.r.unbindSurface color }
    else .error (.evictsBound color)
  else .ok d

/-- `invalidate_surface`. `found` is for the record alone. -/
def invalidateSurface (p : Nat) (found : SurfaceBinding) : Except Abort (NV2AState σ) :=
  (d.unbindIfBound true p).bind fun d => (d.unbindIfBound false p).map fun d =>
    { d with r := { d.r with
      surfaces := d.r.surfaces.erase p
      invalidSurfaces := p :: d.r.invalidSurfaces
      evicted := ⟨p, found, d.r.store⟩ :: d.r.evicted } }

/-- Every eviction calls `pgraph_vk_surface_download_if_dirty` and then `invalidate_surface`. -/
def evictSurface (p : Nat) : Except Abort (NV2AState σ) :=
  invalidateSurface { d with r := d.r.surfaceDownloadIfDirty H p } p (d.r.mem p)

def evictWhere (victim : SurfaceBinding → Bool) :
    List Nat → NV2AState σ → Except Abort (NV2AState σ)
  | [], d => .ok d
  | p :: ps, d =>
    if victim (d.r.mem p) then (d.evictSurface H p).bind (evictWhere victim ps)
    else evictWhere victim ps d

def invalidateOverlappingSurfaces (s : SurfaceBinding) : Except Abort (NV2AState σ) :=
  evictWhere H (fun other => checkSurfacesOverlap s other) d.r.surfaces d

def maxSurfaceFrameTimeDelta : Word := 5

def expireOldSurfaces : Except Abort (NV2AState σ) :=
  evictWhere H (fun s => maxSurfaceFrameTimeDelta.sle (d.pg.frameTime - s.frameTime)) d.r.surfaces d

def surfacePut (p : Nat) : Except Abort (NV2AState σ) :=
  if (d.r.surfaceGet (d.r.mem p).vramAddr).isSome then .error .addressTaken
  else
    (d.invalidateOverlappingSurfaces H (d.r.mem p)).map fun d =>
      { d with r := { d.r with surfaces := p :: d.r.surfaces } }

end NV2AState

/-- The objects of the guest in RAMIN, a word for each byte address. -/
abbrev Ramin := Word → Word

structure DMAObject where
  dmaClass : Word
  (address limit : Hwaddr)
  deriving DecidableEq

def nvDmaLoad (ramin : Ramin) (addr : Word) : Option DMAObject :=
  if addr.toNat < 0x100000 then
    some {
      dmaClass := getMask (ramin addr) 0x00000FFF
      address :=
        ((ramin (addr + 8) &&& 0xFFFFF000) ||| getMask (ramin addr) 0xFFF00000).setWidth 64
      limit := (ramin (addr + 4)).setWidth 64 }
  else none

namespace PgSurfaces

def setuprasterReg : Nat := 0x1990

def colorWriteEnabled : Bool := pg.regs control0 &&& 0x3C000000 != 0

def zetaWriteEnabled : Bool := pg.regs control0 &&& 0x03000000 != 0

def depthOrStencilTest : Bool :=
  pg.regs control0 &&& 0x00004000 != 0 || pg.regs control1 &&& 0x00000001 != 0

def swizzled : Bool := pg.surfaceType == 2

def getSurfaceDimensions : Word × Word :=
  if pg.swizzled then
    (1 <<< pg.surfaceShape.logWidth.toNat, 1 <<< pg.surfaceShape.logHeight.toNat)
  else (pg.surfaceShape.clipWidth, pg.surfaceShape.clipHeight)

def applyAntiAliasingFactor (dims : Word × Word) : Option (Word × Word) :=
  if pg.surfaceShape.antiAliasing = 0 then some dims
  else if pg.surfaceShape.antiAliasing = 1 then some (dims.1 * 2, dims.2)
  else if pg.surfaceShape.antiAliasing = 2 then some (dims.1 * 2, dims.2 * 2)
  else none

def framebufferDirty : Bool :=
  pg.surfaceShape != pg.lastSurfaceShape &&
    (pg.surfaceShape.colorFormat != 0 || pg.surfaceShape.zetaFormat != 0)

def setSurface (color : Bool) (f : Surface → Surface) : PgSurfaces :=
  { pg with surface := update pg.surface color (f (pg.surface color)) }

end PgSurfaces

namespace NV2AState

def setSurface (color : Bool) (f : Surface → Surface) : NV2AState σ :=
  { d with pg := d.pg.setSurface color f }

def surfaceFormat (color : Bool) : Option SurfaceFormat :=
  if color then kelvinSurfaceColorFormat d.pg.surfaceShape.colorFormat.toNat
  else kelvinSurfaceZetaFormat H.d24UnormS8Uint d.pg.surfaceShape.zetaFormat.toNat

/-- The checks of `populate_surface_binding_target_sized` on what the guest programmed. -/
def targetOk (s : Surface) (dma : DMAObject) (format : SurfaceFormat) (height : Word) : Prop :=
  dma.dmaClass = 0x3d ∧ s.offset.setWidth 64 ≤ dma.limit ∧
    s.offset.setWidth 64 + (s.pitch * height).setWidth 64 ≤ dma.limit + 1 ∧
    s.pitch % format.bytesPerPixel = 0 ∧ dma.address &&& ~~~0x07FFFFFF = 0

instance (s : Surface) (dma : DMAObject) (format : SurfaceFormat) (height : Word) :
    Decidable (targetOk s dma format height) := by
  unfold targetOk
  infer_instance

def populateSurfaceBindingTargetSized (ramin : Ramin) (color : Bool)
    (width height : Word) : Except Abort SurfaceBinding :=
  match d.surfaceFormat H color, nvDmaLoad ramin (d.pg.dma color) with
  | some format, some dma =>
    let s := d.pg.surface color
    if targetOk s dma format height then
      .ok {
        vramAddr := dma.address + s.offset.setWidth 64
        shape :=
          if color then d.pg.surfaceShape
          else (d.r.binding true).elim d.pg.surfaceShape fun p => (d.r.mem p).shape
        color
        swizzle := d.pg.swizzled
        width
        height
        pitch := s.pitch
        size := (height * maxWord s.pitch (width * format.bytesPerPixel)).setWidth 64
        frameTime := d.pg.frameTime
        drawDirty := false
        downloadPending := false
        uploadPending := true
        format
        initialized := false
        unsaved := false }
    else .error .refused
  | _, _ => .error .refused

def targetDimensions (color : Bool) : Option (Word × Word) :=
  match color, d.r.binding true with
  | false, some p => some ((d.r.mem p).width, (d.r.mem p).height)
  | _, _ =>
    (d.pg.applyAntiAliasingFactor d.pg.getSurfaceDimensions).map fun dims =>
      -- The dimensions come from the clip rectangle, so its offset is included.
      if d.pg.swizzled then dims
      else (dims.1 + d.pg.surfaceShape.clipX, dims.2 + d.pg.surfaceShape.clipY)

def populateSurfaceBindingTarget (ramin : Ramin) (color : Bool) : Except Abort SurfaceBinding :=
  match d.targetDimensions color with
  | some dims => d.populateSurfaceBindingTargetSized H ramin color dims.1 dims.2
  | none => .error .refused

end NV2AState

/-- What the update of one target reads from outside: RAMIN when the target is looked up, RAMIN when
the other target is, and the dirty bit of the memory. The guest may change RAMIN in between. -/
structure PartInputs where
  (ramin probe : Ramin)
  memDirty : Bool

namespace NV2AState

variable (i : PartInputs)

def isCompatible (color : Bool) (s target : SurfaceBinding) : Except Abort Bool :=
  if target.swizzle && d.pg.clearing then .error .refused
  else if !checkSurfaceCompatibility s target false then .ok false
  else if color then
    if checkSurfaceCompatibility s target true then .ok true
    else
      -- A larger colour surface must leave zeta alone.
      (d.populateSurfaceBindingTargetSized H i.probe (!color) s.width s.height).map fun zeta =>
        decide (zeta.vramAddr + zeta.size ≤ s.vramAddr) ||
          decide (s.vramAddr + s.size ≤ zeta.vramAddr)
  else
    match d.r.binding true with
    | some p => .ok (s.width == (d.r.mem p).width && s.height == (d.r.mem p).height)
    | none => .ok true

def hitSurface (memDirty color : Bool) (p : Nat) : NV2AState σ :=
  let s := d.r.mem p
  let d := { d with
    pg := { d.pg with surfaceBindingDim := s.dim }
    r := d.r.set p { s with uploadPending := s.uploadPending || memDirty } }
  d.setSurface false fun z => { z with bufferDirty := z.bufferDirty || color }

def takeSurface (target : SurfaceBinding) : VkState σ × Nat :=
  match r.getAnyCompatibleInvalidSurface target with
  | some p => ({ r with invalidSurfaces := r.invalidSurfaces.erase p }, p)
  | none => (r, r.malloc)

def markZeta (color : Bool) (target : SurfaceBinding) : NV2AState σ :=
  match color, d.r.binding false with
  | true, some q =>
    if (d.r.mem q).width ≠ target.width ∨ (d.r.mem q).height ≠ target.height then
      d.setSurface false fun z => { z with bufferDirty := true }
    else d
  | _, _ => d

def createSurface (color : Bool) (target : SurfaceBinding) : Except Abort (NV2AState σ × Nat) :=
  let taken := takeSurface d.r target
  (surfacePut H { d with r := taken.1.set taken.2 target } taken.2).map fun d =>
    (markZeta { d with pg := { d.pg with surfaceBindingDim := target.dim } } color target, taken.2)

def findSurface (color : Bool)
    (target : SurfaceBinding) : Option Nat → Except Abort (NV2AState σ × Nat)
  | none => d.createSurface H color target
  | some p =>
    (d.isCompatible H i color (d.r.mem p) target).bind fun compatible =>
      if compatible then .ok (d.hitSurface (!H.tcgEnabled && i.memDirty) color p, p)
      else (d.evictSurface H p).bind fun d => d.createSurface H color target

def unbindForTarget (color : Bool) (found : Option Nat) : NV2AState σ :=
  let r := d.r.unbindSurface color
  { d with r := if found.isSome ∧ r.binding (!color) = found then r.unbindSurface (!color) else r }

def rebindSurface (color : Bool) (target : SurfaceBinding) : Except Abort (NV2AState σ) :=
  let found := d.r.surfaceGet target.vramAddr
  ((d.unbindForTarget color found).findSurface H i color target found).map fun out =>
    { out.1 with r := out.1.r.bindSurface out.2 }.setSurface color fun s =>
      { s with bufferDirty := false }

/-- The draws to a target are done: without a monitor on memory they are written back at once. -/
def settleDraws (color : Bool) : NV2AState σ :=
  let r :=
    if H.tcgEnabled then d.r
    else (d.r.binding color).elim d.r fun p => d.r.downloadSurface H p true
  { d with r }.setSurface color fun s => { s with writeEnabledCache := false, drawDirty := false }

def rebinds (upload color : Bool) : Bool :=
  (d.r.binding color).isNone ||
    (upload && ((d.pg.surface color).bufferDirty || (!H.tcgEnabled && i.memDirty)))

def updateSurfacePart (upload color : Bool) : Except Abort (NV2AState σ) :=
  (d.populateSurfaceBindingTarget H i.ramin color).bind fun target =>
    (if d.rebinds H i upload color then d.rebindSurface H i color target else .ok d).map fun d =>
      if !upload && (d.pg.surface color).drawDirty then d.settleDraws H color else d

structure UpdateInputs where
  (color zeta : PartInputs)

def checkFramebuffer : NV2AState σ :=
  if d.pg.framebufferDirty then
    { d with pg := { d.pg with
      lastSurfaceShape := d.pg.surfaceShape
      surface := fun color => { d.pg.surface color with bufferDirty := true } } }
  else d

def unbindMarked (color : Bool) : NV2AState σ :=
  if (d.pg.surface color).bufferDirty then { d with r := d.r.unbindSurface color } else d

def uploadPart (color write : Bool) : Except Abort (NV2AState σ) :=
  if write then (d.unbindMarked color).updateSurfacePart H i true color
  else .ok (d.unbindMarked color)

def hasDraws (color write : Bool) : Bool :=
  (write || (d.pg.surface color).writeEnabledCache) && (d.pg.surface color).drawDirty

def flushPart (color write : Bool) : Except Abort (NV2AState σ) :=
  if d.hasDraws color write then d.updateSurfacePart H i false color else .ok d

def touchBinding (upload color : Bool) : NV2AState σ :=
  { d with r := (d.r.binding color).elim d.r fun p =>
      let r := d.r.set p { d.r.mem p with frameTime := d.pg.frameTime }
      if upload then
        let r := r.uploadSurfaceData H p false
        r.set p { r.mem p with swizzle := d.pg.swizzled }
      else r }

def sameSizes : Bool :=
  match r.binding true, r.binding false with
  | some p, some q =>
    (r.mem p).width == (r.mem q).width && (r.mem p).height == (r.mem q).height
  | _, _ => true

def numInvalidSurfacesToKeep : Nat := 10

def finishUpdate (upload : Bool) : Except Abort (NV2AState σ) :=
  let d := (d.touchBinding H upload true).touchBinding H upload false
  if sameSizes d.r then
    (d.expireOldSurfaces H).map fun d =>
      { d with r := d.r.pruneInvalidSurfaces numInvalidSurfacesToKeep }
  else .error .sizesDiffer

def updateParts (u : UpdateInputs) (upload colorWrite zetaWrite : Bool) :
    Except Abort (NV2AState σ) :=
  if upload then
    (d.checkFramebuffer.uploadPart H u.color true colorWrite).bind fun d =>
      d.uploadPart H u.zeta false zetaWrite
  else
    (d.flushPart H u.color true colorWrite).bind fun d => d.flushPart H u.zeta false zetaWrite

def loadZFormat : NV2AState σ :=
  { d with pg := { d.pg with surfaceShape := { d.pg.surfaceShape with
    zFormat := getMask (d.pg.regs PgSurfaces.setuprasterReg) 0x20000000 } } }

def canWrite (color : Bool) : Bool :=
  d.pg.clearing || if color then d.pg.colorWriteEnabled else d.pg.zetaWriteEnabled

def surfaceUpdate (u : UpdateInputs)
    (upload colorWrite zetaWrite : Bool) : Except Abort (NV2AState σ) :=
  (d.loadZFormat.updateParts H u upload (colorWrite && d.canWrite true)
    (zetaWrite && d.canWrite false)).bind fun d => d.finishUpdate H upload

def surfaceFlush : Except Abort (NV2AState σ) :=
  let d := { d with
    pg := { d.pg with
      surface := fun color => { d.pg.surface color with drawDirty := false }
      lastSurfaceShape := .zero }
    r := (d.r.unbindSurface true).unbindSurface false }
  (evictWhere H (fun _ => true) d.r.surfaces d).map fun d =>
    { d with r := d.r.pruneInvalidSurfaces 0 }

def markDrawn (s : SurfaceBinding) (frameTime : Word) (dirty : Bool) : SurfaceBinding :=
  { s with
    drawDirty := s.drawDirty || dirty
    unsaved := s.unsaved || dirty
    frameTime }

/-- `pgraph_vk_set_surface_dirty` for one target. -/
def markTarget (color dirty : Bool) : NV2AState σ :=
  { d with r := (d.r.binding color).elim d.r fun p =>
      d.r.set p (markDrawn (d.r.mem p) d.pg.frameTime dirty) }.setSurface color fun s =>
    { s with drawDirty := s.drawDirty || dirty }

def setSurfaceDirty (color zeta : Bool) : NV2AState σ :=
  (d.markTarget true (color && d.pg.colorWriteEnabled)).markTarget false
    (zeta && d.pg.zetaWriteEnabled)

def drawBegin (u : UpdateInputs) : Except Abort (NV2AState σ) :=
  d.surfaceUpdate H u true true d.pg.depthOrStencilTest

/-- `pgraph_vk_draw_end`, after the draw. A draw that writes nothing is left out. -/
def drawEnd : NV2AState σ :=
  if !(d.pg.colorWriteEnabled || d.pg.depthOrStencilTest) then d
  else d.setSurfaceDirty d.pg.colorWriteEnabled d.pg.depthOrStencilTest

def clearSurface (parameter : Word) (u : UpdateInputs) : Except Abort (NV2AState σ) :=
  let writeColor := parameter &&& 0xF0 != 0
  let writeZeta := parameter &&& 0x3 != 0
  let d := { d with pg := { d.pg with clearing := true } }
  (d.surfaceUpdate H u true writeColor writeZeta).map fun d =>
    let bound := (d.r.binding true).isSome || (d.r.binding false).isSome
    let d := { d with pg := { d.pg with clearing := false } }
    if bound then d.setSurfaceDirty writeColor writeZeta else d

def blitSource (addr : Hwaddr) : VkState σ :=
  (r.surfaceGet addr).elim r fun p => r.surfaceDownloadIfDirty H p

/-- The surface at the destination of a blit is written back, or dropped if the blit covers it, and
has to be uploaded again. -/
def blitDest (addr : Hwaddr) (height rowPixels : Nat) : VkState σ :=
  (r.surfaceGet addr).elim r fun p =>
    let r :=
      if height < (r.mem p).height.toNat ∨ rowPixels < (r.mem p).width.toNat then
        r.surfaceDownloadIfDirty H p
      else r.set p { r.mem p with downloadPending := false, drawDirty := false, unsaved := false }
    r.set p { r.mem p with uploadPending := true }

inductive SurfaceMethod where
  | waitForIdle
  | flipIncrementWrite
  | flipStall
  | setContextDmaColor
  | setContextDmaZeta
  | setSurfaceClipHorizontal
  | setSurfaceClipVertical
  | setSurfaceFormat
  | setSurfacePitch
  | setSurfaceColorOffset
  | setSurfaceZetaOffset
  | setControl0
  | setColorMask
  | setDepthMask
  | backEndWriteSemaphoreRelease
  deriving DecidableEq

def SurfaceMethod.updates : SurfaceMethod → Bool
  | flipIncrementWrite | setContextDmaZeta | setColorMask | setDepthMask => false
  | _ => true

def setFlag (w mask : Word) (flag : Bool) : Word := setMask w mask (if flag then 1 else 0)

/-- `SET_SURFACE_FORMAT`. -/
def setFormat (parameter : Word) : PgSurfaces :=
  let surfaceType := getMask parameter 0x00000F00
  { pg with
    surfaceShape := { pg.surfaceShape with
      colorFormat := getMask parameter 0x0000000F
      zetaFormat := getMask parameter 0x000000F0
      antiAliasing := getMask parameter 0x0000F000
      logWidth := getMask parameter 0x00FF0000
      logHeight := getMask parameter 0xFF000000 }
    surfaceType
    surface := fun color =>
      { pg.surface color with
        bufferDirty := (pg.surface color).bufferDirty || surfaceType != pg.surfaceType } }

def setOffset (s : Surface) (offset : Word) : Surface :=
  { s with bufferDirty := s.bufferDirty || s.offset != offset, offset }

def setPitch (s : Surface) (pitch : Word) : Surface :=
  { s with bufferDirty := s.bufferDirty || s.pitch != pitch, pitch }

def SurfaceMethod.apply (m : SurfaceMethod) (parameter : Word) (pg : PgSurfaces) : PgSurfaces :=
  match m with
  | waitForIdle | flipStall | backEndWriteSemaphoreRelease => pg
  | flipIncrementWrite => { pg with frameTime := pg.frameTime + 1 }
  | setContextDmaColor =>
    { pg with dma := update pg.dma true parameter }.setSurface true fun s =>
      { s with bufferDirty := true }
  | setContextDmaZeta =>
    { pg with dma := update pg.dma false parameter }.setSurface false fun s =>
      { s with bufferDirty := true }
  | setSurfaceClipHorizontal =>
    { pg with surfaceShape := { pg.surfaceShape with
      clipX := getMask parameter 0x0000FFFF
      clipWidth := getMask parameter 0xFFFF0000 } }
  | setSurfaceClipVertical =>
    { pg with surfaceShape := { pg.surfaceShape with
      clipY := getMask parameter 0x0000FFFF
      clipHeight := getMask parameter 0xFFFF0000 } }
  | setSurfaceFormat => setFormat pg parameter
  | setSurfacePitch =>
    (pg.setSurface true (setPitch · (getMask parameter 0x0000FFFF))).setSurface false
      (setPitch · (getMask parameter 0xFFFF0000))
  | setSurfaceColorOffset => pg.setSurface true (setOffset · parameter)
  | setSurfaceZetaOffset => pg.setSurface false (setOffset · parameter)
  | setControl0 =>
    let stencil := setFlag (pg.regs control0) 0x02000000 (parameter &&& 0x00000001 != 0)
    let perspective := setFlag stencil 0x00800000 (parameter &&& 0x00010000 != 0)
    let zFormat := setMask (pg.regs PgSurfaces.setuprasterReg) 0x20000000
      (getMask parameter 0x00001000)
    let regs := update pg.regs control0 perspective
    { pg with regs := update regs PgSurfaces.setuprasterReg zFormat }
  | setColorMask =>
    let alpha := setFlag (pg.regs control0) 0x04000000 (parameter &&& 0x01000000 != 0)
    let red := setFlag alpha 0x08000000 (parameter &&& 0x00010000 != 0)
    let green := setFlag red 0x10000000 (parameter &&& 0x00000100 != 0)
    let blue := setFlag green 0x20000000 (parameter &&& 0x00000001 != 0)
    { pg with regs := update pg.regs control0 blue }.setSurface true fun s =>
      { s with writeEnabledCache := s.writeEnabledCache || pg.colorWriteEnabled }
  | setDepthMask =>
    let depth := setMask (pg.regs control0) 0x01000000 parameter
    { pg with regs := update pg.regs control0 depth }.setSurface false fun s =>
      { s with writeEnabledCache := s.writeEnabledCache || pg.zetaWriteEnabled }

def surfaceMethod (m : SurfaceMethod) (parameter : Word)
    (u : UpdateInputs) : Except Abort (NV2AState σ) :=
  (if m.updates then d.surfaceUpdate H u false true true else .ok d).map fun d =>
    { d with pg := m.apply parameter d.pg }

inductive Request where
  | downloads
  | dirtySurfaces
  | sync
  | flush
  deriving DecidableEq

def request : Request → NV2AState σ
  | .downloads => { d with r := { d.r with downloadsPending := true } }
  | .dirtySurfaces => { d with r := { d.r with downloadDirtySurfacesPending := true } }
  | .sync => { d with syncPending := true }
  | .flush => { d with flushPending := true }

/-- `pgraph_vk_render_display` shows the colour surface at an address. -/
def renderDisplay (addr : Hwaddr) : NV2AState σ :=
  { d with r := (d.r.surfaceGetWithin addr).elim d.r fun p =>
      let s := d.r.mem p
      if s.color && s.width != 0 && s.height != 0 then d.r.uploadSurfaceData H p (!H.tcgEnabled)
      else d.r }

def getFramebufferSurface (addr : Hwaddr) : NV2AState σ :=
  { d with r := (d.r.surfaceGetWithin addr).elim d.r fun p =>
      if (d.r.mem p).color then
        (d.r.set p { d.r.mem p with frameTime := d.pg.frameTime }).waitForSurfaceDownload p
      else d.r }

def processPending (display : Hwaddr) : Except Abort (NV2AState σ) :=
  let d := if d.r.downloadsPending then { d with r := d.r.processPendingDownloads H } else d
  let d :=
    if d.r.downloadDirtySurfacesPending then { d with r := d.r.downloadDirtySurfaces H } else d
  let d := if d.syncPending then { d.renderDisplay H display with syncPending := false } else d
  if d.flushPending then (d.surfaceFlush H).map fun d => { d with flushPending := false } else .ok d

/-- `create_texture` uses a surface as a texture. -/
def useAsTexture (addr : Hwaddr) : NV2AState σ :=
  { d with r := (d.r.surfaceGet addr).elim d.r fun p => d.r.uploadSurfaceData H p false }

end NV2AState

/-- What can happen to the surfaces. `memory` is anything else that changes memory or images, such
as the draws themselves and the writes of the CPU. -/
inductive SurfaceEvent (σ : Type) where
  | method (m : NV2AState.SurfaceMethod) (parameter : Word) (u : NV2AState.UpdateInputs)
  | reg (addr : Nat) (w : Word)
  | drawBegin (u : NV2AState.UpdateInputs)
  | drawEnd
  | clearSurface (parameter : Word) (u : NV2AState.UpdateInputs)
  | imageBlit (source dest : Hwaddr) (height rowPixels : Nat) (u : NV2AState.UpdateInputs)
  | textureUse (addr : Hwaddr)
  | memoryUse (start size : Hwaddr)
  | cpuAccess (addr len : Hwaddr) (write : Bool)
  | getFramebufferSurface (addr : Hwaddr)
  | request (what : NV2AState.Request)
  | processPending (display : Hwaddr)
  | memory (f : σ → σ)

namespace NV2AState

def exec : SurfaceEvent σ → Except Abort (NV2AState σ)
  | .method m parameter u => d.surfaceMethod H m parameter u
  | .reg addr w => .ok { d with pg := { d.pg with regs := update d.pg.regs addr w } }
  | .drawBegin u => d.drawBegin H u
  | .drawEnd => .ok d.drawEnd
  | .clearSurface parameter u => d.clearSurface H parameter u
  | .imageBlit source dest height rowPixels u =>
    (d.surfaceUpdate H u false true true).map fun d =>
      { d with r := blitDest H (blitSource H d.r source) dest height rowPixels }
  | .textureUse addr => .ok (d.useAsTexture H addr)
  | .memoryUse start size => .ok { d with r := d.r.downloadSurfacesInRangeIfDirty H start size }
  | .cpuAccess addr len write => .ok { d with r := d.r.surfaceAccessCallback addr len write }
  | .getFramebufferSurface addr => .ok (d.getFramebufferSurface addr)
  | .request what => .ok (d.request what)
  | .processPending display => d.processPending H display
  | .memory f => .ok { d with r := { d.r with store := f d.r.store } }

def step (e : SurfaceEvent σ) : Option (NV2AState σ) := (d.exec H e).toOption

end NV2AState

/-- After `pgraph_vk_init_surfaces`: no surface, whatever is in the registers and in memory. -/
def VkState.init (mem : Nat → SurfaceBinding) (store : σ) : VkState σ where
  mem
  surfaces := []
  invalidSurfaces := []
  binding := fun _ => none
  framebufferDirty := true
  downloadsPending := false
  downloadDirtySurfacesPending := false
  store
  evicted := []

end XogMobile.Nv2a.Vk
