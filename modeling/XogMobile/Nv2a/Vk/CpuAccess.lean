import XogMobile.Lib.Run

/-!
# The CPU and the surfaces

Surfaces hold bytes of VRAM in images of the host, and the CPU goes on using VRAM. A callback on the
bytes of a surface is to keep both in step: before a load the image is downloaded if something was drawn,
and before a store the surface is also marked, so that it is uploaded before its next use. The callback is
inserted by work that is queued for the CPU when the surface is created. An access of the CPU is a check,
which calls the callbacks, and then the load or store itself; the PFIFO thread may run in between.

Bytes are modelled by the number of the store or draw that wrote them.
-/

namespace XogMobile.Nv2a.Vk.Coherence

open Lib

/-- The range of a callback. `id` tells callbacks apart. -/
structure Callback where
  (id addr size : Nat)
  deriving DecidableEq

structure CpuAccess where
  (addr len : Nat)
  isWrite : Bool
  pos : 0 < len

namespace CpuAccess

def bytes (a : CpuAccess) : List Nat := (List.range a.len).map (a.addr + ·)

def has (a : CpuAccess) (b : Nat) : Bool := decide (a.addr ≤ b ∧ b < a.addr + a.len)

end CpuAccess

/-- `SurfaceBinding`. `pixel` says which bytes of the range are in the image, which are those of its rows
without the rest of the pitch. -/
structure Surface where
  (vramAddr size accessCb : Nat)
  pixel : Nat → Bool
  image : Nat → Nat
  (drawDirty downloadPending uploadPending : Bool)
  pos : 0 < size
  inside : ∀ b, pixel b = true → vramAddr ≤ b ∧ b < vramAddr + size

namespace Surface

variable (s : Surface)

def callback : Callback := ⟨s.accessCb, s.vramAddr, s.size⟩

/-- `check_surface_overlaps_range`. -/
def Overlaps (start len : Nat) : Prop :=
  ¬(start + len ≤ s.vramAddr ∨ s.vramAddr + s.size ≤ start)

instance (start len : Nat) : Decidable (s.Overlaps start len) :=
  inferInstanceAs (Decidable (¬(_ ∨ _)))

def writeBack (vram : Nat → Nat) : Nat → Nat :=
  fun b => if s.pixel b then s.image b else vram b

def missing (stored : Nat → Nat) : List Nat :=
  ((List.range s.size).map (s.vramAddr + ·)).filter fun b => s.pixel b && decide (s.image b < stored b)

def downloaded : Surface := { s with downloadPending := false, drawDirty := false }

def uploaded (vram : Nat → Nat) (s : Surface) : Surface :=
  { s with image := vram, uploadPending := false }

def drawn (bytes : Nat → Bool) (n : Nat) (s : Surface) : Surface :=
  { s with image := fun b => if bytes b then n else s.image b, drawDirty := true }

/-- What `surface_access_callback` does to a surface that overlaps the interval. -/
def mark (isWrite : Bool) (s : Surface) : Surface :=
  { s with
    downloadPending := s.downloadPending || s.drawDirty
    uploadPending := s.uploadPending || isWrite }

end Surface

def mapWhere (c : Surface → Bool) (f : Surface → Surface) (surfaces : List Surface) : List Surface :=
  surfaces.map fun s => if c s then f s else s

def Callback.Hits (cb : Callback) (a : CpuAccess) : Prop :=
  ¬(cb.addr + cb.size ≤ a.addr ∨ a.addr + a.len ≤ cb.addr)

instance (cb : Callback) (a : CpuAccess) : Decidable (cb.Hits a) :=
  inferInstanceAs (Decidable (¬(_ ∨ _)))

/-- Where the CPU is in an access: some callbacks are still to be called, or it waits for downloads. -/
inductive Cpu where
  | idle
  | checking (todo : List Callback) (a : CpuAccess)
  | waiting (todo : List Callback) (a : CpuAccess)

def Cpu.access : Cpu → Option CpuAccess
  | .idle => none
  | .checking _ a | .waiting _ a => some a

def Cpu.todo : Cpu → List Callback
  | .idle => []
  | .checking todo _ | .waiting todo _ => todo

inductive Work where
  | insert (cb : Callback)
  | remove (cb : Callback)

structure Load where
  (byte value latest : Nat)
  deriving DecidableEq

/-- `latest` and `stored` record the last store or draw, and the last store, to each byte. `overwritten`
has the bytes for which a download wrote something older than the last store, and `leftOut` those that
were missing from a surface when it was drawn to. -/
structure State where
  vram : Nat → Nat
  surfaces : List Surface
  callbacks : List Callback
  work : List Work
  cpu : Cpu
  clock : Nat
  (latest stored : Nat → Nat)
  loads : List Load
  (overwritten leftOut : List Nat)

namespace State

/-- `download_surface` for some of the surfaces. -/
def downloadWhere (sel : Surface → Bool) (x : State) : State :=
  { x with
    vram := (x.surfaces.filter sel).foldl (fun vram s => s.writeBack vram) x.vram
    overwritten := x.overwritten ++ (x.surfaces.filter sel).flatMap (·.missing x.stored)
    surfaces := mapWhere sel Surface.downloaded x.surfaces }

def evictWhere (sel : Surface → Bool) (x : State) : State :=
  let x := x.downloadWhere fun s => sel s && s.drawDirty
  { x with
    surfaces := x.surfaces.filter fun s => !sel s
    work := x.work ++ (x.surfaces.filter sel).map fun s => .remove s.callback }

/-- `surface_put`: surfaces in the way are given up, and the callback's insertion is queued. -/
def put (s : Surface) (x : State) : State :=
  let x := x.evictWhere fun t => decide (t.Overlaps s.vramAddr s.size)
  { x with surfaces := s :: x.surfaces, work := x.work ++ [.insert s.callback] }

/-- `pgraph_vk_upload_surface_data`. -/
def upload (p : Nat) (x : State) : State :=
  let pending (s : Surface) := decide (s.vramAddr = p) && s.uploadPending
  { x with surfaces := mapWhere pending (Surface.uploaded x.vram) x.surfaces }

def stamp (bytes : Nat → Bool) (n : Nat) (m : Nat → Nat) : Nat → Nat :=
  fun b => if bytes b then n else m b

def draw (p : Nat) (bytes : Nat → Bool) (x : State) : State :=
  let n := x.clock + 1
  let bytes b := bytes b && x.surfaces.any fun s => decide (s.vramAddr = p) && s.pixel b
  { x with
    surfaces := mapWhere (fun s => decide (s.vramAddr = p)) (Surface.drawn bytes n) x.surfaces
    clock := n
    latest := stamp bytes n x.latest
    leftOut := x.leftOut ++
      (x.surfaces.filter fun s => s.vramAddr = p).flatMap (·.missing x.stored) }

/-- `surface_access_callback`, for one callback of an access. -/
def call (cb : Callback) (todo : List Callback) (a : CpuAccess) (x : State) : State :=
  let start := max a.addr cb.addr
  { x with
    surfaces :=
      mapWhere (fun s => decide (s.Overlaps start a.len)) (Surface.mark a.isWrite) x.surfaces
    cpu :=
      if x.surfaces.any fun s => decide (s.Overlaps start a.len) && s.drawDirty then .waiting todo a
      else .checking todo a }

def access (a : CpuAccess) (x : State) : State :=
  if a.isWrite then
    let n := x.clock + 1
    { x with
      cpu := .idle
      vram := stamp a.has n x.vram
      clock := n
      latest := stamp a.has n x.latest
      stored := stamp a.has n x.stored }
  else
    { x with
      cpu := .idle
      loads := x.loads ++ a.bytes.map fun b => ⟨b, x.vram b, x.latest b⟩ }

/-- `process_pending_downloads`, which lets the CPU go on. -/
def pendingDownloads (x : State) : State :=
  let x := x.downloadWhere (·.downloadPending)
  { x with cpu := match x.cpu with
    | .waiting todo a => .checking todo a
    | cpu => cpu }

end State

inductive Event where
  | work
  | check (a : CpuAccess)
  | call
  | access
  | create (s : Surface)
  | upload (p : Nat)
  | draw (p : Nat) (bytes : Nat → Bool)
  | downloadDirty (p : Nat)
  | pendingDownloads
  | evict (p : Nat)

/-- One step of the CPU or of the PFIFO thread. Queued work is done between accesses. -/
def step (x : State) : Event → Option State
  | .work =>
    match x.cpu, x.work with
    | .idle, .insert cb :: work => some { x with callbacks := x.callbacks ++ [cb], work := work }
    | .idle, .remove cb :: work => some { x with callbacks := x.callbacks.erase cb, work := work }
    | _, _ => none
  | .check a =>
    match x.cpu with
    | .idle => some { x with cpu := .checking (x.callbacks.filter fun cb => cb.Hits a) a }
    | _ => none
  | .call =>
    match x.cpu with
    | .checking (cb :: todo) a => some (x.call cb todo a)
    | _ => none
  | .access =>
    match x.cpu with
    | .checking [] a => some (x.access a)
    | _ => none
  | .create s =>
    if s.uploadPending ∧ s.drawDirty = false ∧ s.downloadPending = false ∧
        ∀ t ∈ x.surfaces, t.vramAddr ≠ s.vramAddr then some (x.put s)
    else none
  | .upload p => some (x.upload p)
  | .draw p bytes => some (x.draw p bytes)
  | .downloadDirty p => some (x.downloadWhere fun s => decide (s.vramAddr = p) && s.drawDirty)
  | .pendingDownloads => some x.pendingDownloads
  | .evict p => some (x.evictWhere fun s => decide (s.vramAddr = p))

def State.initial : State where
  vram := fun _ => 0
  surfaces := []
  callbacks := []
  work := []
  cpu := .idle
  clock := 0
  latest := fun _ => 0
  stored := fun _ => 0
  loads := []
  overwritten := []
  leftOut := []

end XogMobile.Nv2a.Vk.Coherence
