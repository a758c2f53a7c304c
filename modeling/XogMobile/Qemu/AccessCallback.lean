import XogMobile.Lib.Run
import Mathlib.Algebra.Group.Nat.Defs

/-!
# Callbacks on accesses to memory

The GPU's renderer watches guest RAM through callbacks on ranges of RAM addresses. An access of the CPU
goes through the TLB, whose entries are marked when they are filled: only accesses to a marked page are
compared with the ranges, page by page. An access of a device goes through the regions of the address
space. It is compared once, at its beginning, with the RAM address of its first byte and its whole length.
A callback is inserted by work that is queued for the CPU, and the flush of the TLB is queued behind it.
-/

namespace XogMobile.Qemu

def addrBound : Nat := 2 ^ 64

/-- `MemAccessCallback`: a range of RAM addresses, `offset` behind the first one of a region. The insertion
asserts that it is not empty. -/
structure MemAccessCallback where
  (base offset len : Nat)
  pos : 0 < len
  fits : base + offset + len ≤ addrBound
  deriving DecidableEq

namespace MemAccessCallback

variable (cb : MemAccessCallback)

def addr : Nat := cb.base + cb.offset

def Covers (b : Nat) : Prop := cb.addr ≤ b ∧ b < cb.addr + cb.len

def Matches (addr len : Nat) : Prop :=
  let watchEnd := (cb.addr + cb.len - 1) % addrBound
  let accessEnd := (addr + len - 1) % addrBound
  ¬(watchEnd < addr ∨ accessEnd < cb.addr)

instance (addr len : Nat) : Decidable (cb.Matches addr len) :=
  inferInstanceAs (Decidable (¬(_ ∨ _)))

end MemAccessCallback

/-- A region of RAM, with the RAM address of its block, or of I/O. -/
structure MemoryRegion where
  ramBlock : Option Nat
  readonly : Bool
  maxAccessSize : Nat
  unaligned : Bool
  deriving DecidableEq

namespace MemoryRegion

/-- `memory_region_get_ram_addr`, which is `RAM_ADDR_INVALID` for I/O. -/
def getRamAddr (mr : MemoryRegion) : Nat := mr.ramBlock.getD (addrBound - 1)

def isDirect (mr : MemoryRegion) (isWrite : Bool) : Bool :=
  mr.ramBlock.isSome && !(isWrite && mr.readonly)

def accessSize (mr : MemoryRegion) (l addr : Nat) : Nat :=
  let sizeMax := if mr.maxAccessSize = 0 then 4 else mr.maxAccessSize
  let alignMax := (addr &&& (addrBound - addr)) % 2 ^ 32
  let sizeMax :=
    if mr.unaligned = false ∧ alignMax ≠ 0 ∧ alignMax < sizeMax then alignMax else sizeMax
  2 ^ Nat.log2 (min l sizeMax)

def unassigned : MemoryRegion := ⟨none, false, 0, false⟩

end MemoryRegion

/-- `MemoryRegionSection`: addresses from `base` on are those of a region from `offset` on. -/
structure MemorySection where
  (base size : Nat)
  region : MemoryRegion
  offset : Nat
  fits : ∀ block ∈ region.ramBlock, block + offset + size ≤ addrBound

structure Translated where
  region : MemoryRegion
  (addr len : Nat)

structure FlatView where
  sections : List MemorySection

namespace FlatView

def lookup (fv : FlatView) (addr : Nat) : Option MemorySection :=
  fv.sections.find? fun s => decide (s.base ≤ addr ∧ addr < s.base + s.size)

/-- `flatview_translate`. The length is cut at the end of a section of RAM only. -/
def translate (fv : FlatView) (addr len : Nat) : Translated :=
  match fv.lookup addr with
  | none => ⟨.unassigned, addr, len⟩
  | some s =>
    ⟨s.region, addr - s.base + s.offset,
      if s.region.ramBlock.isSome then min (s.size - (addr - s.base)) len else len⟩

end FlatView

structure Invocation where
  callback : MemAccessCallback
  (offset len : Nat)
  isWrite : Bool
  deriving DecidableEq

def Invocation.Reports (i : Invocation) (b : Nat) : Prop :=
  i.callback.base + i.offset ≤ b ∧ b < i.callback.base + i.offset + i.len

inductive DataAccess where
  | ram (addr len : Nat)
  | io (len : Nat)
  deriving DecidableEq

def DataAccess.Touches (b : Nat) : DataAccess → Prop
  | .ram addr len => addr ≤ b ∧ b < addr + len
  | .io _ => False

structure AccessPart where
  calls : List Invocation
  data : List DataAccess
  deriving DecidableEq

inductive AccessEvent where
  | call (i : Invocation)
  | data (d : DataAccess)
  deriving DecidableEq

structure Access where
  callbacks : List MemAccessCallback
  parts : List AccessPart

/-- The order is that of the source, where no branch leads back from the data to a check: `mmu_lookup` has
checked both pages when it returns, and a device's access is checked in front of the loop. -/
def Access.trace (a : Access) : List AccessEvent :=
  a.parts.flatMap (fun p => p.calls.map .call) ++ a.parts.flatMap (fun p => p.data.map .data)

/-- `mem_check_access_callback_ramaddr`. -/
def checkRamaddr (callbacks : List MemAccessCallback) (ramAddr len : Nat) (isWrite : Bool) :
    List Invocation :=
  (callbacks.filter fun cb => cb.Matches ramAddr len).map fun cb =>
    ⟨cb, max ramAddr cb.addr - cb.base, len, isWrite⟩

namespace FlatView

/-- The loop of `flatview_write_continue` and `flatview_read_continue`. A pass takes one byte at least,
so that the length is enough for `fuel`. -/
def continueLoop (fv : FlatView) (isWrite : Bool) : Nat → Nat → Nat → Translated → List DataAccess
  | 0, _, _, _ => []
  | fuel + 1, addr, len, t =>
    let direct := t.region.isDirect isWrite
    let l := if direct then t.len else t.region.accessSize t.len t.addr
    let d := if direct then .ram (t.region.getRamAddr + t.addr) l else .io l
    if len - l = 0 then [d]
    else d :: fv.continueLoop isWrite fuel (addr + l) (len - l) (fv.translate (addr + l) (len - l))

/-- The compiler knows the length of a `constant` read, and one that is to a single section of RAM is
inlined. -/
def Inlined (fv : FlatView) (addr len : Nat) (isWrite constant : Bool) : Prop :=
  constant = true ∧ isWrite = false ∧ (fv.translate addr len).len = len ∧
    (fv.translate addr len).region.isDirect false = true

instance (fv : FlatView) (addr len : Nat) (isWrite constant : Bool) :
    Decidable (fv.Inlined addr len isWrite constant) := inferInstanceAs (Decidable (_ ∧ _))

/-- The RAM address of the first byte. For I/O it is `RAM_ADDR_INVALID` plus the offset. -/
def checkedAddr (fv : FlatView) (addr len : Nat) : Nat :=
  ((fv.translate addr len).addr + (fv.translate addr len).region.getRamAddr) % addrBound

/-- `address_space_write` and `address_space_read`. -/
def deviceAccess (fv : FlatView) (callbacks : List MemAccessCallback) (addr len : Nat)
    (isWrite constant : Bool) : AccessPart :=
  let data := fv.continueLoop isWrite len addr len (fv.translate addr len)
  if fv.Inlined addr len isWrite constant then ⟨[], data⟩
  else ⟨checkRamaddr callbacks (fv.checkedAddr addr len) len isWrite, data⟩

end FlatView

def pageSize : Nat := 4096

/-- Where a page of the guest is: the RAM address of the page, or its offset in a region of I/O. -/
structure Iotlb where
  page : Nat
  (ram readonly : Bool)
  aligned : page % pageSize = 0
  fits : ram → page + pageSize ≤ addrBound

/-- `address_space_translate_for_iotlb` and the choice between RAM and I/O in `tlb_set_page_full`. The page
is one that belongs to one section: an address of a subpage is not mapped here. -/
def FlatView.iotlb (fv : FlatView) (phys : Nat) : Option Iotlb :=
  match fv.lookup (phys * pageSize) with
  | none => none
  | some s =>
    let xlat := phys * pageSize - s.base + s.offset
    if hcovers : s.base ≤ phys * pageSize ∧ phys * pageSize + pageSize ≤ s.base + s.size then
      match hblock : s.region.ramBlock with
      | some block =>
        if haligned : (block + xlat) % pageSize = 0 then
          some {
            page := block + xlat
            ram := true
            readonly := s.region.readonly
            aligned := haligned
            fits := fun _ => by
              have := s.fits block hblock
              omega }
        else none
      | none => some ⟨xlat / pageSize * pageSize, false, false, Nat.mul_mod_left _ _, nofun⟩
    else none

/-- An entry of the TLB. `watch` says that accesses are checked. -/
structure TlbEntry extends Iotlb where
  watch : Bool

/-- `tlb_set_page_full`. -/
def tlbSetPage (fv : FlatView) (callbacks : List MemAccessCallback) (phys : Nat) : Option TlbEntry :=
  (fv.iotlb phys).map fun p =>
    { p with watch := callbacks.any fun cb => cb.Matches p.page pageSize }

/-- Accesses go to RAM. Writes to a page that is read-only are discarded. -/
def Iotlb.direct (p : Iotlb) (isWrite : Bool) : Bool := p.ram && !(isWrite && p.readonly)

namespace TlbEntry

/-- `mmu_watch_or_dirty` and the access itself, for `size` bytes at `addr`. -/
def access (e : TlbEntry) (callbacks : List MemAccessCallback) (addr size : Nat) (isWrite : Bool) :
    AccessPart where
  calls := if e.watch then checkRamaddr callbacks (e.page + addr % pageSize) size isWrite else []
  data := [if e.direct isWrite then .ram (e.page + addr % pageSize) size else .io size]

end TlbEntry

/-- The memory system of a CPU. `unflushed` says that a callback was inserted and the TLB has not been
flushed yet. `accesses` records all accesses. -/
structure MemState where
  callbacks : List MemAccessCallback
  tlb : Nat → Option TlbEntry
  unflushed : Bool
  accesses : List Access

/-- What happens. The MMU has the pages `phys` and `phys'` for the pages of an access of the CPU. -/
inductive MemEvent where
  | insert (cb : MemAccessCallback)
  | remove (cb : MemAccessCallback)
  | flush
  | evict (page : Nat)
  | cpu (addr size : Nat) (isWrite : Bool) (phys phys' : Nat)
  | device (addr len : Nat) (isWrite constant : Bool)

namespace MemState

def entry (fv : FlatView) (s : MemState) (page phys : Nat) : Option TlbEntry :=
  (s.tlb page).or (tlbSetPage fv s.callbacks phys)

def setEntry (s : MemState) (page : Nat) (e : TlbEntry) : MemState :=
  { s with tlb := Function.update s.tlb page (some e) }

def accessed (s : MemState) (parts : List AccessPart) : MemState :=
  { s with accesses := s.accesses ++ [⟨s.callbacks, parts⟩] }

def nextPage (addr : Nat) : Nat := (addr / pageSize + 1) % 2 ^ 20

/-- `mmu_lookup`: an access of the CPU crosses one boundary of pages at most. -/
def cpuAccess (fv : FlatView) (s : MemState) (addr size : Nat) (isWrite : Bool) (phys phys' : Nat) :
    Option MemState :=
  if 0 < size ∧ size ≤ pageSize then
    (s.entry fv (addr / pageSize) phys).bind fun e =>
      let s := s.setEntry (addr / pageSize) e
      if addr % pageSize + size ≤ pageSize then
        some (s.accessed [e.access s.callbacks addr size isWrite])
      else
        let size0 := pageSize - addr % pageSize
        (s.entry fv (nextPage addr) phys').map fun e' =>
          (s.setEntry (nextPage addr) e').accessed
            [e.access s.callbacks addr size0 isWrite, e'.access s.callbacks 0 (size - size0) isWrite]
  else none

def step (fv : FlatView) (s : MemState) : MemEvent → Option MemState
  | .insert cb => some { s with callbacks := s.callbacks ++ [cb], unflushed := true }
  | .remove cb => if cb ∈ s.callbacks then some { s with callbacks := s.callbacks.erase cb } else none
  | .flush => some { s with tlb := fun _ => none, unflushed := false }
  | .evict page => some { s with tlb := Function.update s.tlb page none }
  | .cpu addr size isWrite phys phys' => s.cpuAccess fv addr size isWrite phys phys'
  | .device addr len isWrite constant =>
    if 0 < len then some (s.accessed [fv.deviceAccess s.callbacks addr len isWrite constant])
    else none

end MemState

end XogMobile.Qemu
