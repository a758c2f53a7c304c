import XogMobile.Lib.Footprint
import XogMobile.Nv2a.Vk.Memory

/-!
# The vertex RAM buffer

Draws that take their vertices from guest memory read a copy of it, the vertex RAM buffer, and they read
it when the command buffer is submitted. Before a draw is recorded the pages it needs are copied if the
guest wrote to them, as the `DIRTY_MEMORY_NV2A` bits tell. A bitmap records the pages copied since the
last submission: before one of them is copied again, the draws recorded so far are submitted.

The steps are fine: the CPU may write between any two of them.
-/

namespace XogMobile.Nv2a.Vk.VertexRam

open Lib List Bool

def page (a : Nat) : Nat := a / 4096

def roundUp (a : Nat) : Nat := (a + 4095) / 4096 * 4096

structure Sync where
  (addr size : Nat)
  deriving DecidableEq

namespace Sync

def has (r : Sync) (a : Nat) : Bool := decide (r.addr ≤ a) && decide (a < r.addr + r.size)

def pages (r : Sync) : List Nat :=
  List.range' (page r.addr) (page (roundUp (r.addr + r.size)) - page r.addr)

def setBits (r : Sync) (value : Bool) (bits : Nat → Bool) (p : Nat) : Bool :=
  if p ∈ r.pages then value else bits p

def align (r : Sync) : Sync :=
  let start := page r.addr * 4096
  ⟨start, roundUp (r.addr + r.size) - start⟩

def Aligned (r : Sync) : Prop := r.addr % 4096 = 0 ∧ r.size % 4096 = 0

end Sync

def mergeSyncs : Sync → List Sync → List Sync
  | p, [] => [p]
  | p, t :: ts =>
    if t.addr ≤ p.addr + p.size then
      mergeSyncs ⟨p.addr, max (p.addr + p.size) (t.addr + t.size) - p.addr⟩ ts
    else p :: mergeSyncs t ts

/-- The first part of `sync_vertex_ram_buffer`: align, sort and merge. -/
def mergedSyncs (syncs : List Sync) : List Sync :=
  match (syncs.map Sync.align).insertionSort fun r t => r.addr ≤ t.addr with
  | [] => []
  | r :: rs => mergeSyncs r rs

/-- An attribute that is read from memory: `count` components of `size` bytes. -/
structure VertexAttribute where
  (addr stride size count : Nat)
  deriving DecidableEq

structure Draw where
  attributes : List VertexAttribute
  (minElement maxElement : Word)
  deriving DecidableEq

namespace VertexAttribute

/-- `remap_unaligned_attributes` takes the attribute out of the buffer: its data is copied from memory
with the draw. -/
def remapped (attr : VertexAttribute) : Bool :=
  attr.addr % attr.size != 0 || attr.stride % attr.size != 0

end VertexAttribute

namespace Draw

/-- `update_memory_buffer`, called by `pgraph_vk_bind_vertex_attributes`. -/
def sync (draw : Draw) (attr : VertexAttribute) : Sync :=
  ⟨attr.addr + draw.minElement.toNat * attr.stride,
    (draw.maxElement - draw.minElement + 1).toNat * attr.stride⟩

/-- The attribute of a vertex of the draw has the byte. A stride of 0 makes the attribute a constant. -/
def reads (draw : Draw) (attr : VertexAttribute) (a : Nat) : Bool :=
  attr.stride != 0 &&
    (List.range' draw.minElement.toNat (draw.maxElement.toNat + 1 - draw.minElement.toNat)).any
      fun v => decide (attr.addr + v * attr.stride ≤ a) &&
        decide (a < attr.addr + v * attr.stride + attr.size * attr.count)

def readsBuffer (draw : Draw) (a : Nat) : Bool :=
  draw.attributes.any fun attr => !attr.remapped && draw.reads attr a

def fits (draw : Draw) : Bool :=
  draw.attributes.all fun attr => attr.stride == 0 || attr.remapped ||
    decide (draw.maxElement < draw.minElement) ||
    decide (attr.addr + draw.maxElement.toNat * attr.stride + attr.size * attr.count ≤
      (draw.sync attr).align.addr + (draw.sync attr).align.size)

end Draw

/-- Where the PFIFO thread is in a draw: `rest` is what is still to be looked at. -/
inductive Phase where
  | idle
  | syncing (draw : Draw) (rest : List Sync)
  | updating (draw : Draw) (range : Sync) (rest : List Sync)

/-- A recorded draw, with the memory when it was recorded. `staged` is what was copied then for the
attributes that are not in the buffer. -/
structure Recorded where
  draw : Draw
  (memory staged : Nat → Byte)

structure Submitted where
  recorded : Recorded
  buffer : Nat → Byte

def Submitted.got (t : Submitted) (attr : VertexAttribute) (a : Nat) : Byte :=
  if attr.remapped then t.recorded.staged a else t.buffer a

/-- `vram` is guest memory and `dirty` its `DIRTY_MEMORY_NV2A` bits. -/
structure State where
  vram : Nat → Byte
  dirty : Nat → Bool
  buffer : Nat → Byte
  uploaded : Nat → Bool
  inCommandBuffer : Bool
  phase : Phase
  recorded : List Recorded
  submitted : List Submitted

/-- After `pgraph_vk_init`: all of memory was copied. -/
def State.init (size : Nat) (vram : Nat → Byte) (dirty : Nat → Bool) : State where
  vram
  dirty
  buffer := vram
  uploaded := (Sync.mk 0 size).setBits true fun _ => false
  inCommandBuffer := false
  phase := .idle
  recorded := []
  submitted := []

namespace State

variable (s : State)

def finish : State :=
  if s.inCommandBuffer then
    { s with
      uploaded := fun _ => false
      inCommandBuffer := false
      recorded := []
      submitted := s.submitted ++ s.recorded.map fun t => ⟨t, s.buffer⟩ }
  else s

def write (bytes : List (Nat × Byte)) : State :=
  { s with vram := bytes.foldl (fun m w => Function.update m w.1 w.2) s.vram }

/-- The store and its dirty bit are one step. -/
def cpuWrite (bytes : List (Nat × Byte)) : State :=
  { s.write bytes with dirty := fun p => s.dirty p || bytes.any fun w => page w.1 == p }

/-- `download_surface`, which finishes first if the surface was drawn to since the last submission. It
sets other dirty bits. -/
def download (finishes : Bool) (bytes : List (Nat × Byte)) : State :=
  (if finishes then s.finish else s).write bytes

def copy (range : Sync) : State :=
  { s with
    buffer := fun a => if range.has a then s.vram a else s.buffer a
    uploaded := range.setBits true s.uploaded }

/-- `pgraph_vk_update_vertex_ram_buffer`, after the downloads. -/
def updateVertexRamBuffer (range : Sync) : State :=
  (if range.pages.any s.uploaded then s.finish else s).copy range

end State

/-- `testAndClear` is one pass of the last loop of `sync_vertex_ram_buffer`, up to the call of
`pgraph_vk_update_vertex_ram_buffer`; the downloads that function makes are steps of their own, and
`upload` is the rest of it. `surfaceCheck` is the test `update_surface_part` makes without TCG. -/
inductive Event where
  | cpuWrite (bytes : List (Nat × Byte))
  | blit (bytes : List (Nat × Byte))
  | download (finishes : Bool) (bytes : List (Nat × Byte))
  | nondraw
  | finish
  | flush (size : Nat)
  | surfaceCheck (range : Sync)
  | bind (draw : Draw)
  | testAndClear
  | upload
  | record

namespace State

def step (s : State) : Event → Option State
  | .cpuWrite bytes => some (s.cpuWrite bytes)
  | .blit bytes =>
    match s.phase with
    | .idle => some (s.write bytes)
    | _ => none
  | .download finishes bytes => some (s.download finishes bytes)
  | .nondraw => some { s with inCommandBuffer := true }
  | .finish => some s.finish
  | .flush size =>
    match s.phase with
    | .idle => some (s.finish.updateVertexRamBuffer ⟨0, size⟩)
    | _ => none
  | .surfaceCheck range => some { s with dirty := range.setBits false s.dirty }
  | .bind draw =>
    match s.phase with
    | .idle => some { s with phase := .syncing draw (mergedSyncs (draw.attributes.map draw.sync)) }
    | _ => none
  | .testAndClear =>
    match s.phase with
    | .syncing draw (range :: rest) =>
      if range.pages.any s.dirty then
        some { s with
          dirty := range.setBits false s.dirty
          phase := .updating draw range rest }
      else some { s with phase := .syncing draw rest }
    | _ => none
  | .upload =>
    match s.phase with
    | .updating draw range rest =>
      some { s.updateVertexRamBuffer range with phase := .syncing draw rest }
    | _ => none
  | .record =>
    match s.phase with
    | .syncing draw [] =>
      some { s with
        inCommandBuffer := true
        phase := .idle
        recorded := s.recorded ++ [⟨draw, s.vram, s.vram⟩] }
    | _ => none

end State

namespace Sync

variable {r : Sync} {a : Nat}

theorem has_iff : r.has a = true ↔ r.addr ≤ a ∧ a < r.addr + r.size := by
  rw [has, and_eq_true, decide_eq_true_eq, decide_eq_true_eq]

theorem page_mem_pages (h : r.has a = true) : page a ∈ r.pages := by
  rw [has_iff] at h
  rw [pages, mem_range'_1, page, page, page, roundUp]
  omega

theorem has_of_page_mem (halign : r.Aligned) (h : page a ∈ r.pages) : r.has a = true := by
  obtain ⟨haddr, hsize⟩ := halign
  rw [pages, mem_range'_1, page, page, page, roundUp] at h
  rw [has_iff]
  omega

theorem align_aligned (r : Sync) : r.align.Aligned := by
  constructor
  · exact Nat.mul_mod_left _ _
  · rw [align, roundUp]
    rw [← Nat.sub_mul]
    exact Nat.mul_mod_left _ _

end Sync

variable {ts : List Sync} {a : Nat}

theorem has_mergeSyncs {p : Sync} (hsorted : (p :: ts).Pairwise fun r t => r.addr ≤ t.addr)
    (h : ∃ r ∈ p :: ts, r.has a = true) : ∃ r ∈ mergeSyncs p ts, r.has a = true := by
  induction ts generalizing p with
  | nil => exact h
  | cons t ts ih =>
    rw [pairwise_cons, pairwise_cons] at hsorted
    obtain ⟨hp, ht, hts⟩ := hsorted
    rw [mergeSyncs]
    obtain ⟨r, hr, hra⟩ := h
    split
    · next hle =>
      have hpt := hp t mem_cons_self
      refine ih (pairwise_cons.mpr ⟨fun u hu => hp u (.tail t hu), hts⟩) ?_
      -- The merged range has the bytes of both.
      have hboth : ∀ u, u = p ∨ u = t → u.has a = true → (Sync.mk p.addr
          (max (p.addr + p.size) (t.addr + t.size) - p.addr)).has a = true := by
        rintro u (rfl | rfl) hu <;> rw [Sync.has_iff] at hu ⊢ <;> dsimp only <;> omega
      obtain rfl | hr := mem_cons.mp hr
      · exact ⟨_, mem_cons_self, hboth r (.inl rfl) hra⟩
      obtain rfl | hr := mem_cons.mp hr
      · exact ⟨_, mem_cons_self, hboth r (.inr rfl) hra⟩
      · exact ⟨r, .tail _ hr, hra⟩
    · obtain rfl | hr := mem_cons.mp hr
      · exact ⟨r, mem_cons_self, hra⟩
      · obtain ⟨u, hu, hua⟩ := ih (pairwise_cons.mpr ⟨ht, hts⟩) ⟨r, hr, hra⟩
        exact ⟨u, .tail p hu, hua⟩

theorem mergeSyncs_aligned {p : Sync} (h : ∀ r ∈ p :: ts, r.Aligned) : ∀ r ∈ mergeSyncs p ts, r.Aligned := by
  induction ts generalizing p with
  | nil => exact h
  | cons t ts ih =>
    have hp := h p mem_cons_self
    have ht := h t (.tail p mem_cons_self)
    rw [mergeSyncs]
    split
    · refine ih (forall_mem_cons.mpr ⟨?_, fun r hr => h r (.tail p (.tail t hr))⟩)
      rw [Sync.Aligned] at hp ht ⊢
      dsimp only
      omega
    · exact forall_mem_cons.mpr ⟨hp, ih fun r hr => h r (.tail p hr)⟩

theorem mergedSyncs_aligned (syncs : List Sync) : ∀ r ∈ mergedSyncs syncs, r.Aligned := by
  have hall : ∀ r ∈ (syncs.map Sync.align).insertionSort fun r t => r.addr ≤ t.addr, r.Aligned := by
    intro r hr
    obtain ⟨t, -, rfl⟩ := mem_map.mp ((mem_insertionSort _).mp hr)
    exact t.align_aligned
  unfold mergedSyncs
  split
  · exact fun r hr => absurd hr not_mem_nil
  · next hsort => exact mergeSyncs_aligned (hsort ▸ hall)

theorem has_mergedSyncs {syncs : List Sync} {r : Sync} (hr : r ∈ syncs)
    (ha : r.align.has a = true) : ∃ t ∈ mergedSyncs syncs, t.has a = true := by
  have hsorted := pairwise_insertionSort (fun r t : Sync => r.addr ≤ t.addr)
    (syncs.map Sync.align)
  have hmem : r.align ∈ (syncs.map Sync.align).insertionSort fun r t => r.addr ≤ t.addr :=
    (mem_insertionSort _).mpr (mem_map_of_mem hr)
  unfold mergedSyncs
  split
  · next hnil =>
    rw [hnil] at hmem
    exact absurd hmem not_mem_nil
  · next hsort =>
    rw [hsort] at hsorted hmem
    exact has_mergeSyncs hsorted ⟨_, hmem, ha⟩

theorem Draw.has_of_readsBuffer {draw : Draw} (hfits : draw.fits = true) (h : draw.readsBuffer a = true) :
    ∃ r ∈ mergedSyncs (draw.attributes.map draw.sync), r.has a = true := by
  obtain ⟨attr, hattr, h⟩ := any_eq_true.mp h
  rw [and_eq_true, not_eq_true', reads, and_eq_true, bne_iff_ne] at h
  obtain ⟨hremapped, hstride, h⟩ := h
  obtain ⟨v, hv, h⟩ := any_eq_true.mp h
  rw [and_eq_true, decide_eq_true_eq, decide_eq_true_eq] at h
  rw [mem_range'_1] at hv
  have hend := all_eq_true.mp hfits attr hattr
  simp only [hremapped, Bool.or_false, or_eq_true, beq_iff_eq, decide_eq_true_eq, BitVec.lt_def] at hend
  refine has_mergedSyncs (mem_map_of_mem hattr) (Sync.has_iff.mpr ⟨?_, ?_⟩)
  · have hmin : draw.minElement.toNat * attr.stride ≤ v * attr.stride :=
      Nat.mul_le_mul_right _ hv.1
    have hstart : (draw.sync attr).align.addr ≤ (draw.sync attr).addr := Nat.div_mul_le_self _ _
    exact hstart.trans ((Nat.add_le_add_left hmin _).trans h.1)
  · have hmax : v * attr.stride ≤ draw.maxElement.toNat * attr.stride :=
      Nat.mul_le_mul_right _ (by omega)
    omega

namespace Phase

def synced (ph : Phase) (a : Nat) : Bool :=
  match ph with
  | .idle => false
  | .syncing draw rest => draw.readsBuffer a && !rest.any (·.has a)
  | .updating draw range rest => draw.readsBuffer a && !(range :: rest).any (·.has a)

def copies (ph : Phase) (a : Nat) : Bool :=
  match ph with
  | .updating _ range _ => range.has a
  | _ => false

def ranges (ph : Phase) : List Sync :=
  match ph with
  | .idle => []
  | .syncing _ rest => rest
  | .updating _ range rest => range :: rest

end Phase

namespace State

/-- A byte may change: the draw that is being recorded has not got it yet, and where a recorded draw
reads it, the page was copied since the last submission. -/
def mayChange (s : State) (a : Nat) : Bool :=
  !s.phase.synced a && s.recorded.all fun t => !t.draw.readsBuffer a || s.uploaded (page a)

/-- Every byte that changes may do so. If the store does not set the dirty bit, it is set already or the
byte is about to be copied. -/
def writeOk (s : State) (marks : Bool) (bytes : List (Nat × Byte)) : Bool :=
  bytes.all fun w => s.vram w.1 == w.2 ||
    s.mayChange w.1 && (marks || s.dirty (page w.1) || s.phase.copies w.1)

def stepOk (s : State) : Event → Bool
  | .cpuWrite bytes => s.writeOk true bytes
  | .blit bytes => s.writeOk false bytes
  | .download finishes bytes => (if finishes then s.finish else s).writeOk false bytes
  | .surfaceCheck range => !range.pages.any s.dirty
  | .bind draw => draw.fits
  | _ => true

end State

/-- Recorded draws will read the bytes there were when they were recorded. -/
structure Inv (s : State) : Prop where
  fresh : ∀ a, s.dirty (page a) = false → s.phase.copies a = true ∨ s.buffer a = s.vram a
  safe : ∀ t ∈ s.recorded, ∀ a, t.draw.readsBuffer a = true →
    s.buffer a = t.memory a ∧ (s.uploaded (page a) = true ∨ s.vram a = t.memory a)
  synced : ∀ a, s.phase.synced a = true → s.buffer a = s.vram a
  aligned : ∀ r ∈ s.phase.ranges, r.Aligned
  started : s.recorded ≠ [] → s.inCommandBuffer = true
  staged : ∀ t ∈ s.recorded, t.staged = t.memory
  submitted : ∀ t ∈ s.submitted, ∀ attr ∈ t.recorded.draw.attributes, ∀ a,
    t.recorded.draw.reads attr a = true → t.got attr a = t.recorded.memory a

namespace State

variable {s s' : State}

theorem init_inv (size : Nat) (vram : Nat → Byte) (dirty : Nat → Bool) : Inv (.init size vram dirty) where
  fresh _ _ := .inr rfl
  safe _ ht := absurd ht not_mem_nil
  synced _ _ := rfl
  aligned _ hr := absurd hr not_mem_nil
  started h := absurd rfl h
  staged _ ht := absurd ht not_mem_nil
  submitted _ ht := absurd ht not_mem_nil

@[simp] theorem finish_vram (s : State) : s.finish.vram = s.vram := by
  unfold finish
  split <;> rfl

@[simp] theorem finish_buffer (s : State) : s.finish.buffer = s.buffer := by
  unfold finish
  split <;> rfl

@[simp] theorem finish_dirty (s : State) : s.finish.dirty = s.dirty := by
  unfold finish
  split <;> rfl

@[simp] theorem finish_phase (s : State) : s.finish.phase = s.phase := by
  unfold finish
  split <;> rfl

theorem finish_recorded (h : Inv s) : s.finish.recorded = [] := by
  unfold finish
  split
  · rfl
  · next hnot => exact not_not.mp fun hne => hnot (h.started hne)

theorem finish_inv (h : Inv s) : Inv s.finish where
  fresh := by simpa using h.fresh
  safe t ht := by
    rw [finish_recorded h] at ht
    exact absurd ht not_mem_nil
  synced := by simpa using h.synced
  aligned := by simpa using h.aligned
  started hne := absurd (finish_recorded h) hne
  staged t ht := by
    rw [finish_recorded h] at ht
    exact absurd ht not_mem_nil
  submitted := by
    unfold finish
    split
    · intro t ht attr hattr a ha
      obtain ht | ht := mem_append.mp ht
      · exact h.submitted t ht attr hattr a ha
      obtain ⟨u, hu, rfl⟩ := mem_map.mp ht
      rw [Submitted.got]
      split
      · rw [h.staged u hu]
      · next hremapped =>
        rw [not_eq_true] at hremapped
        refine (h.safe u hu a (any_eq_true.mpr ⟨attr, hattr, ?_⟩)).1
        rw [hremapped]
        exact ha
    · exact h.submitted

variable {bytes : List (Nat × Byte)} {range : Sync} {draw : Draw} {rest : List Sync}

theorem exists_of_write_ne {a : Nat} (h : (s.write bytes).vram a ≠ s.vram a) :
    ∃ w ∈ bytes, w.1 = a ∧ s.vram a ≠ w.2 := by
  obtain hsame | ⟨w, hw, hwa, hlast⟩ := foldl_update_cases bytes s.vram a
  · exact absurd hsame h
  · exact ⟨w, hw, hwa, fun heq => h (hlast.trans heq.symm)⟩

theorem write_inv {marks : Bool} {dirty : Nat → Bool} (h : Inv s)
    (hok : s.writeOk marks bytes = true) (hdirty : ∀ p, s.dirty p = true → dirty p = true)
    (hmarks : marks = true → ∀ w ∈ bytes, dirty (page w.1) = true) :
    Inv { s.write bytes with dirty } := by
  have hchange : ∀ a, (s.write bytes).vram a ≠ s.vram a →
      s.mayChange a = true ∧ (dirty (page a) = true ∨ s.phase.copies a = true) := by
    intro a ha
    obtain ⟨w, hw, rfl, hne⟩ := exists_of_write_ne ha
    have hok := all_eq_true.mp hok w hw
    rw [or_eq_true, beq_iff_eq, and_eq_true, or_eq_true, or_eq_true] at hok
    obtain ⟨hmay, hmarked⟩ := hok.resolve_left hne
    refine ⟨hmay, hmarked.imp_left fun hset => ?_⟩
    exact hset.elim (fun hset => hmarks hset w hw) (hdirty _)
  refine { h with fresh := fun a ha => ?_, safe := fun t ht a ha => ?_, synced := fun a ha => ?_ }
  · by_cases hne : (s.write bytes).vram a = s.vram a
    · have hclean : s.dirty (page a) = false :=
        eq_false_iff.mpr fun hset => false_ne_true (ha.symm.trans (hdirty _ hset))
      exact (h.fresh a hclean).imp_right fun hbuffer => hbuffer.trans hne.symm
    · refine .inl ((hchange a hne).2.resolve_left ?_)
      exact fun hset => false_ne_true (ha.symm.trans hset)
  · obtain ⟨hbuffer, hkept⟩ := h.safe t ht a ha
    refine ⟨hbuffer, ?_⟩
    by_cases hne : (s.write bytes).vram a = s.vram a
    · exact hkept.imp_right fun hvram => hne.trans hvram
    · have hmay := (hchange a hne).1
      rw [mayChange, and_eq_true, all_eq_true] at hmay
      have huploaded := hmay.2 t ht
      rw [ha] at huploaded
      exact .inl huploaded
  · by_cases hne : (s.write bytes).vram a = s.vram a
    · exact (h.synced a ha).trans hne.symm
    · have hmay := (hchange a hne).1
      rw [mayChange, and_eq_true, not_eq_true'] at hmay
      exact absurd (hmay.1.symm.trans ha) false_ne_true

theorem copy_inv (h : Inv s) (hclear : ∀ t ∈ s.recorded, ∀ a, range.has a = true → s.uploaded (page a) = false) :
    Inv (s.copy range) := by
  refine { h with fresh := fun a ha => ?_, safe := fun t ht a ha => ?_, synced := fun a ha => ?_ }
  · dsimp only [copy]
    split
    · exact .inr rfl
    · exact h.fresh a ha
  · obtain ⟨hbuffer, hkept⟩ := h.safe t ht a ha
    dsimp only [copy]
    constructor
    · split
      · next hhas =>
        refine hkept.resolve_left fun hset => ?_
        exact false_ne_true ((hclear t ht a hhas).symm.trans hset)
      · exact hbuffer
    · refine hkept.imp_left fun hset => ?_
      rw [Sync.setBits]
      split
      · rfl
      · exact hset
  · dsimp only [copy]
    split
    · rfl
    · exact h.synced a ha

theorem updateVertexRamBuffer_inv (h : Inv s) (range : Sync) : Inv (s.updateVertexRamBuffer range) := by
  unfold updateVertexRamBuffer
  split
  · refine copy_inv (finish_inv h) fun t ht => ?_
    rw [finish_recorded h] at ht
    exact absurd ht not_mem_nil
  · next hnone =>
    refine copy_inv h fun t ht a ha => ?_
    rw [not_eq_true, any_eq_false] at hnone
    exact eq_false_iff.mpr (hnone (page a) (Sync.page_mem_pages ha))

theorem updateVertexRamBuffer_phase (s : State) (range : Sync) : (s.updateVertexRamBuffer range).phase = s.phase := by
  unfold updateVertexRamBuffer
  split
  · exact s.finish_phase
  · rfl

theorem updateVertexRamBuffer_buffer (s : State) {a : Nat} (h : range.has a = true) :
    (s.updateVertexRamBuffer range).buffer a = (s.updateVertexRamBuffer range).vram a := by
  exact if_pos h

theorem bind_inv (h : Inv s) (hphase : s.phase = .idle) (hfits : draw.fits = true) :
    Inv { s with phase := .syncing draw (mergedSyncs (draw.attributes.map draw.sync)) } := by
  refine { h with fresh := fun a ha => ?_, synced := fun a ha => ?_, aligned := ?_ }
  · have hfresh := h.fresh a ha
    rw [hphase] at hfresh
    exact hfresh
  · rw [Phase.synced, and_eq_true, not_eq_true', any_eq_false] at ha
    obtain ⟨r, hr, hra⟩ := draw.has_of_readsBuffer hfits ha.1
    exact absurd hra (ha.2 r hr)
  · exact mergedSyncs_aligned _

theorem skip_inv (h : Inv s) (hphase : s.phase = .syncing draw (range :: rest))
    (hclean : range.pages.any s.dirty = false) : Inv { s with phase := .syncing draw rest } := by
  have hfresh := h.fresh
  have hsynced := h.synced
  have haligned := h.aligned
  rw [hphase] at hfresh hsynced haligned
  refine { h with fresh := hfresh, synced := fun a ha => ?_, aligned := fun r hr => ?_ }
  · rw [Phase.synced, and_eq_true, not_eq_true'] at ha
    by_cases hhas : range.has a = true
    · rw [any_eq_false] at hclean
      have hpage := eq_false_iff.mpr (hclean (page a) (Sync.page_mem_pages hhas))
      exact (hfresh a hpage).resolve_left false_ne_true
    · apply hsynced a
      rw [Phase.synced, any_cons, ha.1, ha.2, eq_false_iff.mpr hhas]
      rfl
  · exact haligned r (.tail range hr)

theorem clear_inv (h : Inv s) (hphase : s.phase = .syncing draw (range :: rest)) : Inv { s with
      dirty := range.setBits false s.dirty
      phase := .updating draw range rest } := by
  have hfresh := h.fresh
  have hsynced := h.synced
  have haligned := h.aligned
  rw [hphase] at hfresh hsynced haligned
  refine { h with fresh := fun a ha => ?_, synced := hsynced, aligned := haligned }
  by_cases hpage : page a ∈ range.pages
  · exact .inl (Sync.has_of_page_mem (haligned range mem_cons_self) hpage)
  · dsimp only at ha
    rw [Sync.setBits, if_neg hpage] at ha
    exact .inr ((hfresh a ha).resolve_left false_ne_true)

theorem upload_inv (h : Inv s) (hphase : s.phase = .updating draw range rest) :
    Inv { s.updateVertexRamBuffer range with phase := .syncing draw rest } := by
  have hnew := updateVertexRamBuffer_inv h range
  have hbuffer : ∀ a, range.has a = true →
      (s.updateVertexRamBuffer range).buffer a = (s.updateVertexRamBuffer range).vram a :=
    fun a => s.updateVertexRamBuffer_buffer
  have hfresh := hnew.fresh
  have hsynced := hnew.synced
  have haligned := hnew.aligned
  rw [updateVertexRamBuffer_phase, hphase] at hfresh hsynced haligned
  refine { hnew with fresh := fun a ha => ?_, synced := fun a ha => ?_, aligned := fun r hr => ?_ }
  · exact .inr ((hfresh a ha).elim (hbuffer a) id)
  · rw [Phase.synced, and_eq_true, not_eq_true'] at ha
    by_cases hhas : range.has a = true
    · exact hbuffer a hhas
    · apply hsynced a
      rw [Phase.synced, any_cons, ha.1, ha.2, eq_false_iff.mpr hhas]
      rfl
  · exact haligned r (.tail range hr)

theorem record_inv (h : Inv s) (hphase : s.phase = .syncing draw []) : Inv { s with
      inCommandBuffer := true
      phase := .idle
      recorded := s.recorded ++ [⟨draw, s.vram, s.vram⟩] } := by
  have hfresh := h.fresh
  have hsynced := h.synced
  rw [hphase] at hfresh hsynced
  refine
    { fresh := hfresh
      safe := fun t ht a ha => ?_
      synced := fun a ha => absurd ha false_ne_true
      aligned := fun r hr => absurd hr not_mem_nil
      started := fun _ => rfl
      staged := fun t ht => ?_
      submitted := h.submitted }
  · obtain ht | ht := mem_append.mp ht
    · exact h.safe t ht a ha
    · obtain rfl := mem_singleton.mp ht
      refine ⟨hsynced a ?_, .inr rfl⟩
      exact and_eq_true_iff.mpr ⟨ha, rfl⟩
  · obtain ht | ht := mem_append.mp ht
    · exact h.staged t ht
    · obtain rfl := mem_singleton.mp ht
      rfl

/-- No event changes what a recorded draw will read. -/
theorem step_inv {e : Event} (h : Inv s) (hok : s.stepOk e = true) (hstep : s.step e = some s') : Inv s' := by
  cases e with dsimp only [step] at hstep
  | cpuWrite bytes =>
    cases hstep
    refine write_inv h hok (fun p hp => by rw [hp]; rfl) fun _ w hw => ?_
    have hany : (bytes.any fun u => page u.1 == page w.1) = true := any_eq_true.mpr ⟨w, hw, beq_self_eq_true _⟩
    rw [hany, Bool.or_true]
  | blit bytes =>
    split at hstep
    · cases hstep
      exact write_inv h hok (fun _ hp => hp) nofun
    · cases hstep
  | download finishes bytes =>
    cases hstep
    cases finishes with
    | true => exact write_inv (finish_inv h) hok (fun _ hp => hp) nofun
    | false => exact write_inv h hok (fun _ hp => hp) nofun
  | nondraw =>
    cases hstep
    exact { h with started := fun _ => rfl }
  | finish =>
    cases hstep
    exact finish_inv h
  | flush size =>
    split at hstep
    · cases hstep
      exact updateVertexRamBuffer_inv (finish_inv h) _
    · cases hstep
  | surfaceCheck range =>
    cases hstep
    refine { h with fresh := fun a ha => h.fresh a ?_ }
    rw [stepOk, not_eq_true', any_eq_false] at hok
    by_cases hpage : page a ∈ range.pages
    · exact eq_false_iff.mpr (hok (page a) hpage)
    · dsimp only at ha
      rwa [Sync.setBits, if_neg hpage] at ha
  | bind draw =>
    split at hstep
    · next hphase =>
      cases hstep
      exact bind_inv h hphase hok
    · cases hstep
  | testAndClear =>
    split at hstep
    · next draw range rest hphase =>
      split at hstep
      · cases hstep
        exact clear_inv h hphase
      · next hclean =>
        cases hstep
        exact skip_inv h hphase (eq_false_iff.mpr hclean)
    · cases hstep
  | upload =>
    split at hstep
    · next draw range rest hphase =>
      cases hstep
      exact upload_inv h hphase
    · cases hstep
  | record =>
    split at hstep
    · next draw hphase =>
      cases hstep
      exact record_inv h hphase
    · cases hstep

end State

/-- In every run whose steps meet the condition, a submitted draw gets for every byte of its array
attributes what memory held when it was recorded. -/
theorem draws_read_recorded {size : Nat} {vram : Nat → Byte} {dirty : Nat → Bool} {es : List Event}
    {s : State} (hmeets : Meets State.step (fun s e => s.stepOk e = true) (.init size vram dirty) es)
    (hrun : run State.step (.init size vram dirty) es = some s) :
    ∀ t ∈ s.submitted, ∀ attr ∈ t.recorded.draw.attributes, ∀ a,
      t.recorded.draw.reads attr a = true → t.got attr a = t.recorded.memory a :=
  (run_invariant_of_meets Inv (fun _ _ _ => State.step_inv) (State.init_inv size vram dirty) hmeets
    hrun).submitted

def oneVertex : Draw := ⟨[⟨0, 4, 4, 1⟩], 0, 0⟩

def zeros : State := .init 0x4000 (fun _ => 0) fun _ => false

def firstBytes (s : State) : List (Byte × Byte) :=
  s.submitted.map fun t => (t.got ⟨0, 4, 4, 1⟩ 0, t.recorded.memory 0)

def drawStoreDraw : List Event :=
  [.bind oneVertex, .testAndClear, .record, .cpuWrite [(0, 1)],
    .bind oneVertex, .testAndClear, .upload, .record, .finish]

theorem draws_read_recorded_copied :
    ∃ s, run State.step zeros drawStoreDraw = some s ∧
      Meets State.step (fun s e => s.stepOk e = true) zeros drawStoreDraw ∧
      firstBytes s = [(0, 0), (1, 1)] ∧
      ∀ t ∈ s.submitted, ∀ attr ∈ t.recorded.draw.attributes, ∀ a,
        t.recorded.draw.reads attr a = true → t.got attr a = t.recorded.memory a := by
  obtain ⟨s, hrun, hbytes⟩ : ∃ s, run State.step zeros drawStoreDraw = some s ∧
      firstBytes s = [(0, 0), (1, 1)] := by decide +kernel
  have hmeets : Meets State.step (fun s e => s.stepOk e = true) zeros drawStoreDraw := by
    decide +kernel
  exact ⟨s, hrun, hmeets, hbytes, draws_read_recorded hmeets hrun⟩

/-- The same after a submission. The page is clean, so the first draw copies nothing and leaves no mark;
the copy for the second draw then changes what the first one reads. -/
theorem draw_reads_later_store :
    ∃ s, run State.step zeros ([.nondraw, .finish] ++ drawStoreDraw) = some s ∧
      firstBytes s = [(1, 0), (1, 1)] ∧
      ∀ t ∈ s.submitted, t.recorded.draw.reads ⟨0, 4, 4, 1⟩ 0 = true := by
  decide +kernel

/-- A blit sets no bit for vertices: a draw after it reads the old copy. -/
example : (run State.step zeros [.blit [(0, 1)], .bind oneVertex, .testAndClear, .record,
    .finish]).map firstBytes = some [(0, 1)] := by decide +kernel

end XogMobile.Nv2a.Vk.VertexRam
