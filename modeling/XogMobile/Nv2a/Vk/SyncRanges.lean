import XogMobile.Nv2a.Vk.VertexRam

/-!
# The ranges a draw synchronizes

`sync_vertex_ram_buffer` aligns the ranges of the attributes to pages, sorts them by their addresses and
merges those that overlap or touch. Addresses are 64 bits wide. What a draw asks for is far below the
end of that range, so the arithmetic does not wrap around and the ranges are those of the model over
natural numbers. The order of ranges with one address is up to `qsort`: the result is right for every
sorted permutation.
-/

namespace XogMobile.Nv2a.Vk.VertexRam

open List BitVec Nat

section Merging

variable {p : Sync} {ts : List Sync}

theorem le_addr_of_mem_mergeSyncs (hsorted : (p :: ts).Pairwise fun r t => r.addr ≤ t.addr) :
    ∀ r ∈ mergeSyncs p ts, p.addr ≤ r.addr := by
  induction ts generalizing p with
  | nil =>
    intro r hr
    rw [mergeSyncs, mem_singleton] at hr
    rw [hr]
  | cons t ts ih =>
    rw [pairwise_cons, pairwise_cons] at hsorted
    obtain ⟨hp, ht, hts⟩ := hsorted
    rw [mergeSyncs]
    split
    · exact ih (pairwise_cons.mpr ⟨fun u hu => hp u (.tail t hu), hts⟩)
    · intro r hr
      obtain rfl | hr := mem_cons.mp hr
      · exact le_refl _
      · exact (hp t mem_cons_self).trans (ih (pairwise_cons.mpr ⟨ht, hts⟩) r hr)

theorem mergeSyncs_gaps (hsorted : (p :: ts).Pairwise fun r t => r.addr ≤ t.addr) :
    (mergeSyncs p ts).Pairwise fun r t => r.addr + r.size < t.addr := by
  induction ts generalizing p with
  | nil => exact pairwise_singleton _ _
  | cons t ts ih =>
    rw [pairwise_cons, pairwise_cons] at hsorted
    obtain ⟨hp, ht, hts⟩ := hsorted
    rw [mergeSyncs]
    split
    · exact ih (pairwise_cons.mpr ⟨fun u hu => hp u (.tail t hu), hts⟩)
    · next hgap =>
      have hrest := pairwise_cons.mpr ⟨ht, hts⟩
      refine pairwise_cons.mpr ⟨fun r hr => ?_, ih hrest⟩
      exact lt_of_lt_of_le (Nat.lt_of_not_le hgap) (le_addr_of_mem_mergeSyncs hrest r hr)

theorem has_of_mem_mergeSyncs {a : Nat} {r : Sync} (hr : r ∈ mergeSyncs p ts)
    (ha : r.has a = true) : ∃ t ∈ p :: ts, t.has a = true := by
  induction ts generalizing p with
  | nil => exact ⟨r, hr, ha⟩
  | cons t ts ih =>
    rw [mergeSyncs] at hr
    split at hr
    · next hle =>
      obtain ⟨u, hu, hua⟩ := ih hr
      obtain rfl | hu := mem_cons.mp hu
      · rw [Sync.has_iff] at hua
        -- what is behind the first range is in the second, which starts before that
        by_cases hin : a < p.addr + p.size
        · exact ⟨p, mem_cons_self, Sync.has_iff.mpr ⟨hua.1, hin⟩⟩
        · refine ⟨t, .tail p mem_cons_self, Sync.has_iff.mpr ?_⟩
          dsimp only at hua
          omega
      · exact ⟨u, .tail p (.tail t hu), hua⟩
    · obtain rfl | hr := mem_cons.mp hr
      · exact ⟨r, mem_cons_self, ha⟩
      · obtain ⟨u, hu, hua⟩ := ih hr
        exact ⟨u, .tail p hu, hua⟩

theorem length_mergeSyncs_le (p : Sync) (ts : List Sync) : (mergeSyncs p ts).length ≤ ts.length + 1 := by
  induction ts generalizing p with
  | nil => exact le_refl 1
  | cons t ts ih =>
    rw [mergeSyncs]
    split
    · exact (ih _).trans (le_succ _)
    · exact succ_le_succ (ih t)

end Merging

structure Requirement where
  (addr size : Hwaddr)
  deriving DecidableEq

namespace Requirement

def pageMask : Hwaddr := ~~~0xFFF

variable (r : Requirement)

/-- The page of the start, up to the end rounded up to a page. -/
def align : Requirement :=
  let start := r.addr &&& pageMask
  let finish := (r.addr + r.size + 0xFFF) &&& pageMask
  ⟨start, finish - start⟩

/-- The loop that merges: `p` is the last range of the merged list. -/
def merge : Requirement → List Requirement → List Requirement
  | p, [] => [p]
  | p, t :: ts =>
    if t.addr ≤ p.addr + p.size then
      let pEnd := p.addr + p.size
      let tEnd := t.addr + t.size
      let newEnd := if tEnd < pEnd then pEnd else tEnd
      merge ⟨p.addr, newEnd - p.addr⟩ ts
    else p :: merge t ts

def merged : List Requirement → List Requirement
  | [] => []
  | r :: rs => merge r rs

def Has (a : Nat) : Prop := r.addr.toNat ≤ a ∧ a < r.addr.toNat + r.size.toNat

/-- The end, rounded up to a page, is a 64-bit number. -/
def Fits : Prop := r.addr.toNat + r.size.toNat + 0xFFF < 2 ^ 64

def sync : Sync := ⟨r.addr.toNat, r.size.toNat⟩

theorem has_sync {r : Requirement} {a : Nat} : r.sync.has a = true ↔ r.Has a := Sync.has_iff

/-- `pgraph_vk_bind_vertex_attributes` calls `update_memory_buffer` with this range. `address` is that
of the DMA object. -/
def ofAttribute (address offset : Hwaddr) (stride minElement maxElement : Word) : Requirement :=
  let numElements := maxElement - minElement + 1
  ⟨address + offset + minElement.setWidth 64 * stride.setWidth 64,
    numElements.setWidth 64 * stride.setWidth 64⟩

theorem toNat_and_pageMask (a : Hwaddr) : (a &&& pageMask).toNat = a.toNat / 4096 * 4096 := by
  have hshift : a &&& pageMask = (a >>> 12) <<< 12 := by
    apply eq_of_getLsbD_eq
    intro i hi
    have hlow : (0xFFF#64).getLsbD i = decide (i < 12) := by
      rw [getLsbD_ofNat, show 0xFFF = 2 ^ 12 - 1 from rfl, testBit_two_pow_sub_one]
      simp [hi]
    have hmask : pageMask.getLsbD i = !decide (i < 12) := by
      change (~~~0xFFF#64).getLsbD i = _
      rw [getLsbD_not, hlow]
      simp [hi]
    rw [getLsbD_and, hmask, getLsbD_shiftLeft]
    by_cases hlt : i < 12
    · simp [hlt]
    · simp [hlt, hi, show 12 + (i - 12) = i by omega]
  rw [hshift, toNat_shiftLeft, toNat_ushiftRight, shiftRight_eq_div_pow, Nat.shiftLeft_eq, mod_eq_of_lt (by omega)]

variable {r : Requirement}

def Ends (r : Requirement) : Prop := r.addr.toNat + r.size.toNat < 2 ^ 64

theorem Fits.ends (h : r.Fits) : r.Ends := lt_of_le_of_lt (le_add_right _ 0xFFF) h

theorem toNat_end (h : r.Ends) : (r.addr + r.size).toNat = r.addr.toNat + r.size.toNat := by
  rw [toNat_add, mod_eq_of_lt h]

theorem sync_align (h : r.Fits) : r.align.sync = r.sync.align := by
  have hend : (r.addr + r.size + 0xFFF).toNat = r.addr.toNat + r.size.toNat + 4095 := by
    rw [toNat_add, toNat_end h.ends]
    exact mod_eq_of_lt h
  have hstart : (r.addr &&& pageMask).toNat = r.addr.toNat / 4096 * 4096 := toNat_and_pageMask _
  have hfinish : ((r.addr + r.size + 0xFFF) &&& pageMask).toNat
      = (r.addr.toNat + r.size.toNat + 4095) / 4096 * 4096 := by
    rw [toNat_and_pageMask, hend]
  have hle : r.addr &&& pageMask ≤ (r.addr + r.size + 0xFFF) &&& pageMask := by
    rw [le_def, hfinish]
    omega
  rw [sync, align]
  rw [toNat_sub_of_le hle, hstart, hfinish]
  rfl

theorem Fits.ends_align (h : r.Fits) : r.align.Ends := by
  have halign := sync_align h
  have haddr := congrArg Sync.addr halign
  have hsize := congrArg Sync.size halign
  rw [Sync.align] at haddr hsize
  rw [Fits] at h
  rw [Ends, show r.align.addr.toNat = _ from haddr, show r.align.size.toNat = _ from hsize]
  simp only [sync, page, roundUp]
  omega

theorem sync_merge_two {p t : Requirement} (hp : p.Ends) (ht : t.Ends) :
    let newEnd := if t.addr + t.size < p.addr + p.size then p.addr + p.size else t.addr + t.size
    p.addr.toNat ≤ newEnd.toNat ∧ newEnd.toNat = max (p.addr.toNat + p.size.toNat) (t.addr.toNat + t.size.toNat) := by
  intro newEnd
  have hnew : newEnd.toNat = max (p.addr.toNat + p.size.toNat) (t.addr.toNat + t.size.toNat) := by
    have hpend := toNat_end hp
    have htend := toNat_end ht
    change (if _ then _ else _ : Hwaddr).toNat = _
    split
    · next hlt =>
      rw [lt_def, htend] at hlt
      omega
    · next hle =>
      rw [lt_def, htend] at hle
      omega
  exact ⟨by omega, hnew⟩

theorem map_sync_merge {p : Requirement} {ts : List Requirement} (h : ∀ r ∈ p :: ts, r.Ends) :
    (merge p ts).map sync = mergeSyncs p.sync (ts.map sync) := by
  induction ts generalizing p with
  | nil => rfl
  | cons t ts ih =>
    have hp := h p mem_cons_self
    have ht := h t (.tail p mem_cons_self)
    have hcond : t.addr ≤ p.addr + p.size ↔ t.sync.addr ≤ p.sync.addr + p.sync.size := by
      rw [le_def, toNat_end hp]
      rfl
    rw [merge, map_cons, mergeSyncs]
    by_cases hle : t.addr ≤ p.addr + p.size
    · rw [if_pos hle, if_pos (hcond.mp hle)]
      obtain ⟨hstart, hnew⟩ := sync_merge_two hp ht
      dsimp only at hstart hnew ⊢
      generalize (if t.addr + t.size < p.addr + p.size then p.addr + p.size
        else t.addr + t.size) = newEnd at hstart hnew
      have hsize : (newEnd - p.addr).toNat = newEnd.toNat - p.addr.toNat := toNat_sub_of_le hstart
      rw [ih]
      · simp only [sync, hsize, hnew]
      · refine forall_mem_cons.mpr ⟨?_, fun r hr => h r (.tail p (.tail t hr))⟩
        change p.addr.toNat + (newEnd - p.addr).toNat < 2 ^ 64
        omega
    · rw [if_neg hle, if_neg (mt hcond.mpr hle), map_cons, ih fun r hr => h r (.tail p hr)]

theorem exists_has_map {rs : List Requirement} {a : Nat} : (∃ t ∈ rs.map sync, t.has a = true) ↔ ∃ r ∈ rs, r.Has a := by
  simp only [mem_map, exists_exists_and_eq_and, has_sync]

/-- What the merged ranges are to the ranges that were asked for: sorted, aligned to pages, apart from each
other, with the bytes of the aligned ranges and no others, and not more of them. -/
structure Merged (syncs out : List Requirement) : Prop where
  sorted : out.Pairwise fun r t => r.addr < t.addr
  aligned : ∀ r ∈ out, r.addr.toNat % 4096 = 0 ∧ r.size.toNat % 4096 = 0
  apart : out.Pairwise fun r t => r.addr.toNat + r.size.toNat < t.addr.toNat
  bytes : ∀ a, (∃ r ∈ out, r.Has a) ↔ ∃ r ∈ syncs, r.align.Has a
  length : out.length ≤ syncs.length

theorem merged_of_fits {syncs sorted : List Requirement} (hfits : ∀ r ∈ syncs, r.Fits)
    (hperm : sorted.Perm (syncs.map align)) (hsorted : sorted.Pairwise fun r t => r.addr ≤ t.addr) :
    Merged syncs (merged sorted) := by
  have hof (r : Requirement) (hr : r ∈ sorted) : ∃ u ∈ syncs, u.align = r :=
    mem_map.mp (hperm.mem_iff.mp hr)
  have hinput (a : Nat) : (∃ r ∈ sorted, r.Has a) ↔ ∃ r ∈ syncs, r.align.Has a := by
    simp only [hperm.mem_iff, mem_map, exists_exists_and_eq_and]
  have hlength : sorted.length = syncs.length := hperm.length_eq.trans (length_map _)
  cases sorted with
  | nil => exact ⟨.nil, by rintro r ⟨⟩, .nil, hinput, zero_le _⟩
  | cons p ts =>
    have hends : ∀ r ∈ p :: ts, r.Ends := by
      intro r hr
      obtain ⟨u, hu, rfl⟩ := hof r hr
      exact (hfits u hu).ends_align
    have haligned : ∀ t ∈ p.sync :: ts.map sync, t.Aligned := by
      rw [← map_cons, forall_mem_map]
      intro r hr
      obtain ⟨u, hu, rfl⟩ := hof r hr
      rw [sync_align (hfits u hu)]
      exact u.sync.align_aligned
    have hsorted' : (p.sync :: ts.map sync).Pairwise fun r t => r.addr ≤ t.addr := by
      rw [← map_cons, pairwise_map]
      exact hsorted
    have hmerge := map_sync_merge hends
    have hgaps : (merge p ts).Pairwise fun r t => r.addr.toNat + r.size.toNat < t.addr.toNat := by
      have h := mergeSyncs_gaps hsorted'
      rw [← hmerge] at h
      exact pairwise_map.mp h
    refine ⟨hgaps.imp ?_, ?_, hgaps, ?_, ?_⟩
    · intro r t hgap
      exact lt_def.mpr (lt_of_le_of_lt (le_add_right _ _) hgap)
    · intro r hr
      have h := mergeSyncs_aligned haligned r.sync
      rw [← hmerge] at h
      exact h (mem_map_of_mem hr)
    · intro a
      rw [← hinput, ← exists_has_map, ← exists_has_map, merged, hmerge]
      constructor
      · rintro ⟨t, ht, hta⟩
        exact has_of_mem_mergeSyncs ht hta
      · exact has_mergeSyncs hsorted'
    · have h := length_mergeSyncs_le p.sync (ts.map sync)
      rw [← hmerge, length_map, length_map] at h
      rw [← hlength]
      exact h

/-- The merged ranges are sorted, aligned to pages, and apart from each other, they hold the bytes of the
aligned ranges and no others, and there are not more of them. `sorted` is what `qsort` makes of the
aligned ranges. -/
theorem merged_syncs_correct (syncs sorted : List Requirement) (hfits : ∀ r ∈ syncs, r.Fits)
    (hperm : sorted.Perm (syncs.map align))
    (hsorted : sorted.Pairwise fun r t => r.addr ≤ t.addr) :
    (merged sorted).Pairwise (fun r t => r.addr < t.addr) ∧
    (∀ r ∈ merged sorted, r.addr.toNat % 4096 = 0 ∧ r.size.toNat % 4096 = 0) ∧
    (merged sorted).Pairwise (fun r t => r.addr.toNat + r.size.toNat < t.addr.toNat) ∧
    (∀ a, (∃ r ∈ merged sorted, r.Has a) ↔ ∃ r ∈ syncs, r.align.Has a) ∧
    (merged sorted).length ≤ syncs.length := by
  have h := merged_of_fits hfits hperm hsorted
  exact ⟨h.sorted, h.aligned, h.apart, h.bytes, h.length⟩

theorem merged_syncs_correct_three :
    let syncs : List Requirement := [⟨0x5800, 0x10⟩, ⟨0x1010, 0x1000⟩, ⟨0x2800, 0x900⟩]
    let sorted : List Requirement := [⟨0x1000, 0x2000⟩, ⟨0x2000, 0x2000⟩, ⟨0x5000, 0x1000⟩]
    merged sorted = [⟨0x1000, 0x3000⟩, ⟨0x5000, 0x1000⟩] ∧
    (merged sorted).Pairwise (fun r t => r.addr < t.addr) ∧
    (∀ r ∈ merged sorted, r.addr.toNat % 4096 = 0 ∧ r.size.toNat % 4096 = 0) ∧
    (merged sorted).Pairwise (fun r t => r.addr.toNat + r.size.toNat < t.addr.toNat) ∧
    (∀ a, (∃ r ∈ merged sorted, r.Has a) ↔ ∃ r ∈ syncs, r.align.Has a) ∧
    (merged sorted).length ≤ syncs.length := by
  intro syncs sorted
  refine ⟨by decide, merged_syncs_correct syncs sorted ?_ ?_ ?_⟩
  · intro r hr
    simp only [syncs, mem_cons, not_mem_nil, or_false] at hr
    rcases hr with rfl | rfl | rfl <;> simp [Fits]
  · have halign : syncs.map align = [⟨0x5000, 0x1000⟩, ⟨0x1000, 0x2000⟩, ⟨0x2000, 0x2000⟩] := by
      decide
    decide
  · decide

theorem ofAttribute_fits {address offset : Hwaddr} {stride minElement maxElement : Word}
    (haddress : address.toNat < 2 ^ 27) (hoffset : offset.toNat < 2 ^ 31)
    (hstride : stride.toNat < 2 ^ 24) :
    (ofAttribute address offset stride minElement maxElement).Fits := by
  have hproduct (n : Word) : (n.setWidth 64 * stride.setWidth 64).toNat ≤ 2 ^ 56 := by
    have hle : n.toNat * stride.toNat ≤ 2 ^ 32 * 2 ^ 24 := Nat.mul_le_mul (by omega) (by omega)
    exact (mod_le _ _).trans hle
  have hmin := hproduct minElement
  have hcount := hproduct (maxElement - minElement + 1)
  have hsum : (address + offset + minElement.setWidth 64 * stride.setWidth 64).toNat
      ≤ 2 ^ 27 + 2 ^ 31 + 2 ^ 56 := by
    rw [toNat_add, toNat_add]
    omega
  rw [Fits, ofAttribute]
  dsimp only
  omega

/-- A vertex attribute in memory as the methods can set it, and the elements a draw wants of it. -/
structure Attribute where
  (address offset : Hwaddr)
  (stride minElement maxElement : Word)
  address_lt : address.toNat < 2 ^ 27
  offset_lt : offset.toNat < 2 ^ 31
  stride_lt : stride.toNat < 2 ^ 24

def Attribute.requirement (a : Attribute) : Requirement :=
  ofAttribute a.address a.offset a.stride a.minElement a.maxElement

/-- What a draw asks for fits, so its ranges are merged as they should be. -/
theorem merged_attributes (attributes : List Attribute) {sorted : List Requirement}
    (hperm : sorted.Perm ((attributes.map Attribute.requirement).map align))
    (hsorted : sorted.Pairwise fun r t => r.addr ≤ t.addr) :
    Merged (attributes.map Attribute.requirement) (merged sorted) := by
  refine merged_of_fits (forall_mem_map.mpr fun a _ => ?_) hperm hsorted
  exact ofAttribute_fits a.address_lt a.offset_lt a.stride_lt

end Requirement

end XogMobile.Nv2a.Vk.VertexRam
