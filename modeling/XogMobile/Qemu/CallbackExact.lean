import XogMobile.Qemu.AccessCallback

/-!
# When callbacks are called

An access is exact if each callback is called before the data is accessed, just if a byte of its range is
accessed, and with an interval that has all these bytes. An access of the CPU is exact if and only if each
of its pages is marked where it is RAM and not marked where it is not, or no range is found there. One of
a device is checked once: it is exact if and only if the interval checked finds the ranges that the pieces
of the access are in, and has those pieces. The entries of the TLB are marked as they should be once it has
been flushed after an insertion.
-/

namespace XogMobile.Qemu

open Lib Function List Option

theorem MemAccessCallback.matches_iff {cb : MemAccessCallback} {addr len : Nat} (hpos : 0 < len)
    (hfits : addr + len ≤ addrBound) :
    cb.Matches addr len ↔ ∃ b, (addr ≤ b ∧ b < addr + len) ∧ cb.Covers b := by
  have hcb := cb.fits
  have hlen := cb.pos
  have hwatch : (cb.addr + cb.len - 1) % addrBound = cb.addr + cb.len - 1 := by
    apply Nat.mod_eq_of_lt
    unfold MemAccessCallback.addr
    omega
  have haccess : (addr + len - 1) % addrBound = addr + len - 1 := by
    apply Nat.mod_eq_of_lt
    omega
  unfold Matches Covers
  constructor
  · intro h
    refine ⟨max addr cb.addr, ?_, ?_⟩ <;> omega
  · rintro ⟨b, haddr, hcovers⟩
    omega

theorem mem_checkRamaddr {callbacks : List MemAccessCallback} {ramAddr len : Nat} {isWrite : Bool}
    {i : Invocation} : i ∈ checkRamaddr callbacks ramAddr len isWrite ↔ ∃ cb ∈ callbacks, cb.Matches ramAddr len ∧
        (⟨cb, max ramAddr cb.addr - cb.base, len, isWrite⟩ : Invocation) = i := by
  simp only [checkRamaddr, List.mem_map, mem_filter, decide_eq_true_eq, and_assoc]

theorem exists_mem_checkRamaddr {callbacks : List MemAccessCallback} {ramAddr len : Nat} {isWrite : Bool}
    {cb : MemAccessCallback} (hcb : cb ∈ callbacks) :
    (∃ i ∈ checkRamaddr callbacks ramAddr len isWrite, i.callback = cb) ↔ cb.Matches ramAddr len := by
  constructor
  · rintro ⟨i, hi, rfl⟩
    obtain ⟨cb, -, hmatches, rfl⟩ := mem_checkRamaddr.mp hi
    exact hmatches
  · intro hmatches
    exact ⟨_, mem_checkRamaddr.mpr ⟨cb, hcb, hmatches, rfl⟩, rfl⟩

def AccessPart.Touches (p : AccessPart) (b : Nat) : Prop := ∃ d ∈ p.data, d.Touches b

/-- The callbacks called are those with a byte of the range in the part, and are told of these bytes. -/
structure AccessPart.Exact (callbacks : List MemAccessCallback) (p : AccessPart) : Prop where
  called : ∀ cb ∈ callbacks,
    (∃ i ∈ p.calls, i.callback = cb) ↔ ∃ b, p.Touches b ∧ cb.Covers b
  reports : ∀ i ∈ p.calls, ∀ b, p.Touches b → i.callback.Covers b → i.Reports b

/-- No callback is called after the data was accessed. Each part is exact: an access of the CPU has one for
each of its pages, one of a device has one. -/
structure Access.Exact (a : Access) : Prop where
  before : a.trace.Pairwise fun e e' => ∀ d i, ¬(e = .data d ∧ e' = .call i)
  parts : ∀ p ∈ a.parts, p.Exact a.callbacks

theorem Access.exact_iff {a : Access} : a.Exact ↔ ∀ p ∈ a.parts, p.Exact a.callbacks := by
  refine ⟨Exact.parts, fun h => ⟨?_, h⟩⟩
  refine pairwise_append.mpr ⟨pairwise_of_forall_mem_list ?_, pairwise_of_forall_mem_list ?_, ?_⟩
  · intro e he e' _ d i hboth
    simp [hboth.1] at he
  · intro e _ e' he' d i hboth
    simp [hboth.2] at he'
  · intro e he e' _ d i hboth
    simp [hboth.1] at he

namespace DataAccess

variable (cb : MemAccessCallback)

/-- A callback is for bytes of this piece. -/
def Hits : DataAccess → Prop
  | .ram addr len => cb.Matches addr len
  | .io _ => False

instance : (d : DataAccess) → Decidable (d.Hits cb)
  | .ram addr len => inferInstanceAs (Decidable (cb.Matches addr len))
  | .io _ => .isFalse id

/-- The bytes of this piece that the callback is for are in the interval it is told of. -/
def Reported (ramAddr len : Nat) : DataAccess → Prop
  | .ram addr l => max ramAddr cb.addr ≤ max addr cb.addr ∧
      min (addr + l) (cb.addr + cb.len) ≤ max ramAddr cb.addr + len
  | .io _ => True

instance (ramAddr len : Nat) : (d : DataAccess) → Decidable (d.Reported cb ramAddr len)
  | .ram _ _ => inferInstanceAs (Decidable (_ ∧ _))
  | .io _ => .isTrue trivial

def Fits : DataAccess → Prop
  | .ram addr len => 0 < len ∧ addr + len ≤ addrBound
  | .io _ => True

variable {cb : MemAccessCallback} {d : DataAccess} {ramAddr len : Nat}

theorem hits_iff (h : d.Fits) : d.Hits cb ↔ ∃ b, d.Touches b ∧ cb.Covers b := by
  cases d with
  | ram addr l => exact MemAccessCallback.matches_iff h.1 h.2
  | io l => exact iff_of_false id fun ⟨_, hb, _⟩ => hb

theorem reported_iff (h : d.Fits) (hhits : d.Hits cb) : d.Reported cb ramAddr len ↔
    ∀ b, d.Touches b → cb.Covers b → max ramAddr cb.addr ≤ b ∧ b < max ramAddr cb.addr + len := by
  cases d with
  | io l => exact hhits.elim
  | ram addr l =>
    obtain ⟨b, hb, hcovers⟩ := (hits_iff h).mp hhits
    unfold Reported Touches MemAccessCallback.Covers at *
    constructor
    · intro hreported b hb hcovers
      omega
    · intro hall
      -- the first and the last byte of the range in this piece
      have hfirst := hall (max addr cb.addr) (by omega) (by omega)
      have hlast := hall (min (addr + l) (cb.addr + cb.len) - 1) (by omega) (by omega)
      omega

end DataAccess

section

variable {data : List DataAccess}

theorem exists_hits (hfits : ∀ d ∈ data, d.Fits) (cb : MemAccessCallback) :
    (∃ d ∈ data, d.Hits cb) ↔ ∃ b, (∃ d ∈ data, d.Touches b) ∧ cb.Covers b := by
  constructor
  · rintro ⟨d, hd, hhits⟩
    obtain ⟨b, hb, hcovers⟩ := (DataAccess.hits_iff (hfits d hd)).mp hhits
    exact ⟨b, ⟨d, hd, hb⟩, hcovers⟩
  · rintro ⟨b, ⟨d, hd, hb⟩, hcovers⟩
    exact ⟨d, hd, (DataAccess.hits_iff (hfits d hd)).mpr ⟨b, hb, hcovers⟩⟩

theorem AccessPart.exact_nil_iff (callbacks : List MemAccessCallback) (hfits : ∀ d ∈ data, d.Fits) :
    AccessPart.Exact callbacks ⟨[], data⟩ ↔ ∀ cb ∈ callbacks, ¬∃ d ∈ data, d.Hits cb := by
  constructor
  · intro h cb hcb hhits
    obtain ⟨i, hi, -⟩ := (h.called cb hcb).mpr ((exists_hits hfits cb).mp hhits)
    cases hi
  · intro h
    refine ⟨fun cb hcb => iff_of_false (fun ⟨i, hi, _⟩ => nomatch hi) ?_, fun i hi => nomatch hi⟩
    exact fun hb => h cb hcb ((exists_hits hfits cb).mpr hb)

theorem AccessPart.exact_checked_iff (callbacks : List MemAccessCallback) (ramAddr len : Nat) (isWrite : Bool)
    (hfits : ∀ d ∈ data, d.Fits) :
    AccessPart.Exact callbacks ⟨checkRamaddr callbacks ramAddr len isWrite, data⟩ ↔ ∀ cb ∈ callbacks,
      (cb.Matches ramAddr len ↔ ∃ d ∈ data, d.Hits cb) ∧
        ∀ d ∈ data, d.Hits cb → d.Reported cb ramAddr len := by
  have hcalled (cb : MemAccessCallback) (hcb : cb ∈ callbacks) :
      ((∃ i ∈ checkRamaddr callbacks ramAddr len isWrite, i.callback = cb) ↔
        ∃ b, (∃ d ∈ data, d.Touches b) ∧ cb.Covers b) ↔
      (cb.Matches ramAddr len ↔ ∃ d ∈ data, d.Hits cb) := by
    rw [exists_mem_checkRamaddr hcb, exists_hits hfits]
  have hreports (cb : MemAccessCallback) (b : Nat) :
      (⟨cb, max ramAddr cb.addr - cb.base, len, isWrite⟩ : Invocation).Reports b ↔
        max ramAddr cb.addr ≤ b ∧ b < max ramAddr cb.addr + len := by
    unfold Invocation.Reports MemAccessCallback.addr
    dsimp only
    omega
  constructor
  · intro h cb hcb
    have hmatches := (hcalled cb hcb).mp (h.called cb hcb)
    refine ⟨hmatches, fun d hd hhits => (DataAccess.reported_iff (hfits d hd) hhits).mpr fun b hb hcovers => ?_⟩
    refine (hreports cb b).mp (h.reports _ ?_ b ⟨d, hd, hb⟩ hcovers)
    exact mem_checkRamaddr.mpr ⟨cb, hcb, hmatches.mpr ⟨d, hd, hhits⟩, rfl⟩
  · intro h
    refine ⟨fun cb hcb => (hcalled cb hcb).mpr (h cb hcb).1, fun i hi b hb hcovers => ?_⟩
    obtain ⟨cb, hcb, -, rfl⟩ := mem_checkRamaddr.mp hi
    obtain ⟨d, hd, hb⟩ := hb
    have hhits := (DataAccess.hits_iff (hfits d hd)).mpr ⟨b, hb, hcovers⟩
    have hreported := (h cb hcb).2 d hd hhits
    exact (hreports cb b).mpr ((DataAccess.reported_iff (hfits d hd) hhits).mp hreported b hb hcovers)

end

/-! ## Pages of the CPU -/

def Unmatched (callbacks : List MemAccessCallback) (addr len : Nat) : Prop :=
  ∀ cb ∈ callbacks, ¬cb.Matches addr len

instance (callbacks : List MemAccessCallback) (addr len : Nat) : Decidable (Unmatched callbacks addr len) :=
  inferInstanceAs (Decidable (∀ _ ∈ _, _))

section

variable {callbacks : List MemAccessCallback} {addr size : Nat} {isWrite : Bool}

theorem Iotlb.matches_page {cb : MemAccessCallback} (p : Iotlb) (hpos : 0 < size)
    (hpage : addr % pageSize + size ≤ pageSize) (h : cb.Matches (p.page + addr % pageSize) size) :
    cb.Matches p.page pageSize := by
  have haligned := p.aligned
  unfold MemAccessCallback.Matches pageSize addrBound at *
  dsimp only at h ⊢
  omega

theorem TlbEntry.access_exact_iff (e : TlbEntry) (hpos : 0 < size)
    (hpage : addr % pageSize + size ≤ pageSize) :
    (e.access callbacks addr size isWrite).Exact callbacks ↔
      e.watch = e.direct isWrite ∨ Unmatched callbacks (e.page + addr % pageSize) size := by
  unfold access
  cases hdirect : e.direct isWrite with
  | true =>
    have hram := e.fits (Bool.and_eq_true_iff.mp hdirect).1
    have hfits : ∀ d ∈ [DataAccess.ram (e.page + addr % pageSize) size], d.Fits := by
      rintro d hd
      cases mem_singleton.mp hd
      exact ⟨hpos, by omega⟩
    cases e.watch with
    | true =>
      refine iff_of_true ((AccessPart.exact_checked_iff _ _ _ _ hfits).mpr fun cb _ => ?_) (.inl rfl)
      simp [DataAccess.Hits, DataAccess.Reported]
      omega
    | false => simpa [DataAccess.Hits, Unmatched] using AccessPart.exact_nil_iff callbacks hfits
  | false =>
    have hfits : ∀ d ∈ [DataAccess.io size], d.Fits := by simp [DataAccess.Fits]
    cases e.watch with
    | true =>
      have h := AccessPart.exact_checked_iff callbacks (e.page + addr % pageSize) size isWrite hfits
      simpa [DataAccess.Hits, Unmatched] using h
    | false => simpa [DataAccess.Hits] using AccessPart.exact_nil_iff callbacks hfits

/-- An entry is marked where a callback is for its page. -/
def TlbEntry.Current (callbacks : List MemAccessCallback) (e : TlbEntry) : Prop :=
  (∃ cb ∈ callbacks, cb.Matches e.page pageSize) → e.watch = true

theorem tlbSetPage_watch {fv : FlatView} {phys : Nat} {e : TlbEntry}
    (h : tlbSetPage fv callbacks phys = some e) :
    fv.iotlb phys = some e.toIotlb ∧ e.watch = callbacks.any fun cb => cb.Matches e.page pageSize := by
  obtain ⟨p, hp, rfl⟩ := map_eq_some_iff.mp h
  exact ⟨hp, rfl⟩

theorem tlbSetPage_current {fv : FlatView} {phys : Nat} {e : TlbEntry}
    (h : tlbSetPage fv callbacks phys = some e) : e.Current callbacks := by
  rintro ⟨cb, hcb, hmatches⟩
  rw [(tlbSetPage_watch h).2]
  exact any_eq_true.mpr ⟨cb, hcb, decide_eq_true hmatches⟩

/-- The mark of an entry that is filled for the access is right for every access to RAM. -/
theorem TlbEntry.Current.watch_or_unmatched {e : TlbEntry} (h : e.Current callbacks) (hpos : 0 < size)
    (hpage : addr % pageSize + size ≤ pageSize) :
    e.watch = true ∨ Unmatched callbacks (e.page + addr % pageSize) size := by
  by_cases hwatch : e.watch = true
  · exact .inl hwatch
  · exact .inr fun cb hcb hmatches => hwatch (h ⟨cb, hcb, e.matches_page hpos hpage hmatches⟩)

end

/-! ## The pieces of a device's access -/

namespace FlatView

variable {fv : FlatView} {isWrite : Bool} {addr len : Nat}

theorem translate_ram (hpos : 0 < len) (hdirect : (fv.translate addr len).region.isDirect isWrite) :
    0 < (fv.translate addr len).len ∧ (fv.translate addr len).len ≤ len ∧
      (fv.translate addr len).region.getRamAddr + (fv.translate addr len).addr +
        (fv.translate addr len).len ≤ addrBound := by
  unfold translate at hdirect ⊢
  cases hs : fv.lookup addr with rw [hs] at hdirect
  | none => cases hdirect
  | some s =>
    have hin := find?_some hs
    simp only [decide_eq_true_eq] at hin
    have hram : s.region.ramBlock.isSome = true := (Bool.and_eq_true_iff.mp hdirect).1
    obtain ⟨block, hblock⟩ := isSome_iff_exists.mp hram
    have hfits := s.fits block hblock
    simp only [hblock, isSome_some, if_true, MemoryRegion.getRamAddr, getD_some]
    omega

variable {fuel : Nat} {t : Translated}

theorem continueLoop_direct (hdirect : t.region.isDirect isWrite) : fv.continueLoop isWrite (fuel + 1) addr len t =
      .ram (t.region.getRamAddr + t.addr) t.len :: if len - t.len = 0 then []
        else fv.continueLoop isWrite fuel (addr + t.len) (len - t.len) (fv.translate (addr + t.len) (len - t.len)) := by
  rw [continueLoop]
  simp only [hdirect, if_true]
  split <;> rfl

theorem continueLoop_io (hio : ¬t.region.isDirect isWrite) :
    let l := t.region.accessSize t.len t.addr
    fv.continueLoop isWrite (fuel + 1) addr len t = .io l :: if len - l = 0 then []
        else fv.continueLoop isWrite fuel (addr + l) (len - l) (fv.translate (addr + l) (len - l)) := by
  rw [continueLoop]
  simp only [hio, if_false, Bool.false_eq_true]
  split <;> rfl

theorem continueLoop_fits (fuel : Nat) (hpos : 0 < len) {a l : Nat}
    (h : .ram a l ∈ fv.continueLoop isWrite fuel addr len (fv.translate addr len)) :
    0 < l ∧ a + l ≤ addrBound := by
  induction fuel generalizing addr len with
  | zero => cases h
  | succ fuel ih =>
    by_cases hdirect : (fv.translate addr len).region.isDirect isWrite
    · rw [continueLoop_direct hdirect] at h
      obtain hthis | hrest := mem_cons.mp h
      · have hram := translate_ram hpos hdirect
        cases hthis
        omega
      · split at hrest
        · cases hrest
        · exact ih (by omega) hrest
    · rw [continueLoop_io hdirect] at h
      obtain hthis | hrest := mem_cons.mp h
      · cases hthis
      · split at hrest
        · cases hrest
        · exact ih (by omega) hrest

/-- A callback is found for the access just if it is for a piece of it, and is told of all these pieces. An
access that is inlined is not checked. -/
def DeviceOk (fv : FlatView) (callbacks : List MemAccessCallback) (addr len : Nat)
    (isWrite constant : Bool) : Prop :=
  let data := fv.continueLoop isWrite len addr len (fv.translate addr len)
  ∀ cb ∈ callbacks,
    if fv.Inlined addr len isWrite constant then ¬∃ d ∈ data, d.Hits cb
    else (cb.Matches (fv.checkedAddr addr len) len ↔ ∃ d ∈ data, d.Hits cb) ∧
      ∀ d ∈ data, d.Hits cb → d.Reported cb (fv.checkedAddr addr len) len

instance (callbacks : List MemAccessCallback) (addr len : Nat) (isWrite constant : Bool) :
    Decidable (fv.DeviceOk callbacks addr len isWrite constant) :=
  inferInstanceAs (Decidable (∀ _ ∈ _, ite _ _ _))

theorem deviceAccess_exact_iff {callbacks : List MemAccessCallback} {constant : Bool} (hpos : 0 < len) :
    (fv.deviceAccess callbacks addr len isWrite constant).Exact callbacks ↔
      fv.DeviceOk callbacks addr len isWrite constant := by
  have hfits : ∀ d ∈ fv.continueLoop isWrite len addr len (fv.translate addr len), d.Fits := by
    intro d hd
    cases d with
    | ram a l => exact continueLoop_fits len hpos hd
    | io l => trivial
  unfold deviceAccess DeviceOk
  by_cases hinlined : fv.Inlined addr len isWrite constant
  · simp only [if_pos hinlined]
    exact AccessPart.exact_nil_iff _ hfits
  · simp only [if_neg hinlined]
    exact AccessPart.exact_checked_iff _ _ _ _ hfits

end FlatView

namespace MemState

variable {fv : FlatView} {s s' : MemState} {page phys phys' addr size : Nat} {isWrite : Bool} {e : TlbEntry}

/-- A page of an access of the CPU. If it has an entry in the TLB, that is marked if and only if the access
goes to RAM; if not, the access goes to RAM. Or no range is found for it. -/
def PageOk (fv : FlatView) (s : MemState) (page phys addr size : Nat) (isWrite : Bool) : Prop :=
  match s.tlb page with
  | some e => e.watch = e.direct isWrite ∨ Unmatched s.callbacks (e.page + addr % pageSize) size
  | none => ∀ p ∈ fv.iotlb phys,
      p.direct isWrite = true ∨ Unmatched s.callbacks (p.page + addr % pageSize) size

instance : Decidable (s.PageOk fv page phys addr size isWrite) := by
  unfold PageOk
  split <;> infer_instance

/-- The pages of a CPU access are checked as they should be. -/
def CpuOk (fv : FlatView) (s : MemState) (addr size : Nat) (isWrite : Bool) (phys phys' : Nat) : Prop :=
  if addr % pageSize + size ≤ pageSize then s.PageOk fv (addr / pageSize) phys addr size isWrite
  else s.PageOk fv (addr / pageSize) phys addr (pageSize - addr % pageSize) isWrite ∧
    s.PageOk fv (nextPage addr) phys' 0 (size - (pageSize - addr % pageSize)) isWrite

/-- When an access is exact, by what it is and the state before it. -/
def stepOk (fv : FlatView) (s : MemState) : MemEvent → Prop
  | .cpu addr size isWrite phys phys' => s.CpuOk fv addr size isWrite phys phys'
  | .device addr len isWrite constant => fv.DeviceOk s.callbacks addr len isWrite constant
  | _ => True

instance (e : MemEvent) : Decidable (s.stepOk fv e) :=
  match e with
  | .cpu .. => inferInstanceAs (Decidable (ite _ _ _))
  | .device .. => inferInstanceAs (Decidable (FlatView.DeviceOk ..))
  | .insert _ | .remove _ | .flush | .evict _ => .isTrue trivial

theorem page_exact_iff (he : s.entry fv page phys = some e) (hpos : 0 < size)
    (hpage : addr % pageSize + size ≤ pageSize) :
    (e.access s.callbacks addr size isWrite).Exact s.callbacks ↔ s.PageOk fv page phys addr size isWrite := by
  rw [e.access_exact_iff hpos hpage]
  unfold PageOk
  unfold entry at he
  cases htlb : s.tlb page with rw [htlb] at he
  | some cached =>
    cases he
    rfl
  | none =>
    have hright := (tlbSetPage_current he).watch_or_unmatched hpos hpage
    simp only [(tlbSetPage_watch he).1, mem_some_iff, forall_eq']
    -- a page that was just filled is marked, or no range is found
    constructor
    · rintro (hmark | hnone)
      · exact hright.imp_left fun hwatch => hmark ▸ hwatch
      · exact .inr hnone
    · rintro (hdirect | hnone)
      · exact hright.imp_left fun hwatch => hwatch.trans hdirect.symm
      · exact .inr hnone

theorem entry_setEntry (hne : page ≠ addr) : (s.setEntry addr e).entry fv page phys = s.entry fv page phys := by
  unfold entry setEntry
  dsimp only
  rw [update_of_ne hne]

theorem nextPage_ne (addr : Nat) : nextPage addr ≠ addr / pageSize := by
  unfold nextPage
  omega

theorem accessed_exact_iff {parts : List AccessPart} :
    (∀ a, (s.accessed parts).accesses = s.accesses ++ [a] → a.Exact) ↔ ∀ p ∈ parts, p.Exact s.callbacks := by
  have hlast : (s.accessed parts).accesses = s.accesses ++ [⟨s.callbacks, parts⟩] := rfl
  simp only [hlast, append_cancel_left_eq, cons.injEq, and_true, forall_eq', Access.exact_iff]

theorem cpuAccess_exact_iff (h : s.cpuAccess fv addr size isWrite phys phys' = some s') :
    (∀ a, s'.accesses = s.accesses ++ [a] → a.Exact) ↔ s.CpuOk fv addr size isWrite phys phys' := by
  unfold cpuAccess at h
  unfold CpuOk
  obtain ⟨hsize, h⟩ := ite_none_right_eq_some.mp h
  obtain ⟨e, he, h⟩ := bind_eq_some_iff.mp h
  have hoffset : addr % pageSize < pageSize := Nat.mod_lt _ (by decide)
  split at h
  · next hpage =>
    cases h
    rw [if_pos hpage, ← page_exact_iff he hsize.1 hpage]
    exact accessed_exact_iff.trans forall_mem_singleton
  · next hpage =>
    obtain ⟨e', he', rfl⟩ := map_eq_some_iff.mp h
    rw [entry_setEntry (nextPage_ne addr)] at he'
    have hzero : 0 % pageSize = 0 := Nat.zero_mod _
    rw [if_neg hpage, ← page_exact_iff he (by omega) (by omega), ← page_exact_iff he' (by omega) (by omega)]
    refine accessed_exact_iff.trans ?_
    rw [forall_mem_cons, forall_mem_singleton]
    rfl

theorem step_exact_iff {e : MemEvent} (h : s.step fv e = some s') :
    (∀ a, s'.accesses = s.accesses ++ [a] → a.Exact) ↔ s.stepOk fv e := by
  have hnone (h : s'.accesses = s.accesses) (a : Access) (ha : s'.accesses = s.accesses ++ [a]) : a.Exact := by
    rw [h] at ha
    exact absurd (congrArg length ha) (by simp)
  cases e with
  | insert | flush | evict =>
    cases h
    exact iff_of_true (hnone rfl) trivial
  | remove cb =>
    obtain ⟨-, h⟩ := ite_none_right_eq_some.mp h
    cases h
    exact iff_of_true (hnone rfl) trivial
  | cpu addr size isWrite phys phys' => exact cpuAccess_exact_iff h
  | device addr len isWrite constant =>
    obtain ⟨hpos, h⟩ := ite_none_right_eq_some.mp h
    cases h
    refine accessed_exact_iff.trans (forall_mem_singleton.trans ?_)
    exact FlatView.deviceAccess_exact_iff hpos

/-- All entries are marked as they should be, once the TLB has been flushed. -/
def Marked (s : MemState) : Prop :=
  s.unflushed = false → ∀ page e, s.tlb page = some e → e.Current s.callbacks

theorem Marked.entry (h : s.Marked) (hflushed : s.unflushed = false)
    (he : s.entry fv page phys = some e) : e.Current s.callbacks := by
  unfold MemState.entry at he
  cases htlb : s.tlb page with rw [htlb] at he
  | some cached =>
    cases he
    exact h hflushed page e htlb
  | none => exact tlbSetPage_current he

theorem Marked.setEntry (h : s.Marked) (he : s.unflushed = false → e.Current s.callbacks) :
    (s.setEntry page e).Marked := by
  intro hflushed page' e' he'
  change update s.tlb page (some e) page' = some e' at he'
  by_cases hpage : page' = page
  · subst hpage
    rw [update_self] at he'
    cases he'
    exact he hflushed
  · rw [update_of_ne hpage] at he'
    exact h hflushed page' e' he'

theorem Marked.cpuAccess (h : s.Marked) (hstep : s.cpuAccess fv addr size isWrite phys phys' = some s') :
    s'.Marked := by
  unfold MemState.cpuAccess at hstep
  obtain ⟨-, hstep⟩ := ite_none_right_eq_some.mp hstep
  obtain ⟨e, he, hstep⟩ := bind_eq_some_iff.mp hstep
  have hset : (s.setEntry (addr / pageSize) e).Marked := h.setEntry fun hflushed => h.entry hflushed he
  split at hstep
  · cases hstep
    exact hset
  · obtain ⟨e', he', rfl⟩ := map_eq_some_iff.mp hstep
    exact hset.setEntry fun hflushed => hset.entry hflushed he'

theorem Marked.step (h : s.Marked) {e : MemEvent} (hstep : s.step fv e = some s') : s'.Marked := by
  cases e with
  | insert | flush =>
    cases hstep
    exact nofun
  | remove cb =>
    obtain ⟨-, hstep⟩ := ite_none_right_eq_some.mp hstep
    cases hstep
    -- a page with a range is still marked when fewer are left
    rintro hflushed page e he ⟨cb', hcb', hmatches⟩
    exact h hflushed page e he ⟨cb', mem_of_mem_erase hcb', hmatches⟩
  | evict page =>
    cases hstep
    intro hflushed page' e he
    change update s.tlb page none page' = some e at he
    by_cases hpage : page' = page
    · rw [hpage, update_self] at he
      cases he
    · rw [update_of_ne hpage] at he
      exact h hflushed page' e he
  | cpu addr size isWrite phys phys' => exact h.cpuAccess hstep
  | device addr len isWrite constant =>
    obtain ⟨-, hstep⟩ := ite_none_right_eq_some.mp hstep
    cases hstep
    exact h

def initial : MemState := ⟨[], fun _ => none, false, []⟩

def twoBlocks : FlatView where
  sections := [
    { base := 0, size := 0x1000, region := ⟨some 0x5000, false, 0, false⟩, offset := 0
      fits := by rintro _ ⟨⟩; decide },
    { base := 0x1000, size := 0x1000, region := ⟨some 0x9000, false, 0, false⟩, offset := 0
      fits := by rintro _ ⟨⟩; decide },
    { base := 0x2000, size := 0x1000, region := ⟨none, false, 4, false⟩, offset := 0x5000
      fits := nofun }]

def firstPage : MemAccessCallback := ⟨0x5000, 0, 0x1000, by decide, by decide⟩

def secondPage : MemAccessCallback := ⟨0x9000, 0, 0x1000, by decide, by decide⟩

def watchBoth : List MemEvent := [.insert firstPage, .insert secondPage, .flush]

def ramEvents : List MemEvent :=
  [.cpu 0x400FFC 8 true 0 1, .device 0x10 0x20 true false, .cpu 0x400010 4 false 0 0]

def missedEvents : List MemEvent :=
  [.device 0xFF0 0x20 true false, .cpu 0x402010 4 true 2 0, .device 0x10 4 false true]

end MemState

end XogMobile.Qemu
