import XogMobile.Nv2a.Vk.CpuAccess

/-!
# Loads and stores of the CPU

The image of a surface that was drawn to is up to date, and VRAM is for all other bytes. While the CPU is
in an access, the surfaces it overlaps have nothing to download, and are marked for an upload if the access
is a store, or their callbacks are still to be called. This is kept as long as the callback of a surface has
been inserted before the CPU gets at its bytes, no surface is uploaded or drawn to between its callback and
the access, and no surface is drawn to that waits for an upload. Otherwise stores are lost.
-/

namespace XogMobile.Nv2a.Vk.Coherence

open Lib List Bool

variable {x x' : State}

/-- The callback for the access has done its work on the surface. -/
def Settled (a : CpuAccess) (s : Surface) : Prop :=
  s.drawDirty = false ∧ (a.isWrite = true → s.uploadPending = true)

def Checked (surfaces : List Surface) : Cpu → Prop
  | .idle => True
  | .checking todo a => ∀ s ∈ surfaces, s.Overlaps a.addr a.len → Settled a s ∨ s.callback ∈ todo
  | .waiting todo a => ∀ s ∈ surfaces, s.Overlaps a.addr a.len →
      Settled a s ∨ s.callback ∈ todo ∨
        s.downloadPending = true ∧ (a.isWrite = true → s.uploadPending = true)

def Disjoint (surfaces : List Surface) : Prop :=
  ∀ s ∈ surfaces, ∀ t ∈ surfaces, s ≠ t → ∀ b, s.pixel b = true → t.pixel b = false

/-- The newest bytes are in VRAM or in a surface that says so. -/
structure Inv (x : State) : Prop where
  vram : ∀ b, (∀ s ∈ x.surfaces, s.drawDirty = true → s.pixel b = false) → x.vram b = x.latest b
  image : ∀ s ∈ x.surfaces, s.drawDirty = true ∨ s.uploadPending = false →
    ∀ b, s.pixel b = true → s.image b = x.latest b
  pending : ∀ s ∈ x.surfaces, s.downloadPending = true → s.drawDirty = true
  disjoint : Disjoint x.surfaces
  stored : ∀ b, x.stored b ≤ x.latest b
  clock : ∀ b, x.latest b ≤ x.clock
  checked : Checked x.surfaces x.cpu
  loads : ∀ l ∈ x.loads, l.value = l.latest
  overwritten : x.overwritten = []
  leftOut : x.leftOut = []

variable {c : Surface → Bool} {f : Surface → Surface} {l : List Surface} {s : Surface}
  {bytes : Nat → Bool} {b p : Nat} {a : CpuAccess}

theorem mem_mapWhere {t : Surface} : t ∈ mapWhere c f l ↔ ∃ s ∈ l, c s = true ∧ f s = t ∨ c s = false ∧ s = t := by
  refine mem_map.trans (exists_congr fun s => and_congr_right fun _ => ?_)
  cases c s <;> simp

theorem mem_mapWhere_of_pos (hs : s ∈ l) (hc : c s = true) : f s ∈ mapWhere c f l :=
  mem_mapWhere.mpr ⟨s, hs, .inl ⟨hc, rfl⟩⟩

theorem mem_mapWhere_of_neg (hs : s ∈ l) (hc : ¬c s = true) : s ∈ mapWhere c f l :=
  mem_mapWhere.mpr ⟨s, hs, .inr ⟨eq_false_of_ne_true hc, rfl⟩⟩

theorem disjoint_mapWhere (hf : ∀ s, (f s).pixel = s.pixel) (h : Disjoint l) : Disjoint (mapWhere c f l) := by
  intro t ht t' ht' hne b hb
  obtain ⟨s, hs, rfl⟩ := mem_map.mp ht
  obtain ⟨s', hs', rfl⟩ := mem_map.mp ht'
  have hpixel (s : Surface) : (if c s then f s else s).pixel = s.pixel := by
    split
    · exact hf s
    · rfl
  rw [hpixel] at hb ⊢
  refine h s hs s' hs' ?_ b hb
  rintro rfl
  exact hne rfl

theorem Checked.mapWhere {cpu : Cpu} (h : Checked l cpu) (hplace : ∀ s, (f s).callback = s.callback)
    (hf : ∀ s ∈ l, c s = true → ∀ a ∈ cpu.access, s.Overlaps a.addr a.len → s.callback ∈ cpu.todo ∨
      (s.drawDirty = false ∨ s.downloadPending = true → (f s).drawDirty = false) ∧
        (a.isWrite = true → s.uploadPending = true → (f s).uploadPending = true)) :
    Checked (mapWhere c f l) cpu := by
  have hcases {t : Surface} (ht : t ∈ Coherence.mapWhere c f l) {a : CpuAccess} (ha : a ∈ cpu.access)
      (hover : t.Overlaps a.addr a.len) : t ∈ l ∨ t.callback ∈ cpu.todo ∨
        ∃ s ∈ l, s.Overlaps a.addr a.len ∧ t.callback = s.callback ∧
          (s.drawDirty = false ∨ s.downloadPending = true → t.drawDirty = false) ∧
          (a.isWrite = true → s.uploadPending = true → t.uploadPending = true) := by
    obtain ⟨s, hs, ⟨hc, rfl⟩ | ⟨-, rfl⟩⟩ := mem_mapWhere.mp ht
    · obtain ⟨-, haddr, hsize⟩ := Callback.mk.inj (hplace s)
      have hover' : s.Overlaps a.addr a.len := by
        unfold Surface.Overlaps at hover ⊢
        rwa [haddr, hsize] at hover
      rw [hplace s]
      obtain htodo | hkept := hf s hs hc a ha hover'
      · exact .inr (.inl htodo)
      · exact .inr (.inr ⟨s, hs, hover', rfl, hkept⟩)
    · exact .inl hs
  cases cpu with
  | idle => trivial
  | checking todo a =>
    intro t ht hover
    obtain hsame | htodo | ⟨s, hs, hover', hcallback, hdirty, hupload⟩ := hcases ht rfl hover
    · exact h t hsame hover
    · exact .inr htodo
    · obtain hsettled | htodo := h s hs hover'
      · exact .inl ⟨hdirty (.inl hsettled.1), fun hw => hupload hw (hsettled.2 hw)⟩
      · exact .inr (hcallback ▸ htodo)
  | waiting todo a =>
    intro t ht hover
    obtain hsame | htodo | ⟨s, hs, hover', hcallback, hdirty, hupload⟩ := hcases ht rfl hover
    · exact h t hsame hover
    · exact .inr (.inl htodo)
    · obtain hsettled | htodo | hpending := h s hs hover'
      · exact .inl ⟨hdirty (.inl hsettled.1), fun hw => hupload hw (hsettled.2 hw)⟩
      · exact .inr (.inl (hcallback ▸ htodo))
      · exact .inl ⟨hdirty (.inr hpending.1), fun hw => hupload hw (hpending.2 hw)⟩

theorem Inv.missing_eq_nil (hinv : Inv x) (hs : s ∈ x.surfaces)
    (h : s.drawDirty = true ∨ s.uploadPending = false) : s.missing x.stored = [] := by
  refine filter_eq_nil_iff.mpr fun b _ hb => ?_
  obtain ⟨hpixel, hlt⟩ := and_eq_true_iff.mp hb
  have himage := hinv.image s hs h b hpixel
  have hle := hinv.stored b
  have hlt := of_decide_eq_true hlt
  omega

theorem stamp_le {n : Nat} {m : Nat → Nat} (h : m b ≤ n) : State.stamp bytes (n + 1) m b ≤ n + 1 := by
  unfold State.stamp
  split
  · exact Nat.le_refl _
  · exact Nat.le_trans h (Nat.le_succ n)

theorem foldl_writeBack {v : Nat} {vram : Nat → Nat} (himage : ∀ s ∈ l, s.pixel b = true → s.image b = v)
    (h : (∃ s ∈ l, s.pixel b = true) ∨ vram b = v) :
    l.foldl (fun vram s => s.writeBack vram) vram b = v := by
  induction l generalizing vram with
  | nil =>
    obtain ⟨s, hs, -⟩ | h := h
    · cases hs
    · exact h
  | cons s l ih =>
    refine ih (fun t ht => himage t (mem_cons_of_mem _ ht)) ?_
    by_cases hpixel : s.pixel b = true
    · right
      refine (if_pos hpixel).trans ?_
      exact himage s mem_cons_self hpixel
    · obtain ⟨t, ht, htb⟩ | h := h
      · obtain rfl | ht := mem_cons.mp ht
        · exact absurd htb hpixel
        · exact .inl ⟨t, ht, htb⟩
      · right
        exact (if_neg hpixel).trans h

theorem Inv.downloadWhere (hinv : Inv x) (sel : Surface → Bool)
    (hsel : ∀ s ∈ x.surfaces, sel s = true → s.drawDirty = true) : Inv (x.downloadWhere sel) where
  vram b hb := by
    refine foldl_writeBack (fun s hs hpixel => ?_) ?_
    · obtain ⟨hs, hsel'⟩ := mem_filter.mp hs
      exact hinv.image s hs (.inl (hsel s hs hsel')) b hpixel
    · by_cases hany : ∃ s ∈ x.surfaces.filter sel, s.pixel b = true
      · exact .inl hany
      · refine .inr (hinv.vram b fun s hs hdirty => ?_)
        -- the surface is one of those that stay dirty, or one that is downloaded
        by_cases hs' : sel s = true
        · by_contra hpixel
          exact hany ⟨s, mem_filter.mpr ⟨hs, hs'⟩, by simpa using hpixel⟩
        · exact hb s (mem_mapWhere_of_neg hs hs') hdirty
  image t ht h b hpixel := by
    obtain ⟨s, hs, ⟨-, rfl⟩ | ⟨-, rfl⟩⟩ := mem_mapWhere.mp ht
    · exact hinv.image s hs (.inr (h.resolve_left nofun)) b hpixel
    · exact hinv.image s hs h b hpixel
  pending t ht h := by
    obtain ⟨s, hs, ⟨-, rfl⟩ | ⟨-, rfl⟩⟩ := mem_mapWhere.mp ht
    · cases h
    · exact hinv.pending s hs h
  disjoint := disjoint_mapWhere (fun _ => rfl) hinv.disjoint
  stored := hinv.stored
  clock := hinv.clock
  checked := hinv.checked.mapWhere (fun _ => rfl) fun _ _ _ _ _ _ => .inr ⟨fun _ => rfl, fun _ h => h⟩
  loads := hinv.loads
  overwritten := by
    change x.overwritten ++ _ = []
    rw [hinv.overwritten]
    refine flatMap_eq_nil_iff.mpr fun s hs => ?_
    obtain ⟨hs, hsel'⟩ := mem_filter.mp hs
    exact hinv.missing_eq_nil hs (.inl (hsel s hs hsel'))
  leftOut := hinv.leftOut

theorem Inv.evictWhere (hinv : Inv x) (sel : Surface → Bool) : Inv (x.evictWhere sel) := by
  have hdown := hinv.downloadWhere (fun s => sel s && s.drawDirty) fun s _ h => (and_eq_true_iff.mp h).2
  -- what is given up is not dirty any more
  have hclean : ∀ t ∈ (x.downloadWhere fun s => sel s && s.drawDirty).surfaces, sel t = true → t.drawDirty = false := by
    intro t ht htsel
    obtain ⟨s, hs, ⟨-, rfl⟩ | ⟨hkept, rfl⟩⟩ := mem_mapWhere.mp ht
    · rfl
    · simpa [htsel] using hkept
  have hsub {t : Surface} (ht : t ∈ (x.evictWhere sel).surfaces) :
      t ∈ (x.downloadWhere fun s => sel s && s.drawDirty).surfaces := (mem_filter.mp ht).1
  refine { hdown with vram := fun b hb => ?_, image := ?_, pending := ?_, disjoint := ?_, checked := ?_ }
  · refine hdown.vram b fun s hs hdirty => ?_
    by_cases hs' : sel s = true
    · rw [hclean s hs hs'] at hdirty
      cases hdirty
    · exact hb s (mem_filter.mpr ⟨hs, by simpa using hs'⟩) hdirty
  · exact fun s hs => hdown.image s (hsub hs)
  · exact fun s hs => hdown.pending s (hsub hs)
  · exact fun s hs t ht => hdown.disjoint s (hsub hs) t (hsub ht)
  · have hchecked := hdown.checked
    change Checked _ x.cpu at hchecked ⊢
    cases hcpu : x.cpu <;> rw [hcpu] at hchecked
    · trivial
    · exact fun s hs => hchecked s (hsub hs)
    · exact fun s hs => hchecked s (hsub hs)

theorem Inv.pendingDownloads (hinv : Inv x) : Inv x.pendingDownloads := by
  have hdown := hinv.downloadWhere (·.downloadPending) hinv.pending
  refine { hdown with checked := ?_ }
  have hchecked := hdown.checked
  -- no surface is left that the CPU would wait for
  have hdone : ∀ t ∈ (x.downloadWhere (·.downloadPending)).surfaces, t.downloadPending = false := by
    intro t ht
    obtain ⟨s, hs, ⟨-, rfl⟩ | ⟨hkept, rfl⟩⟩ := mem_mapWhere.mp ht
    · rfl
    · exact hkept
  have hsame : (x.downloadWhere (·.downloadPending)).cpu = x.cpu := rfl
  unfold State.pendingDownloads
  dsimp only
  rw [hsame] at hchecked ⊢
  cases hcpu : x.cpu with rw [hcpu] at hchecked
  | idle => trivial
  | checking todo a => exact hchecked
  | waiting todo a =>
    intro s hs hover
    obtain hsettled | htodo | hpending := hchecked s hs hover
    · exact .inl hsettled
    · exact .inr htodo
    · rw [hdone s hs] at hpending
      cases hpending.1

theorem Inv.put (hinv : Inv x) (hupload : s.uploadPending = true) (hdirty : s.drawDirty = false)
    (hdownload : s.downloadPending = false) : Inv (x.put s) := by
  have hevict := hinv.evictWhere fun t => decide (t.Overlaps s.vramAddr s.size)
  have hapart : ∀ t ∈ (x.evictWhere fun t => decide (t.Overlaps s.vramAddr s.size)).surfaces,
      ∀ b, s.pixel b = true → t.pixel b = true → False := by
    intro t ht b hb hb'
    have hover : ¬t.Overlaps s.vramAddr s.size := by simpa using (mem_filter.mp ht).2
    have hin := s.inside b hb
    have hin' := t.inside b hb'
    unfold Surface.Overlaps at hover
    omega
  refine { hevict with vram := ?_, image := ?_, pending := ?_, disjoint := ?_, checked := ?_ }
  · exact fun b hb => hevict.vram b fun t ht => hb t (mem_cons_of_mem _ ht)
  · intro t ht h
    obtain rfl | ht := mem_cons.mp ht
    · simp [hupload, hdirty] at h
    · exact hevict.image t ht h
  · intro t ht h
    obtain rfl | ht := mem_cons.mp ht
    · rw [hdownload] at h
      cases h
    · exact hevict.pending t ht h
  · intro t ht t' ht' hne b hb
    obtain rfl | ht := mem_cons.mp ht <;> obtain rfl | ht' := mem_cons.mp ht'
    · exact absurd rfl hne
    · exact eq_false_of_ne_true fun hb' => hapart t' ht' b hb hb'
    · exact eq_false_of_ne_true fun hb' => hapart t ht b hb' hb
    · exact hevict.disjoint t ht t' ht' hne b hb
  · have hchecked := hevict.checked
    change Checked (s :: _) x.cpu
    change Checked _ x.cpu at hchecked
    cases hcpu : x.cpu <;> rw [hcpu] at hchecked
    · trivial
    all_goals
      intro t ht hover
      obtain rfl | ht := mem_cons.mp ht
      · exact .inl ⟨hdirty, fun _ => hupload⟩
      · exact hchecked t ht hover

def InFlight (x : State) (s : Surface) (a : CpuAccess) : Prop :=
  s.Overlaps a.addr a.len ∧ s.callback ∉ x.cpu.todo

theorem Inv.vram_of_clean (hinv : Inv x) (hs : s ∈ x.surfaces) (hclean : s.drawDirty = false)
    (hb : s.pixel b = true) : x.vram b = x.latest b := by
  refine hinv.vram b fun t ht hdirty => ?_
  refine hinv.disjoint s hs t ht ?_ b hb
  rintro rfl
  rw [hclean] at hdirty
  cases hdirty

theorem Inv.upload (hinv : Inv x) (hok : ∀ s ∈ x.surfaces, s.vramAddr = p → s.uploadPending = true →
      s.drawDirty = false ∧ ∀ a ∈ x.cpu.access, a.isWrite = true → ¬InFlight x s a) :
    Inv (x.upload p) := by
  have hclean {s : Surface} (hs : s ∈ x.surfaces)
      (hc : (decide (s.vramAddr = p) && s.uploadPending) = true) :
      s.drawDirty = false ∧ ∀ a ∈ x.cpu.access, a.isWrite = true → ¬InFlight x s a := by
    obtain ⟨hp, hup⟩ := and_eq_true_iff.mp hc
    exact hok s hs (of_decide_eq_true hp) hup
  refine { hinv with vram := ?_, image := ?_, pending := ?_, disjoint := ?_, checked := ?_ }
  · refine fun b hb => hinv.vram b fun s hs hdirty => ?_
    by_cases hc : (decide (s.vramAddr = p) && s.uploadPending) = true
    · exact hb (s.uploaded x.vram) (mem_mapWhere_of_pos hs hc) hdirty
    · exact hb s (mem_mapWhere_of_neg hs hc) hdirty
  · intro t ht h b hb
    obtain ⟨s, hs, ⟨hc, rfl⟩ | ⟨-, rfl⟩⟩ := mem_mapWhere.mp ht
    · exact hinv.vram_of_clean hs (hclean hs hc).1 hb
    · exact hinv.image s hs h b hb
  · intro t ht h
    obtain ⟨s, hs, ⟨-, rfl⟩ | ⟨-, rfl⟩⟩ := mem_mapWhere.mp ht <;> exact hinv.pending s hs h
  · exact disjoint_mapWhere (fun _ => rfl) hinv.disjoint
  · refine hinv.checked.mapWhere (fun _ => rfl) fun s hs hc a ha hover => ?_
    obtain ⟨hdirty, hflight⟩ := hclean hs hc
    by_cases htodo : s.callback ∈ x.cpu.todo
    · exact .inl htodo
    · exact .inr ⟨fun _ => hdirty, fun hw => absurd ⟨hover, htodo⟩ (hflight a ha hw)⟩

theorem Inv.draw (hinv : Inv x) (hok : ∀ s ∈ x.surfaces, s.vramAddr = p →
      s.uploadPending = false ∧ ∀ a ∈ x.cpu.access, ¬InFlight x s a) :
    Inv (x.draw p bytes) := by
  have hat {s : Surface} (hs : s ∈ x.surfaces) (hc : decide (s.vramAddr = p) = true) := hok s hs (of_decide_eq_true hc)
  -- a byte that is drawn is one of a surface that is drawn to
  have hdrawn {b : Nat} (hb : (bytes b && x.surfaces.any fun s =>
      decide (s.vramAddr = p) && s.pixel b) = true) :
      ∃ s ∈ x.surfaces, decide (s.vramAddr = p) = true ∧ s.pixel b = true := by
    obtain ⟨s, hs, h⟩ := any_eq_true.mp (and_eq_true_iff.mp hb).2
    exact ⟨s, hs, and_eq_true_iff.mp h⟩
  constructor
  case vram =>
    intro b hb
    have hnot : ¬(bytes b && x.surfaces.any fun s => decide (s.vramAddr = p) && s.pixel b) = true := by
      intro h
      obtain ⟨s, hs, hc, hpixel⟩ := hdrawn h
      have hnot := hb (s.drawn _ _) (mem_mapWhere_of_pos hs hc) rfl
      exact false_ne_true (hnot.symm.trans hpixel)
    refine Eq.trans (hinv.vram b fun s hs hdirty => ?_) (if_neg hnot).symm
    by_cases hc : decide (s.vramAddr = p) = true
    · exact hb (s.drawn _ _) (mem_mapWhere_of_pos hs hc) rfl
    · exact hb s (mem_mapWhere_of_neg hs hc) hdirty
  case image =>
    intro t ht h b hb
    obtain ⟨s, hs, ⟨hc, rfl⟩ | ⟨hc, rfl⟩⟩ := mem_mapWhere.mp ht
    · -- the surface drawn to had the latest before
      change (if _ then _ else s.image b) = if _ then _ else x.latest b
      rw [hinv.image s hs (.inr (hat hs hc).1) b hb]
    · refine Eq.trans (hinv.image s hs h b hb) (if_neg fun hbytes => ?_).symm
      obtain ⟨u, hu, huc, hub⟩ := hdrawn hbytes
      have hne : u ≠ s := by
        rintro rfl
        rw [hc] at huc
        cases huc
      rw [hinv.disjoint u hu s hs hne b hub] at hb
      cases hb
  case pending =>
    intro t ht h
    obtain ⟨s, hs, ⟨-, rfl⟩ | ⟨-, rfl⟩⟩ := mem_mapWhere.mp ht
    · rfl
    · exact hinv.pending s hs h
  case disjoint => exact disjoint_mapWhere (fun _ => rfl) hinv.disjoint
  case stored =>
    intro b
    have hle := hinv.stored b
    have hclock := hinv.clock b
    change x.stored b ≤ if _ then x.clock + 1 else x.latest b
    split
    · exact Nat.le_trans (Nat.le_trans hle hclock) (Nat.le_succ _)
    · exact hle
  case clock =>
    intro b
    dsimp only [State.draw]
    exact stamp_le (hinv.clock b)
  case checked =>
    exact hinv.checked.mapWhere (fun _ => rfl) fun s hs hc a ha hover =>
      .inl (not_not.mp fun htodo => (hat hs hc).2 a ha ⟨hover, htodo⟩)
  case loads => exact hinv.loads
  case overwritten => exact hinv.overwritten
  case leftOut =>
    change x.leftOut ++ _ = []
    rw [hinv.leftOut]
    refine flatMap_eq_nil_iff.mpr fun s hs => ?_
    obtain ⟨hs, hc⟩ := mem_filter.mp hs
    exact hinv.missing_eq_nil hs (.inr (hat hs hc).1)

theorem Surface.overlaps_of_callback (h : s.Overlaps a.addr a.len) : s.Overlaps (max a.addr s.callback.addr) a.len := by
  have hpos := s.pos
  unfold Surface.Overlaps at h ⊢
  change ¬(max a.addr s.vramAddr + a.len ≤ s.vramAddr ∨ s.vramAddr + s.size ≤ max a.addr s.vramAddr)
  omega

theorem Inv.call (hinv : Inv x) {cb : Callback} {todo : List Callback}
    (hcpu : x.cpu = .checking (cb :: todo) a) : Inv (x.call cb todo a) := by
  have hchecked := hinv.checked
  rw [hcpu] at hchecked
  have hafter {t : Surface} (ht : t ∈ (x.call cb todo a).surfaces) (hover : t.Overlaps a.addr a.len) :
      Settled a t ∨ t.callback ∈ todo ∨
        (x.surfaces.any fun s => decide (s.Overlaps (max a.addr cb.addr) a.len) && s.drawDirty) = true ∧
          t.downloadPending = true ∧ (a.isWrite = true → t.uploadPending = true) := by
    obtain ⟨s, hs, ⟨hc, rfl⟩ | ⟨hc, rfl⟩⟩ := mem_mapWhere.mp ht
    · have hupload (hw : a.isWrite = true) : (s.mark a.isWrite).uploadPending = true := by
        rw [hw]
        exact or_true _
      by_cases hdirty : s.drawDirty = true
      · refine .inr (.inr ⟨any_eq_true.mpr ⟨s, hs, ?_⟩, ?_, hupload⟩)
        · exact and_eq_true_iff.mpr ⟨hc, hdirty⟩
        · exact or_eq_true_iff.mpr (.inr hdirty)
      · exact .inl ⟨eq_false_of_ne_true hdirty, hupload⟩
    · obtain hsettled | htodo := hchecked s hs hover
      · exact .inl hsettled
      · obtain rfl | htodo := mem_cons.mp htodo
        · -- the callback of the surface itself marks it
          exact absurd (Surface.overlaps_of_callback hover) (of_decide_eq_false hc)
        · exact .inr (.inl htodo)
  refine { hinv with vram := ?_, image := ?_, pending := ?_, disjoint := ?_, checked := ?_ }
  · refine fun b hb => hinv.vram b fun s hs hdirty => ?_
    by_cases hc : decide (s.Overlaps (max a.addr cb.addr) a.len) = true
    · exact hb (s.mark a.isWrite) (mem_mapWhere_of_pos hs hc) hdirty
    · exact hb s (mem_mapWhere_of_neg hs hc) hdirty
  · intro t ht h
    obtain ⟨s, hs, ⟨-, rfl⟩ | ⟨-, rfl⟩⟩ := mem_mapWhere.mp ht
    · exact hinv.image s hs (h.imp_right fun hup => (or_eq_false_iff.mp hup).1)
    · exact hinv.image s hs h
  · intro t ht h
    obtain ⟨s, hs, ⟨-, rfl⟩ | ⟨-, rfl⟩⟩ := mem_mapWhere.mp ht
    · exact (or_eq_true_iff.mp h).elim (hinv.pending s hs) fun h => h
    · exact hinv.pending s hs h
  · exact disjoint_mapWhere (fun _ => rfl) hinv.disjoint
  · change Checked _ (if _ then Cpu.waiting todo a else .checking todo a)
    split
    case isTrue hany =>
      intro t ht hover
      exact (hafter ht hover).imp_right fun h => h.imp_right And.right
    case isFalse hnone =>
      intro t ht hover
      exact (hafter ht hover).imp_right fun h => h.resolve_right fun h => hnone h.1

theorem Inv.settled_of_has (hinv : Inv x) (hcpu : x.cpu = .checking [] a) (hs : s ∈ x.surfaces)
    (hb : s.pixel b = true) (ha : a.addr ≤ b ∧ b < a.addr + a.len) : Settled a s := by
  have hchecked := hinv.checked
  rw [hcpu] at hchecked
  have hover : s.Overlaps a.addr a.len := by
    have hin := s.inside b hb
    unfold Surface.Overlaps
    omega
  exact (hchecked s hs hover).resolve_right nofun

theorem Inv.load (hinv : Inv x) (hcpu : x.cpu = .checking [] a) {l : Load}
    (hl : l ∈ a.bytes.map fun b => (⟨b, x.vram b, x.latest b⟩ : Load)) : l.value = l.latest := by
  obtain ⟨b, hb, rfl⟩ := mem_map.mp hl
  obtain ⟨i, hi, rfl⟩ := mem_map.mp hb
  have hi := mem_range.mp hi
  refine hinv.vram _ fun s hs hdirty => ?_
  by_contra hpixel
  have hsettled := hinv.settled_of_has hcpu hs (of_not_eq_false hpixel) (by omega)
  rw [hsettled.1] at hdirty
  cases hdirty

theorem Inv.access (hinv : Inv x) (hcpu : x.cpu = .checking [] a) : Inv (x.access a) := by
  unfold State.access
  split
  case isTrue hw =>
    refine { hinv with vram := ?_, image := ?_, stored := ?_, clock := ?_, checked := trivial }
    · intro b hb
      change (if a.has b then x.clock + 1 else x.vram b) = if a.has b then x.clock + 1 else x.latest b
      rw [hinv.vram b hb]
    · intro s hs h b hb
      refine Eq.trans (hinv.image s hs h b hb) (if_neg fun hhas => ?_).symm
      obtain ⟨hclean, hup⟩ := hinv.settled_of_has hcpu hs hb (of_decide_eq_true hhas)
      simp [hclean, hup hw] at h
    · intro b
      have hle := hinv.stored b
      change (if a.has b then x.clock + 1 else x.stored b) ≤ if a.has b then x.clock + 1 else x.latest b
      split
      · exact Nat.le_refl _
      · exact hle
    · exact fun b => stamp_le (hinv.clock b)
  case isFalse hr =>
    refine { hinv with checked := trivial, loads := ?_ }
    intro l hl
    obtain hl | hl := mem_append.mp hl
    · exact hinv.loads l hl
    · exact hinv.load hcpu hl

/-- The CPU begins an access to surfaces whose callbacks it has, or that have nothing to lose. An upload
finds no surface that was drawn to and none that the CPU is about to store to, and a draw none that waits
for an upload and none that the CPU is about to access. -/
def stepOk (x : State) : Event → Prop
  | .check a => ∀ s ∈ x.surfaces, s.Overlaps a.addr a.len → Settled a s ∨ s.callback ∈ x.callbacks
  | .upload p => ∀ s ∈ x.surfaces, s.vramAddr = p → s.uploadPending = true →
      s.drawDirty = false ∧ ∀ a ∈ x.cpu.access, a.isWrite = true → ¬InFlight x s a
  | .draw p _ => ∀ s ∈ x.surfaces, s.vramAddr = p →
      s.uploadPending = false ∧ ∀ a ∈ x.cpu.access, ¬InFlight x s a
  | _ => True

instance (s : Surface) (a : CpuAccess) : Decidable (InFlight x s a) :=
  inferInstanceAs (Decidable (_ ∧ _))

instance (a : CpuAccess) (s : Surface) : Decidable (Settled a s) := inferInstanceAs (Decidable (_ ∧ _))

instance (e : Event) : Decidable (stepOk x e) :=
  match e with
  | .check _ => inferInstanceAs (Decidable (∀ s ∈ x.surfaces, _ → _ ∨ _))
  | .upload _ => inferInstanceAs (Decidable (∀ s ∈ x.surfaces, _ → _ → _ ∧ _))
  | .draw _ _ => inferInstanceAs (Decidable (∀ s ∈ x.surfaces, _ → _ ∧ _))
  | .work | .call | .access | .create _ | .downloadDirty _ | .pendingDownloads | .evict _ =>
    .isTrue trivial

theorem Surface.callback_hits (h : s.Overlaps a.addr a.len) : s.callback.Hits a := fun hmiss => h (Or.symm hmiss)

theorem Inv.check (hinv : Inv x)
    (hok : ∀ s ∈ x.surfaces, s.Overlaps a.addr a.len → Settled a s ∨ s.callback ∈ x.callbacks) :
    Inv { x with cpu := .checking (x.callbacks.filter fun cb => cb.Hits a) a } := by
  refine { hinv with checked := fun s hs hover => (hok s hs hover).imp_right fun hmem => ?_ }
  exact mem_filter.mpr ⟨hmem, decide_eq_true (Surface.callback_hits hover)⟩

theorem Inv.step {e : Event} (hinv : Inv x) (hok : stepOk x e) (h : step x e = some x') : Inv x' := by
  cases e with simp only [Coherence.step] at h
  | work => split at h <;> cases h <;> exact { hinv with }
  | check a =>
    split at h <;> cases h
    exact hinv.check hok
  | call =>
    split at h <;> cases h
    next cb todo a hcpu => exact hinv.call hcpu
  | access =>
    split at h <;> cases h
    next a hcpu => exact hinv.access hcpu
  | create s =>
    split at h <;> cases h
    next hnew => exact hinv.put hnew.1 hnew.2.1 hnew.2.2.1
  | upload p =>
    cases h
    exact hinv.upload hok
  | draw p bytes =>
    cases h
    exact hinv.draw hok
  | downloadDirty p =>
    cases h
    exact hinv.downloadWhere _ fun s _ hsel => (and_eq_true_iff.mp hsel).2
  | pendingDownloads =>
    cases h
    exact hinv.pendingDownloads
  | evict p =>
    cases h
    exact hinv.evictWhere _

theorem initial_inv : Inv State.initial where
  vram _ _ := rfl
  image _ hs := nomatch hs
  pending _ hs := nomatch hs
  disjoint _ hs := nomatch hs
  stored _ := Nat.le_refl 0
  clock _ := Nat.le_refl 0
  checked := trivial
  loads _ hl := nomatch hl
  overwritten := rfl
  leftOut := rfl

def fourBytes : Surface where
  vramAddr := 0
  size := 4
  accessCb := 0
  pixel b := decide (b < 4)
  image _ := 0
  drawDirty := false
  downloadPending := false
  uploadPending := true
  pos := by decide
  inside b hb := by
    have := of_decide_eq_true hb
    omega

def storeAll : CpuAccess := ⟨0, 4, true, by decide⟩

def loadSecond : CpuAccess := ⟨1, 1, false, by decide⟩

def drawFirst : Event := .draw 0 fun b => b == 0

def orderlyRun : List Event :=
  [.create fourBytes, .work, .upload 0, .check storeAll, .call, .access, .upload 0, drawFirst,
   .check loadSecond, .call, .pendingDownloads, .access]

def lostStoreRun : List Event :=
  [.create fourBytes, .work, .upload 0, .check storeAll, .call, .upload 0, .access, drawFirst,
   .check loadSecond, .call, .pendingDownloads, .access]

def lateCallbackRun : List Event :=
  [.create fourBytes, .upload 0, drawFirst, .check ⟨0, 1, false, by decide⟩, .access]

end XogMobile.Nv2a.Vk.Coherence
