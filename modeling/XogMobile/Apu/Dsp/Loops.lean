import XogMobile.Apu.Dsp.LoopUnit

/-!
# Nested loops of the DSP

A block of code with loops does on the machine what it is for if and only if no loop body ends with
another loop, a body leaves the bits of the status register that the end of a loop clears at zero, and
the loop flag is not part of an operand. The induction is over the block, with the end test of the
enclosing loop left open, and in a loop over the rounds that remain.
-/

namespace XogMobile.Apu.Dsp.Loop

open Lib Function Option Nat

variable {κ : Type} {code : Nat → Option (Instr κ)} {m m' : Machine κ}

/-! ## The stack -/

def Machine.top (m : Machine κ) : BitVec 6 := m.sp &&& 0xF

/-- The registers `SSH` and `SSL` show the top of the stack. -/
def Machine.Shown (m : Machine κ) : Prop := m.ssh = m.stackH m.top ∧ m.ssl = m.stackL m.top

theorem push_pointer : ∀ sp : BitVec 6, (sp &&& 0xF).toNat < 15 →
    ((sp &&& 0xF) + 1) &&& 0x10 = 0 ∧ sp &&& 0x20 ||| sp &&& 0x10 ||| ((sp &&& 0xF) + 1) = sp + 1 ∧
      ((sp &&& 0xF) + 1) &&& 0xF = (sp + 1) &&& 0xF ∧ (sp + 1) &&& 0xF ≠ 0 ∧
      ((sp + 1) &&& 0xF).toNat = (sp &&& 0xF).toNat + 1 := by
  decide

theorem top_succ (sp : BitVec 6) (hroom : (sp &&& 0xF).toNat < 15) :
    ((sp + 1) &&& 0xF).toNat = (sp &&& 0xF).toNat + 1 := (push_pointer sp hroom).2.2.2.2

theorem pop_pointer : ∀ sp : BitVec 6, (sp &&& 0xF).toNat < 15 → (((sp + 1) &&& 0xF) - 1) &&& 0x10 = 0 ∧
      (sp + 1) &&& 0x20 ||| (sp + 1) &&& 0x10 ||| (((sp + 1) &&& 0xF) - 1) = sp ∧
      (((sp + 1) &&& 0xF) - 1) &&& 0xF = sp &&& 0xF := by
  decide

theorem stackPush_eq (hroom : m.top.toNat < 15) (curpc cursr : Nat) : m.stackPush curpc cursr = some { m with
      sp := m.sp + 1
      stackH := update m.stackH ((m.sp + 1) &&& 0xF) (curpc % 0x10000)
      stackL := update m.stackL ((m.sp + 1) &&& 0xF) (cursr % 0x10000)
      ssh := curpc % 0x10000
      ssl := cursr % 0x10000 } := by
  obtain ⟨hfull, hsp, hslot, hne, -⟩ := push_pointer m.sp hroom
  unfold Machine.stackPush
  dsimp only
  rw [if_neg (fun h => h.2 hfull), hsp, hslot, if_pos hne, if_pos hne]

theorem stackPop_eq {sp : BitVec 6} (hsp : m.sp = sp + 1) (hroom : (sp &&& 0xF).toNat < 15) :
    m.stackPop = some { m with sp, ssh := m.stackH (sp &&& 0xF), ssl := m.stackL (sp &&& 0xF) } := by
  obtain ⟨hempty, hback, hslot⟩ := pop_pointer sp hroom
  unfold Machine.stackPop
  rw [hsp, if_neg (fun h => h.2 hempty), hback, hslot]

/-! ## The loop flag -/

theorem setLf_lf (d : Data κ) : d.setLf.sr &&& lf = lf := by
  unfold Data.setLf
  grind

theorem putLf_lf (d : Data κ) (sr : Sr) : (d.putLf sr).sr &&& lf = sr &&& lf := by
  unfold Data.putLf
  grind

theorem iterate_lf {f : Data κ → Data κ} (hf : ∀ d, (f d).sr &&& lf = d.sr &&& lf) (n : Nat) (d : Data κ) :
    (f^[n] d).sr &&& lf = d.sr &&& lf := by
  induction n generalizing d with
  | zero => rfl
  | succ n ih => rw [iterate_succ_apply, ih, hf]

theorem Block.exec_lf (b : Block κ) (d : Data κ) : (b.exec d).sr &&& lf = d.sr &&& lf := by
  induction b generalizing d with
  | done => rfl
  | plain i rest ih => rw [Block.exec, ih, i.act_lf]
  | rep r i rest ih => rw [Block.exec, ih, iterate_lf i.act_lf, r.operand.read_lf]
  | loop i body rest _ ihRest => rw [Block.exec, ihRest, putLf_lf]

/-! ## Going on -/

variable {lo hi : Nat} {outcome : Option (Machine κ)}

/-- The machine comes to the outcome, and before that its program counter is in the range. -/
def Goes (code : Nat → Option (Instr κ)) (lo hi : Nat) (m : Machine κ) (outcome : Option (Machine κ)) : Prop :=
  ∃ count, executeMany code m count = outcome ∧
    ∀ k < count, ∀ s, executeMany code m k = some s → lo ≤ s.pc ∧ s.pc < hi

namespace Goes

theorem refl (m : Machine κ) : Goes code lo hi m (some m) := ⟨0, rfl, fun _ h => absurd h (not_lt_zero _)⟩

theorem step (hlo : lo ≤ m.pc) (hhi : m.pc < hi) : Goes code lo hi m (execute code m) := by
  refine ⟨1, ?_, fun k hk s hs => ?_⟩
  · unfold executeMany
    exact bind_fun_some _
  · rw [lt_one_iff.mp hk] at hs
    cases hs
    exact ⟨hlo, hhi⟩

theorem mono {lo' hi' : Nat} (h : Goes code lo hi m outcome) (hlo : lo' ≤ lo) (hhi : hi ≤ hi') :
    Goes code lo' hi' m outcome := by
  obtain ⟨count, hcount, hin⟩ := h
  refine ⟨count, hcount, fun k hk s hs => ?_⟩
  have := hin k hk s hs
  omega

theorem trans (hfirst : Goes code lo hi m (some m')) (hsecond : Goes code lo hi m' outcome) :
    Goes code lo hi m outcome := by
  obtain ⟨count, hcount, hin⟩ := hfirst
  obtain ⟨count', hcount', hin'⟩ := hsecond
  have hsplit (k : Nat) : executeMany code m (count + k) = executeMany code m' k := by
    unfold executeMany at hcount ⊢
    rw [List.replicate_add, run_append, hcount]
    rfl
  refine ⟨count + count', (hsplit count').trans hcount', fun k hk s hs => ?_⟩
  obtain hlt | ⟨j, rfl⟩ : k < count ∨ ∃ j, k = count + j :=
    (Nat.lt_or_ge k count).imp_right Nat.exists_eq_add_of_le
  · exact hin k hlt s hs
  · exact hin' j (by omega) s ((hsplit j).symm.trans hs)

end Goes

/-- The machine goes through `size` words of code and arrives behind them. -/
def Arrives (code : Nat → Option (Instr κ)) (m : Machine κ) (size : Nat) (m' : Machine κ) : Prop :=
  Goes code m.pc (m.pc + size) m (some m') ∧ m'.pc = m.pc + size

theorem Arrives.unique {m'' : Machine κ} {size : Nat} (h : Arrives code m size m') (h' : Arrives code m size m'') :
    m' = m'' := by
  obtain ⟨⟨count, hcount, hin⟩, hpc⟩ := h
  obtain ⟨⟨count', hcount', hin'⟩, hpc'⟩ := h'
  obtain hlt | rfl | hgt := Nat.lt_trichotomy count count'
  · exact absurd (hin' count hlt m' hcount).2 (by omega)
  · exact Option.some.inj (hcount.symm.trans hcount')
  · exact absurd (hin count' hgt m'' hcount').2 (by omega)

theorem endTest_of_ne (h : m.data.sr &&& lf ≠ 0 → m.pc ≠ m.la + 1) : m.endTest = some m :=
  if_neg fun hend => h hend.1 hend.2

/-- The machine is between two instructions, and the loop registers hold 16 bits. -/
structure Ready (m : Machine κ) : Prop where
  idle : m.loopRep = false
  la : m.la < 0x10000
  lc : m.lc < 0x10000

/-- What a block keeps beside the loop counter: the loop registers, and the stack up to its top. -/
structure Kept (m m' : Machine κ) : Prop where
  idle : m'.loopRep = false
  la : m'.la = m.la
  sp : m'.sp = m.sp
  stackH : ∀ j, j.toNat ≤ m.top.toNat → m'.stackH j = m.stackH j
  stackL : ∀ j, j.toNat ≤ m.top.toNat → m'.stackL j = m.stackL j
  shown : m.Shown → m'.ssh = m.ssh ∧ m'.ssl = m.ssl

namespace Kept

theorem moved {pc : Nat} {data : Data κ} (hidle : m.loopRep = false) : Kept m { m with pc, data } where
  idle := hidle
  la := rfl
  sp := rfl
  stackH _ _ := rfl
  stackL _ _ := rfl
  shown _ := ⟨rfl, rfl⟩

theorem top (h : Kept m m') : m'.top = m.top := congrArg (· &&& 0xF) h.sp

theorem shown_next (h : Kept m m') (hm : m.Shown) : m'.Shown := by
  obtain ⟨hssh, hssl⟩ := h.shown hm
  refine ⟨?_, ?_⟩
  · rw [hssh, h.top, h.stackH _ (Nat.le_refl _)]
    exact hm.1
  · rw [hssl, h.top, h.stackL _ (Nat.le_refl _)]
    exact hm.2

theorem trans {m'' : Machine κ} (h : Kept m m') (h' : Kept m' m'') : Kept m m'' where
  idle := h'.idle
  la := h'.la.trans h.la
  sp := h'.sp.trans h.sp
  stackH j hj := (h'.stackH j (by rwa [h.top])).trans (h.stackH j hj)
  stackL j hj := (h'.stackL j (by rwa [h.top])).trans (h.stackL j hj)
  shown hm := by
    obtain ⟨hssh, hssl⟩ := h.shown hm
    obtain ⟨hssh', hssl'⟩ := h'.shown (h.shown_next hm)
    exact ⟨hssh'.trans hssh, hssl'.trans hssl⟩

end Kept

/-- The block was run once, and the loop registers are as before. -/
structure Block.Ran (b : Block κ) (m m' : Machine κ) : Prop extends Kept m m' where
  lc : m'.lc = m.lc
  pc : m'.pc = m.pc + b.size
  data : m'.data = b.exec m.data

/-- The enclosing loop does not end inside the block. -/
def Block.Within (b : Block κ) (m : Machine κ) : Prop :=
  m.data.sr &&& lf ≠ 0 → ∀ a, m.pc < a → a < m.pc + b.size → a ≠ m.la + 1

/-- The block is loaded, and the stack has room for its loops. -/
structure Block.Fits (b : Block κ) (code : Nat → Option (Instr κ)) (m : Machine κ) : Prop where
  loaded : b.Loaded code m.pc
  size : m.pc + b.size ≤ pramSize
  ready : Ready m
  within : b.Within m
  room : m.top.toNat + 2 * b.depth ≤ 15

/-- `P` holds of each loop of the block and the data it is entered with. -/
def Block.EachLoop (P : DoInstr κ → Block κ → Data κ → Prop) : Block κ → Data κ → Prop
  | .done, _ => True
  | .plain i rest, d => rest.EachLoop P (i.act d)
  | .rep r i rest, d => rest.EachLoop P (i.act^[rounds (r.operand.read d).1] (r.operand.read d).2)
  | .loop i body rest, d =>
    P i body d ∧
    (∀ k < rounds (i.operand.read d).1, body.EachLoop P (body.exec^[k] (i.operand.read d).2.setLf)) ∧
    rest.EachLoop P ((body.exec^[rounds (i.operand.read d).1] (i.operand.read d).2.setLf).putLf d.sr)

/-- An operand that is read after the loop flag is set does not show the flag, the body does not end
with a loop, and the bits of the status register that the end of the loop clears are zero there. -/
structure DoInstr.Clean (i : DoInstr κ) (body : Block κ) (d : Data κ) : Prop where
  blind : i.readsFirst = false → (i.operand.read d.setLf).1 % 0x10000 = (i.operand.read d).1 % 0x10000 ∧
    (i.operand.read d.setLf).2 = (i.operand.read d).2.setLf
  ends : body.endsWithInstr = true
  zero : (body.exec^[rounds (i.operand.read d).1] (i.operand.read d).2.setLf).sr &&& 0x7F80 = 0

def Block.Clean (b : Block κ) (d : Data κ) : Prop := b.EachLoop DoInstr.Clean d

/-- A block that does what it is for, up to the end test after its last instruction. -/
def Block.Works (b : Block κ) (code : Nat → Option (Instr κ)) : Prop :=
  ∀ m : Machine κ, b.Fits code m → b.Clean m.data →
    ∃ m', b.Ran m m' ∧
      Goes code m.pc (m.pc + b.size) m (if b.endsWithInstr then m'.endTest else some m')

/-! ## Plain and repeated instructions -/

theorem done_works : (Block.done : Block κ).Works code := by
  intro m hfits _
  exact ⟨m, { toKept := .moved hfits.ready.idle, lc := rfl, pc := rfl, data := rfl }, .refl m⟩

theorem execute_eq {i : Instr κ} (hcode : code m.pc = some i) (hfits : m.pc + i.len ≤ pramSize) :
    execute code m = (i.emu m).bind (·.updatePc i.len) := by
  unfold execute
  rw [hcode, bind_some, if_pos hfits]

theorem updatePc_idle (h : m.loopRep = false) (len : Nat) : m.updatePc len = { m with pc := m.pc + len }.endTest := by
  unfold Machine.updatePc
  rw [h]
  rfl

def Plain.next (i : Plain κ) (m : Machine κ) : Machine κ :=
  { m with pc := m.pc + i.len, data := i.act m.data }

variable {i : Plain κ} {b rest body : Block κ} {lc r x y : Nat} {saved : Sr} {sp : BitVec 6}
  {f : BitVec 6 → Nat}

theorem execute_plain (hcode : code m.pc = some (.plain i)) (hfits : m.pc + i.len ≤ pramSize)
    (hidle : m.loopRep = false) : execute code m = (i.next m).endTest := by
  rw [execute_eq hcode hfits, Instr.emu]
  exact updatePc_idle (m := { m with data := i.act m.data }) hidle i.len

theorem Block.size_pos (h : b ≠ .done) : 0 < b.size := by
  cases b with
  | done => exact absurd rfl h
  | plain i rest => exact Nat.add_pos_left i.len_pos _
  | rep r i rest =>
    unfold Block.size
    omega
  | loop i body rest =>
    unfold Block.size
    omega

theorem Block.Fits.next {m₁ : Machine κ} (hfits : b.Fits code m) (hloaded : rest.Loaded code m₁.pc)
    (hdepth : rest.depth ≤ b.depth) (hpc : m₁.pc + rest.size = m.pc + b.size) (hafter : m.pc ≤ m₁.pc)
    (hlf : m₁.data.sr &&& lf = m.data.sr &&& lf) (hkept : Kept m m₁) (hlc : m₁.lc < 0x10000) : rest.Fits code m₁ := by
  refine ⟨hloaded, hpc ▸ hfits.size, ⟨hkept.idle, ?_, hlc⟩, fun hflag a hlow hhigh => ?_, ?_⟩
  · rw [hkept.la]
    exact hfits.ready.la
  · rw [hkept.la]
    exact hfits.within (hlf ▸ hflag) a (by omega) (by omega)
  · rw [hkept.top]
    have := hfits.room
    omega

theorem rest_works (m₁ : Machine κ) (hrest : rest.Works code) (hends : rest = .done ∧ b.endsWithInstr = true ∨
      rest ≠ .done ∧ b.endsWithInstr = rest.endsWithInstr)
    (hfits : b.Fits code m) (hloaded : rest.Loaded code m₁.pc) (hdepth : rest.depth ≤ b.depth)
    (hpc : m₁.pc + rest.size = m.pc + b.size) (hafter : m.pc < m₁.pc)
    (hlf : m₁.data.sr &&& lf = m.data.sr &&& lf) (hkept : Kept m m₁) (hlc : m₁.lc = m.lc)
    (hdata : rest.exec m₁.data = b.exec m.data) (hclean : rest.Clean m₁.data)
    (hgoes : Goes code m.pc m₁.pc m m₁.endTest) :
    ∃ m', b.Ran m m' ∧
      Goes code m.pc (m.pc + b.size) m (if b.endsWithInstr then m'.endTest else some m') := by
  have hgoes := hgoes.mono (Nat.le_refl _) (show m₁.pc ≤ m.pc + b.size by omega)
  obtain ⟨rfl, hends⟩ | ⟨hdone, hends⟩ := hends
  · exact ⟨m₁, { toKept := hkept, lc := hlc, pc := hpc, data := hdata }, by rwa [if_pos hends]⟩
  · have hsize := Block.size_pos hdone
    -- The end of the enclosing loop is further on.
    rw [endTest_of_ne fun hflag => by
      rw [hkept.la]
      exact hfits.within (hlf ▸ hflag) m₁.pc hafter (by omega)] at hgoes
    obtain ⟨m', hran, hgoes'⟩ := hrest m₁
      (hfits.next hloaded hdepth hpc (Nat.le_of_lt hafter) hlf hkept (hlc ▸ hfits.ready.lc)) hclean
    refine ⟨m', ?_, by rw [hends]; exact hgoes.trans (hgoes'.mono (by omega) (by omega))⟩
    exact { toKept := hkept.trans hran.toKept, lc := hran.lc.trans hlc, pc := hran.pc.trans hpc,
            data := hran.data.trans hdata }

theorem plain_works (hrest : rest.Works code) : (Block.plain i rest).Works code := by
  intro m hfits hclean
  obtain ⟨hcode, hloaded⟩ := hfits.loaded
  have hsize := hfits.size
  have hlen := i.len_pos
  simp only [Block.size] at hsize
  have hstep := execute_plain hcode (by omega) hfits.ready.idle
  refine rest_works (i.next m) hrest ?_ hfits hloaded (Nat.le_refl _) ?_ ?_ (i.act_lf m.data) ?_
    rfl rfl hclean (hstep ▸ .step (Nat.le_refl _) ?_)
  · cases rest with
    | done => exact .inl ⟨rfl, rfl⟩
    | _ => exact .inr ⟨nofun, rfl⟩
  · simp only [Plain.next, Block.size]
    omega
  · simp only [Plain.next]
    omega
  · exact .moved hfits.ready.idle
  · simp only [Plain.next]
    omega

def Plain.repeated (i : Plain κ) (m : Machine κ) (count : Nat) : Machine κ :=
  { m with pc := m.pc + i.len, data := i.act^[count] m.data, loopRep := false, lc := m.lcsave }

theorem execute_repeated (hcode : code m.pc = some (.plain i)) (hfits : m.pc + i.len ≤ pramSize)
    (hrep : m.loopRep = true) (hon : m.pcOnRep = false) :
    execute code m = if Machine.decremented m.lc > 0
      then { m with data := i.act m.data, lc := Machine.decremented m.lc }.endTest
      else (i.repeated m 1).endTest := by
  rw [execute_eq hcode hfits, Instr.emu, bind_some]
  unfold Machine.updatePc
  rw [if_pos hrep, if_neg (by rw [hon]; decide)]
  rfl

theorem decremented_pos (hlc : lc % 0x10000 = (r + 2) % 0x10000) (hr : r + 1 < 0x10000) :
    Machine.decremented lc = r + 1 := by
  unfold Machine.decremented
  omega

theorem decremented_one (hlc : lc % 0x10000 = 1) : Machine.decremented lc = 0 := by
  unfold Machine.decremented
  omega

theorem repeated_goes (hcode : code m.pc = some (.plain i)) (hfits : m.pc + i.len ≤ pramSize)
    (hrep : m.loopRep = true) (hon : m.pcOnRep = false) (hlc : m.lc % 0x10000 = (r + 1) % 0x10000)
    (hr : r < 0x10000) (hout : m.data.sr &&& lf ≠ 0 → m.pc ≠ m.la + 1) :
    Goes code m.pc (m.pc + i.len) m (i.repeated m (r + 1)).endTest := by
  have hstep : Goes code m.pc (m.pc + i.len) m (execute code m) := .step (Nat.le_refl _) (Nat.lt_add_of_pos_right i.len_pos)
  induction r generalizing m with
  | zero => rwa [execute_repeated hcode hfits hrep hon, decremented_one hlc] at hstep
  | succ r ih =>
    have hout₁ : (i.act m.data).sr &&& lf ≠ 0 → m.pc ≠ m.la + 1 := by
      rwa [i.act_lf]
    rw [execute_repeated hcode hfits hrep hon, decremented_pos hlc hr, endTest_of_ne hout₁] at hstep
    exact hstep.trans (ih hcode hfits hrep hon rfl (by omega) hout₁
      (.step (Nat.le_refl _) (Nat.lt_add_of_pos_right i.len_pos)))

def RepInstr.entered (r : RepInstr κ) (m : Machine κ) : Machine κ :=
  { r.emu m with
    lc := if (r.emu m).lc = 0 then 0x10000 else (r.emu m).lc, pcOnRep := false, pc := m.pc + 1 }

theorem execute_rep {r : RepInstr κ} (hcode : code m.pc = some (.rep r))
    (hfits : m.pc + 1 ≤ pramSize) : execute code m = (r.entered m).endTest := by
  rw [execute_eq hcode hfits]
  rfl

theorem rounds_pos (n : Nat) : 0 < rounds n := by
  unfold rounds
  split <;> omega

theorem rounds_le (n : Nat) : rounds n ≤ 0x10000 := by
  unfold rounds
  split <;> omega

theorem rounds_mod (n : Nat) : rounds n % 0x10000 = n % 0x10000 := by
  unfold rounds
  split <;> omega

theorem entered_lc (r : RepInstr κ) (m : Machine κ) :
    (r.entered m).lc % 0x10000 = rounds (r.operand.read m.data).1 % 0x10000 := by
  have hlc : (r.emu m).lc % 0x10000 = (r.operand.read m.data).1 % 0x10000 := by
    change (if r.masked then (r.operand.read m.data).1 % 0x10000 else (r.operand.read m.data).1) % 0x10000 = _
    split <;> omega
  rw [rounds_mod]
  change (if (r.emu m).lc = 0 then 0x10000 else (r.emu m).lc) % 0x10000 = _
  split <;> omega

theorem rep_works {r : RepInstr κ} (hrest : rest.Works code) : (Block.rep r i rest).Works code := by
  intro m hfits hclean
  obtain ⟨hcode, hcode', hloaded⟩ := hfits.loaded
  have hsize := hfits.size
  have hlen := i.len_pos
  simp only [Block.size] at hsize
  obtain ⟨count, hcount⟩ : ∃ count, rounds (r.operand.read m.data).1 = count + 1 :=
    exists_eq_succ_of_ne_zero (Nat.ne_of_gt (rounds_pos _))
  have hle := rounds_le (r.operand.read m.data).1
  -- The enclosing loop does not end at the instruction to repeat.
  have hout : (r.entered m).data.sr &&& lf ≠ 0 → (r.entered m).pc ≠ (r.entered m).la + 1 := by
    intro hflag
    refine hfits.within ?_ (m.pc + 1) (by omega) (by simp only [Block.size]; omega)
    exact r.operand.read_lf m.data ▸ hflag
  have hgoes : Goes code m.pc (m.pc + 1 + i.len) m (some (r.entered m)) := by
    rw [← endTest_of_ne hout, ← execute_rep hcode (by omega)]
    exact .step (Nat.le_refl _) (by omega)
  have hrepeated := repeated_goes hcode' (by simp only [RepInstr.entered]; omega) rfl rfl
    (hcount ▸ entered_lc r m) (by omega) hout
  refine rest_works (i.repeated (r.entered m) (count + 1)) hrest ?_ hfits hloaded (Nat.le_refl _)
    ?_ ?_ ?_ ?_ rfl ?_ ?_ (hgoes.trans (hrepeated.mono (le_add_right _ 1) (Nat.le_refl _)))
  · cases rest with
    | done => exact .inl ⟨rfl, rfl⟩
    | _ => exact .inr ⟨nofun, rfl⟩
  · simp only [Plain.repeated, RepInstr.entered, Block.size]
    omega
  · simp only [Plain.repeated, RepInstr.entered]
    omega
  · exact (iterate_lf i.act_lf _ _).trans (r.operand.read_lf m.data)
  · exact { idle := rfl, la := rfl, sp := rfl, stackH := fun _ _ => rfl, stackL := fun _ _ => rfl,
            shown := fun _ => ⟨rfl, rfl⟩ }
  · rw [Block.exec, hcount]
    rfl
  · rw [Block.Clean, Block.EachLoop, hcount] at hclean
    exact hclean

/-! ## Loops -/

def DoInstr.entered (i : DoInstr κ) (m : Machine κ) (saved : Sr) : Machine κ :=
  { m with
    pc := m.pc + 2
    data := (i.taken m.data).2
    la := i.loopEnd m.pc
    lc := (i.taken m.data).1 % 0x10000
    sp := m.sp + 1 + 1
    stackH := update (update m.stackH ((m.sp + 1) &&& 0xF) (m.la % 0x10000))
      ((m.sp + 1 + 1) &&& 0xF) ((m.pc + 2) % 0x10000)
    stackL := update (update m.stackL ((m.sp + 1) &&& 0xF) (m.lc % 0x10000))
      ((m.sp + 1 + 1) &&& 0xF) (saved.toNat % 0x10000)
    ssh := (m.pc + 2) % 0x10000
    ssl := saved.toNat % 0x10000 }

theorem execute_do {i : DoInstr κ} (hcode : code m.pc = some (.doLoop i)) (hfits : m.pc + 2 ≤ pramSize)
    (hidle : m.loopRep = false) (hroom : m.top.toNat + 2 ≤ 15) :
    ∃ saved : Sr, saved &&& lf = m.data.sr &&& lf ∧ execute code m = (i.entered m saved).endTest := by
  have hnext : ((m.sp + 1) &&& 0xF).toNat < 15 := by
    have hcount := top_succ m.sp (by unfold Machine.top at hroom; omega)
    unfold Machine.top at hroom
    omega
  rw [execute_eq hcode hfits, Instr.emu]
  unfold DoInstr.emu DoInstr.entered DoInstr.taken
  rw [stackPush_eq (by omega), bind_some]
  dsimp only
  cases i.readsFirst with
  | true =>
    refine ⟨(i.operand.read m.data).2.sr, i.operand.read_lf m.data, ?_⟩
    rw [if_pos rfl, stackPush_eq (by exact hnext), map_some, bind_some, updatePc_idle (by exact hidle)]
    rfl
  | false =>
    refine ⟨m.data.sr, rfl, ?_⟩
    rw [if_neg (by decide), stackPush_eq (by exact hnext), map_some, bind_some, updatePc_idle (by exact hidle)]
    rfl

theorem taken_lf (i : DoInstr κ) (d : Data κ) : (i.taken d).2.sr &&& lf = lf := by
  unfold DoInstr.taken
  split
  · exact setLf_lf _
  · rw [i.operand.read_lf, setLf_lf]

theorem taken_eq_iff {i : DoInstr κ} {d : Data κ} :
    (i.taken d).1 % 0x10000 = (i.operand.read d).1 % 0x10000 ∧ (i.taken d).2 = (i.operand.read d).2.setLf ↔
      (i.readsFirst = false → (i.operand.read d.setLf).1 % 0x10000 = (i.operand.read d).1 % 0x10000 ∧
        (i.operand.read d.setLf).2 = (i.operand.read d).2.setLf) := by
  unfold DoInstr.taken
  cases i.readsFirst <;> simp

theorem endTest_again {start : Nat} (hflag : m.data.sr &&& lf ≠ 0) (hend : m.pc = m.la + 1)
    (hlc : m.lc % 0x10000 = (r + 2) % 0x10000) (hr : r + 1 < 0x10000) (hssh : m.ssh = start) :
    m.endTest = some { m with lc := r + 1, pc := start } := by
  subst hssh
  unfold Machine.endTest
  rw [if_pos ⟨hflag, hend⟩, decremented_pos hlc hr, if_neg (succ_ne_zero r)]

theorem rounds_go (hbody : body.Works code) (hends : body.endsWithInstr = true)
    (hfits : body.Fits code m) (hend : m.pc + body.size = m.la + 1) (hflag : m.data.sr &&& lf ≠ 0)
    (hshown : m.Shown) (hssh : m.ssh = m.pc) (hlc : m.lc = (r + 1) % 0x10000) (hr : r < 0x10000)
    (hclean : ∀ k < r + 1, body.Clean (body.exec^[k] m.data)) :
    ∃ m', Kept m m' ∧ m'.lc = 1 ∧ m'.pc = m'.la + 1 ∧ m'.data = body.exec^[r + 1] m.data ∧
      Goes code m.pc (m.pc + body.size) m m'.endTest := by
  induction r generalizing m with
  | zero =>
    obtain ⟨m', hran, hgoes⟩ := hbody m hfits (hclean 0 (succ_pos 0))
    rw [if_pos hends] at hgoes
    refine ⟨m', hran.toKept, ?_, ?_, hran.data, hgoes⟩
    · rw [hran.lc, hlc]
    · rw [hran.pc, hran.la, hend]
  | succ r ih =>
    obtain ⟨m', hran, hgoes⟩ := hbody m hfits (hclean 0 (succ_pos _))
    have hflag' : m'.data.sr &&& lf ≠ 0 := by
      rw [hran.data, body.exec_lf]
      exact hflag
    have hback : m'.ssh = m.pc := (hran.shown hshown).1.trans hssh
    rw [if_pos hends, endTest_again hflag' (by rw [hran.pc, hran.la, hend])
      (by rw [hran.lc, hlc, mod_mod]) hr hback] at hgoes
    have hkept : Kept m { m' with lc := r + 1, pc := m.pc } := { hran.toKept with }
    have hfits' : body.Fits code { m' with lc := r + 1, pc := m.pc } :=
      hfits.next hfits.loaded (Nat.le_refl _) rfl (Nat.le_refl _) (hran.data ▸ body.exec_lf m.data) hkept hr
    obtain ⟨m'', hkept', hlc'', hpc'', hdata'', hgoes''⟩ := ih hfits'
      (by rw [hkept.la]; exact hend) hflag' (hkept.shown_next hshown) hback
      (mod_eq_of_lt hr).symm (by omega) fun k hk => by
        have hnext := hclean (k + 1) (by omega)
        rw [iterate_succ_apply, ← hran.data] at hnext
        exact hnext
    refine ⟨m'', hkept.trans hkept', hlc'', hpc'', ?_, hgoes.trans hgoes''⟩
    rw [hdata'', iterate_succ_apply _ (r + 1), ← hran.data]

theorem cleared_eq_putLf_iff {d : Data κ} {sr : Sr} :
    { d with sr := d.sr &&& 0x7F ||| sr &&& lf } = d.putLf sr ↔ d.sr &&& 0x7F80 = 0 := by
  have hlow : d.sr &&& ~~~lf = d.sr &&& 0x7F ||| d.sr &&& 0x7F80 := by
    rw [← BitVec.and_or_distrib_left]
    rfl
  unfold Data.putLf
  rw [hlow, Data.mk.injEq]
  constructor
  · intro h
    have := congrArg (· &&& 0x7F80) h.2
    simpa [BitVec.and_or_distrib_right, BitVec.and_assoc, lf] using this.symm
  · intro h
    rw [h]
    simp

theorem leaveLoop_eq (hsp : m.sp = sp + 1 + 1) (hroom : (sp &&& 0xF).toNat + 2 ≤ 15) : m.leaveLoop = some { m with
      data := { m.data with sr := m.data.sr &&& 0x7F ||| BitVec.ofNat 16 m.ssl &&& lf }
      la := m.stackH ((sp + 1) &&& 0xF)
      lc := m.stackL ((sp + 1) &&& 0xF)
      sp
      ssh := m.stackH (sp &&& 0xF)
      ssl := m.stackL (sp &&& 0xF) } := by
  have hnext := top_succ sp (by omega)
  unfold Machine.leaveLoop
  rw [stackPop_eq hsp (by omega), bind_some, stackPop_eq rfl (by omega)]
  rfl

theorem update_twice_below {j : BitVec 6} (hroom : (sp &&& 0xF).toNat + 2 ≤ 15) (hj : j.toNat ≤ (sp &&& 0xF).toNat) :
    update (update f ((sp + 1) &&& 0xF) x) ((sp + 1 + 1) &&& 0xF) y j = f j := by
  have hnext := top_succ sp (by omega)
  have hnext' := top_succ (sp + 1) (by omega)
  have hne : j ≠ (sp + 1) &&& 0xF := fun h => by
    rw [h] at hj
    omega
  have hne' : j ≠ (sp + 1 + 1) &&& 0xF := fun h => by
    rw [h] at hj
    omega
  rw [update_of_ne hne', update_of_ne hne]

theorem update_twice_first (hroom : (sp &&& 0xF).toNat + 2 ≤ 15) :
    update (update f ((sp + 1) &&& 0xF) x) ((sp + 1 + 1) &&& 0xF) y ((sp + 1) &&& 0xF) = x := by
  have hnext := top_succ (sp + 1) (by rw [top_succ sp (by omega)]; omega)
  have hne : (sp + 1) &&& 0xF ≠ (sp + 1 + 1) &&& 0xF := fun h => by
    rw [← h] at hnext
    omega
  rw [update_of_ne hne, update_self]

theorem entered_fits {i : DoInstr κ} (hfits : (Block.loop i body rest).Fits code m) :
    body.Fits code (i.entered m saved) := by
  obtain ⟨-, hloop, -, hloaded, -⟩ := hfits.loaded
  have hroom := hfits.room
  have hsize := hfits.size
  simp only [Block.depth] at hroom
  simp only [Block.size] at hsize
  have hnext := top_succ m.sp (by unfold Machine.top at hroom; omega)
  have hnext' := top_succ (m.sp + 1) (by unfold Machine.top at hroom; omega)
  refine ⟨hloaded, ?_, ⟨hfits.ready.idle, mod_lt _ (by decide), mod_lt _ (by decide)⟩, fun _ a _ hhigh => ?_, ?_⟩
  · simp only [DoInstr.entered]
    omega
  · simp only [DoInstr.entered] at hhigh ⊢
    omega
  · change ((m.sp + 1 + 1) &&& 0xF).toNat + _ ≤ 15
    unfold Machine.top at hroom
    omega

theorem entered_shown (i : DoInstr κ) (m : Machine κ) (saved : Sr) : (i.entered m saved).Shown := by
  simp [Machine.Shown, Machine.top, DoInstr.entered]

theorem loop_left {i : DoInstr κ} (hroom : (m.sp &&& 0xF).toNat + 2 ≤ 15) (hready : Ready m)
    (hsaved : saved &&& lf = m.data.sr &&& lf) (hkept : Kept (i.entered m saved) m')
    (hlc : m'.lc = 1) (hend : m'.pc = m'.la + 1) (hflag : m'.data.sr &&& lf ≠ 0) :
    ∃ m₂, m'.endTest = some m₂ ∧ Kept m m₂ ∧ m₂.lc = m.lc ∧ m₂.pc = m'.pc ∧
      m₂.data = { m'.data with sr := m'.data.sr &&& 0x7F ||| m.data.sr &&& lf } := by
  have hnext := top_succ m.sp (by omega)
  have hnext' := top_succ (m.sp + 1) (by omega)
  have hssl : BitVec.ofNat 16 m'.ssl &&& lf = m.data.sr &&& lf := by
    rw [(hkept.shown (entered_shown i m saved)).2, ← hsaved]
    change BitVec.ofNat 16 (saved.toNat % 0x10000) &&& lf = saved &&& lf
    congr 1
    apply BitVec.eq_of_toNat_eq
    simpa using saved.isLt
  have htop : (i.entered m saved).top = (m.sp + 1 + 1) &&& 0xF := rfl
  have hbelowH : ∀ j : BitVec 6, j.toNat ≤ (m.sp &&& 0xF).toNat → m'.stackH j = m.stackH j := fun j hj =>
    (hkept.stackH j (by rw [htop]; omega)).trans (update_twice_below hroom hj)
  have hbelowL : ∀ j : BitVec 6, j.toNat ≤ (m.sp &&& 0xF).toNat → m'.stackL j = m.stackL j := fun j hj =>
    (hkept.stackL j (by rw [htop]; omega)).trans (update_twice_below hroom hj)
  have hla : m'.stackH ((m.sp + 1) &&& 0xF) = m.la := by
    rw [hkept.stackH _ (by rw [htop]; omega)]
    exact (update_twice_first hroom).trans (mod_eq_of_lt hready.la)
  have hlc' : m'.stackL ((m.sp + 1) &&& 0xF) = m.lc := by
    rw [hkept.stackL _ (by rw [htop]; omega)]
    exact (update_twice_first hroom).trans (mod_eq_of_lt hready.lc)
  have hleave : m'.endTest = { m' with lc := 0 }.leaveLoop := by
    unfold Machine.endTest
    rw [if_pos ⟨hflag, hend⟩, decremented_one (by rw [hlc]), if_pos rfl]
  have hsp : m'.sp = m.sp + 1 + 1 := hkept.sp
  rw [hleave, leaveLoop_eq (m := { m' with lc := 0 }) hsp hroom]
  refine ⟨_, rfl, ?_, hlc', rfl, by rw [← hssl]⟩
  exact { idle := hkept.idle, la := hla, sp := rfl, stackH := hbelowH, stackL := hbelowL,
          shown := fun hm => ⟨(hbelowH _ (Nat.le_refl _)).trans hm.1.symm,
            (hbelowL _ (Nat.le_refl _)).trans hm.2.symm⟩ }

/-- The machine stands behind the `DO` instruction, with the operand in the loop counter. -/
theorem loop_entered {i : DoInstr κ} (hfits : (Block.loop i body rest).Fits code m) :
    ∃ saved : Sr, saved &&& lf = m.data.sr &&& lf ∧ execute code m = some (i.entered m saved) := by
  obtain ⟨hcode, hloop, hpos, -⟩ := hfits.loaded
  have hsize := hfits.size
  have hroom := hfits.room
  simp only [Block.size] at hsize
  simp only [Block.depth] at hroom
  obtain ⟨saved, hsaved, hstep⟩ := execute_do hcode (by omega) hfits.ready.idle (by omega)
  -- The loop cannot end with the instruction that starts it, since its body is not empty.
  refine ⟨saved, hsaved, hstep.trans (endTest_of_ne fun _ => ?_)⟩
  simp only [DoInstr.entered]
  omega

/-- All the rounds of a loop, up to what the end of the loop does to the status register. -/
theorem loop_goes {i : DoInstr κ} (hbody : body.Works code) (hfits : (Block.loop i body rest).Fits code m)
    (htaken : (i.taken m.data).1 % 0x10000 = (i.operand.read m.data).1 % 0x10000 ∧
      (i.taken m.data).2 = (i.operand.read m.data).2.setLf)
    (hends : body.endsWithInstr = true) (hrounds : ∀ k < rounds (i.operand.read m.data).1,
      body.Clean (body.exec^[k] (i.operand.read m.data).2.setLf)) :
    let d := body.exec^[rounds (i.operand.read m.data).1] (i.operand.read m.data).2.setLf
    ∃ m₂, Arrives code m (2 + body.size) m₂ ∧ Kept m m₂ ∧ m₂.lc = m.lc ∧
      m₂.data = { d with sr := d.sr &&& 0x7F ||| m.data.sr &&& lf } := by
  obtain ⟨-, hloop, -⟩ := hfits.loaded
  have hsize := hfits.size
  have hroom := hfits.room
  simp only [Block.size, pramSize] at hsize
  simp only [Block.depth, Machine.top] at hroom
  obtain ⟨saved, hsaved, hstep⟩ := loop_entered hfits
  have hgoes : Goes code m.pc (m.pc + (2 + body.size)) m (some (i.entered m saved)) :=
    hstep ▸ .step (Nat.le_refl _) (by omega)
  obtain ⟨r, hr⟩ : ∃ r, rounds (i.operand.read m.data).1 = r + 1 :=
    exists_eq_succ_of_ne_zero (Nat.ne_of_gt (rounds_pos _))
  have hle := rounds_le (i.operand.read m.data).1
  have hflag : (i.entered m saved).data.sr &&& lf ≠ 0 := by
    rw [show (i.entered m saved).data = (i.taken m.data).2 from rfl, taken_lf]
    decide
  have hentered : (i.entered m saved).data = (i.operand.read m.data).2.setLf := htaken.2
  rw [hr, ← hentered] at hrounds
  obtain ⟨m', hkept, hlc, hpc, hdata, hgoes'⟩ := rounds_go hbody hends (entered_fits hfits)
    (by simp only [DoInstr.entered]; omega) hflag (entered_shown i m saved)
    (mod_eq_of_lt (by omega)) (by rw [← hr, rounds_mod]; exact htaken.1) (by omega) hrounds
  obtain ⟨m₂, htest, hkept₂, hlc₂, hpc₂, hdata₂⟩ := loop_left (by omega) hfits.ready hsaved hkept hlc hpc
    (by rw [hdata, iterate_lf body.exec_lf]; exact hflag)
  rw [htest] at hgoes'
  refine ⟨m₂, ⟨hgoes.trans (hgoes'.mono ?_ ?_), ?_⟩, hkept₂, hlc₂, ?_⟩
  · exact le_add_right _ 2
  · exact Nat.le_of_eq (Nat.add_assoc _ _ _)
  · rw [hpc₂, hpc, hkept.la]
    simp only [DoInstr.entered]
    omega
  · rw [hdata₂, hdata, hr, hentered]

theorem loop_works {i : DoInstr κ} (hbody : body.Works code) (hrest : rest.Works code) :
    (Block.loop i body rest).Works code := by
  intro m hfits hclean
  obtain ⟨-, -, -, -, hloaded⟩ := hfits.loaded
  obtain ⟨hloop, hrounds, hcleanRest⟩ := hclean
  obtain ⟨m₂, ⟨hgoes, hpc⟩, hkept, hlc, hdata⟩ := loop_goes hbody hfits (taken_eq_iff.mpr hloop.blind) hloop.ends hrounds
  rw [cleared_eq_putLf_iff.mpr hloop.zero] at hdata
  have hpc' : m₂.pc = m.pc + 2 + body.size := by omega
  have hsize : m.pc + (Block.loop i body rest).size = m₂.pc + rest.size := by
    rw [hpc, Block.size]
    omega
  obtain ⟨m₃, hran, hgoes₃⟩ := hrest m₂ (hfits.next (hpc' ▸ hloaded) (Nat.le_max_right _ _)
    hsize.symm (by omega) (by rw [hdata, putLf_lf]) hkept (hlc ▸ hfits.ready.lc))
    (hdata ▸ hcleanRest)
  refine ⟨m₃, ?_, (hgoes.mono (Nat.le_refl _) (by omega)).trans (hgoes₃.mono (by omega) (by omega))⟩
  · refine { toKept := hkept.trans hran.toKept, lc := hran.lc.trans hlc, pc := ?_, data := ?_ }
    · rw [hran.pc, hsize]
    · rw [hran.data, hdata, Block.exec]

/-- By induction over the block: loops nest as the blocks do. -/
theorem block_works (b : Block κ) : b.Works code := by
  induction b with
  | done => exact done_works
  | plain i rest ih => exact plain_works ih
  | rep r i rest ih => exact rep_works ih
  | loop i body rest ihBody ihRest => exact loop_works ihBody ihRest

/-! ## What a loop is to do -/

/-- The loop takes its operand as it was before, and the machine arrives behind the body with the data
of that many rounds and the loop registers as before. -/
def DoInstr.Runs (code : Nat → Option (Instr κ)) (i : DoInstr κ) (body : Block κ) (d : Data κ) : Prop :=
  ∀ m : Machine κ, m.data = d → (Block.loop i body .done).Fits code m →
    (∃ m₁, execute code m = some m₁ ∧ m₁.lc = (i.operand.read d).1 % 0x10000 ∧
      m₁.data = (i.operand.read d).2.setLf) ∧
    ∃ m', Arrives code m (2 + body.size) m' ∧ m'.data = (Block.loop i body .done).exec d ∧
      m'.la = m.la ∧ m'.lc = m.lc ∧ m'.sp = m.sp

theorem loop_runs {i : DoInstr κ} {d : Data κ} (hclean : i.Clean body d)
    (hrounds : ∀ k < rounds (i.operand.read d).1, body.Clean (body.exec^[k] (i.operand.read d).2.setLf)) :
    i.Runs code body d := by
  rintro m rfl hfits
  have htaken := taken_eq_iff.mpr hclean.blind
  obtain ⟨saved, -, hstep⟩ := loop_entered hfits
  obtain ⟨m₂, harrives, hkept, hlc, hdata⟩ := loop_goes (block_works body) hfits htaken hclean.ends hrounds
  rw [cleared_eq_putLf_iff.mpr hclean.zero] at hdata
  exact ⟨⟨_, hstep, htaken⟩, m₂, harrives, hdata, hkept.la, hlc, hkept.sp⟩

/-- Where the bodies run as they should, a loop does so only under the conditions: if the body ends with
a loop, this one's two stack entries stay, and else the end of the loop clears the bits. -/
theorem loop_clean {i : DoInstr κ} (hfits : (Block.loop i body rest).Fits code m)
    (hrounds : ∀ k < rounds (i.operand.read m.data).1, body.Clean (body.exec^[k] (i.operand.read m.data).2.setLf))
    (hruns : i.Runs code body m.data) : i.Clean body m.data := by
  obtain ⟨hcode, hloop, hpos, hloaded, -⟩ := hfits.loaded
  have hsize := hfits.size
  have hroom := hfits.room
  simp only [Block.size] at hsize
  simp only [Block.depth] at hroom
  have halone : (Block.loop i body .done).Fits code m := by
    refine ⟨⟨hcode, hloop, hpos, hloaded, trivial⟩, ?_, hfits.ready, fun hflag a hlow hhigh => ?_, ?_⟩
    · simp only [Block.size]
      omega
    · simp only [Block.size] at hhigh
      exact hfits.within hflag a hlow (by simp only [Block.size]; omega)
    · simp only [Block.depth]
      omega
  obtain ⟨⟨m₁, hstep₁, htaken⟩, m', harrives, hdata, -, -, hsp⟩ := hruns m rfl halone
  obtain ⟨saved, -, hstep⟩ := loop_entered hfits
  obtain rfl := Option.some.inj (hstep.symm.trans hstep₁)
  have hends : body.endsWithInstr = true := by
    by_contra hends
    have hentered : (i.entered m saved).data = (i.operand.read m.data).2.setLf := htaken.2
    obtain ⟨m₂, hran, hgoes⟩ := block_works body (i.entered m saved) (entered_fits hfits)
      (hentered ▸ hrounds 0 (rounds_pos _))
    rw [if_neg hends] at hgoes
    have harrives₂ : Arrives code m (2 + body.size) m₂ := by
      have hfirst : Goes code m.pc (m.pc + (2 + body.size)) m (some (i.entered m saved)) :=
        hstep ▸ .step (Nat.le_refl _) (by omega)
      refine ⟨hfirst.trans (hgoes.mono (le_add_right _ 2) (Nat.le_of_eq (Nat.add_assoc _ _ _))), ?_⟩
      rw [hran.pc]
      exact Nat.add_assoc _ _ _
    have hleft : m.sp + 1 + 1 = m.sp := hran.sp.symm.trans (harrives.unique harrives₂ ▸ hsp)
    revert hleft
    generalize m.sp = sp
    decide +revert
  refine ⟨taken_eq_iff.mp htaken, hends, ?_⟩
  · obtain ⟨m₂, harrives₂, -, -, hdata₂⟩ := loop_goes (block_works body) hfits htaken hends hrounds
    rw [← harrives.unique harrives₂, hdata, Block.exec] at hdata₂
    exact cleared_eq_putLf_iff.mp hdata₂.symm

theorem Block.Fits.atData {start : Nat} {d : Data κ} (hfits : b.Fits code m) (hloaded : rest.Loaded code start)
    (hdepth : rest.depth ≤ b.depth) (hpc : start + rest.size = m.pc + b.size) (hafter : m.pc ≤ start)
    (hlf : d.sr &&& lf = m.data.sr &&& lf) : rest.Fits code { m with pc := start, data := d } :=
  hfits.next hloaded hdepth hpc hafter hlf (.moved hfits.ready.idle) hfits.ready.lc

theorem block_runs (b : Block κ) (d : Data κ) (h : b.Clean d) : b.EachLoop (DoInstr.Runs code) d := by
  induction b generalizing d with
  | done => trivial
  | plain i rest ih => exact ih _ h
  | rep r i rest ih => exact ih _ h
  | loop i body rest ihBody ihRest =>
    exact ⟨loop_runs h.1 h.2.1, fun k hk => ihBody _ (h.2.1 k hk), ihRest _ h.2.2⟩

theorem block_clean (b : Block κ) (m : Machine κ) (hfits : b.Fits code m)
    (h : b.EachLoop (DoInstr.Runs code) m.data) : b.Clean m.data := by
  induction b generalizing m with
  | done => trivial
  | plain i rest ih =>
    have hlen := i.len_pos
    exact ih _ (hfits.atData hfits.loaded.2 (Nat.le_refl _) (by simp only [Block.size]; omega) (by omega)
      (i.act_lf _)) h
  | rep r i rest ih =>
    exact ih _ (hfits.atData hfits.loaded.2.2 (Nat.le_refl _) (by simp only [Block.size]; omega) (by omega)
      ((iterate_lf i.act_lf _ _).trans (r.operand.read_lf _))) h
  | loop i body rest ihBody ihRest =>
    obtain ⟨hruns, hbody, hrest⟩ := h
    have hrounds : ∀ k < rounds (i.operand.read m.data).1,
        body.Clean (body.exec^[k] (i.operand.read m.data).2.setLf) := by
      intro k hk
      have hentered : body.Fits code (i.entered m 0) := entered_fits hfits
      refine ihBody _ (hentered.atData hentered.loaded (Nat.le_refl _) rfl (Nat.le_refl _) ?_) (hbody k hk)
      rw [iterate_lf body.exec_lf, setLf_lf]
      exact (taken_lf i m.data).symm
    refine ⟨loop_clean hfits hrounds hruns, hrounds, ihRest _ (hfits.atData hfits.loaded.2.2.2.2
      (Nat.le_max_right _ _) (by simp only [Block.size]; omega) (by omega) (putLf_lf _ _)) hrest⟩

/-- Nested `DO`, `DOR` and `REP` loops run as often as their operands say, execution goes on behind
them, and the loop registers are as before, exactly when each loop meets the conditions. -/
theorem nested_loops_run_iff (code : Nat → Option (Instr κ)) (b : Block κ) (m : Machine κ)
    (hfits : b.Fits code m) (hout : m.data.sr &&& lf ≠ 0 → m.pc + b.size ≠ m.la + 1) :
    b.EachLoop (DoInstr.Runs code) m.data ∧ (∃ m', Arrives code m b.size m' ∧
      m'.data = b.exec m.data ∧ m'.la = m.la ∧ m'.lc = m.lc ∧ m'.sp = m.sp) ↔
      b.EachLoop DoInstr.Clean m.data := by
  refine ⟨fun h => block_clean b m hfits h.1, fun hclean => ⟨block_runs b m.data hclean, ?_⟩⟩
  obtain ⟨m', hran, hgoes⟩ := block_works b m hfits hclean
  have htest : m'.endTest = some m' := endTest_of_ne fun hflag => by
    rw [hran.data, b.exec_lf] at hflag
    rw [hran.pc, hran.la]
    exact hout hflag
  rw [htest, ite_self] at hgoes
  exact ⟨m', ⟨hgoes, hran.pc⟩, hran.data, hran.la, hran.lc, hran.sp⟩

/-! ## Examples of code -/

def inc : Plain Nat where
  len := 1
  len_pos := Nat.one_pos
  act d := { d with rest := d.rest + 1 }
  act_lf _ := rfl

def mask : Plain Nat where
  len := 1
  len_pos := Nat.one_pos
  act d := { d with sr := d.sr ||| 0x100 }
  act_lf d := by
    rw [BitVec.and_or_distrib_right, show (0x100 : Sr) &&& lf = 0 from rfl]
    simp

def codeOf (instrs : List (Option (Instr Nat))) (addr : Nat) : Option (Instr Nat) :=
  (instrs[addr]?).join

def machine : Machine Nat where
  pc := 0
  data := { rest := 0, sr := 0 }
  la := 0
  lc := 0
  lcsave := 0
  sp := 0
  ssh := 0
  ssl := 0
  stackH _ := 0
  stackL _ := 0
  loopRep := false
  pcOnRep := false

def repEndsLoop : Block Nat := .loop (emuDoImm 2 4) (.plain inc (.rep (emuRepImm 3) inc .done)) .done

def repEndsLoopCode : Nat → Option (Instr Nat) :=
  codeOf [some (.doLoop (emuDoImm 2 4)), none, some (.plain inc), some (.rep (emuRepImm 3)),
    some (.plain inc)]

theorem machine_fits {code : Nat → Option (Instr Nat)} {b : Block Nat} (hloaded : b.Loaded code 0)
    (hsize : b.size ≤ pramSize) (hdepth : 2 * b.depth ≤ 15) : b.Fits code machine where
  loaded := hloaded
  size := by rwa [show machine.pc = 0 from rfl, Nat.zero_add]
  ready := ⟨rfl, by decide, by decide⟩
  within h := absurd rfl h
  room := by rwa [show machine.top.toNat = 0 from rfl, Nat.zero_add]

theorem repEndsLoop_fits : repEndsLoop.Fits repEndsLoopCode machine :=
  machine_fits ⟨rfl, rfl, by decide, ⟨rfl, rfl, rfl, trivial⟩, trivial⟩ (by decide) (by decide)

theorem repEndsLoop_clean : repEndsLoop.EachLoop DoInstr.Clean machine.data :=
  ⟨⟨fun _ => ⟨rfl, rfl⟩, rfl, by decide⟩, fun _ _ => trivial, trivial⟩

def maskLoop : Block Nat := .loop (emuDoImm 1 2) (.plain mask .done) .done

def maskLoopCode : Nat → Option (Instr Nat) :=
  codeOf [some (.doLoop (emuDoImm 1 2)), none, some (.plain mask)]

def sameEnd : Block Nat := .loop (emuDoImm 2 4) (.loop (emuDoImm 2 4) (.plain inc .done) .done) .done

def sameEndCode : Nat → Option (Instr Nat) :=
  codeOf [some (.doLoop (emuDoImm 2 4)), none, some (.doLoop (emuDoImm 2 4)), none, some (.plain inc)]

theorem executeMany_forall {P : Machine κ → Prop} {n : Nat} (hstuck : executeMany code m n = none)
    (hfew : ∀ count < n, ∀ m' ∈ executeMany code m count, P m') {count : Nat}
    (hcount : executeMany code m count = some m') : P m' := by
  rcases Nat.lt_or_ge count n with hlt | hge
  · exact hfew count hlt m' hcount
  · obtain ⟨more, rfl⟩ := Nat.exists_eq_add_of_le hge
    unfold executeMany at hstuck hcount
    rw [List.replicate_add, run_append, hstuck] at hcount
    cases hcount

theorem maskLoop_fits : maskLoop.Fits maskLoopCode machine :=
  machine_fits ⟨rfl, rfl, by decide, ⟨rfl, trivial⟩, trivial⟩ (by decide) (by decide)

theorem sameEnd_fits : sameEnd.Fits sameEndCode machine :=
  machine_fits ⟨rfl, rfl, by decide, ⟨rfl, rfl, by decide, ⟨rfl, trivial⟩, trivial⟩, trivial⟩ (by decide)
    (by decide)

theorem maskLoop_not_clean : ¬ maskLoop.EachLoop DoInstr.Clean machine.data :=
  fun h => absurd h.1.zero (by decide)

theorem nested_loops_run_iff_rep :
    (∃ m', Arrives repEndsLoopCode machine 5 m' ∧ m'.data = repEndsLoop.exec machine.data ∧
      m'.la = 0 ∧ m'.lc = 0 ∧ m'.sp = 0) ∧ (repEndsLoop.exec machine.data).rest = 8 ∧
    ¬ (maskLoop.EachLoop (DoInstr.Runs maskLoopCode) machine.data ∧
      ∃ m', Arrives maskLoopCode machine 3 m' ∧ m'.data = maskLoop.exec machine.data ∧
        m'.la = 0 ∧ m'.lc = 0 ∧ m'.sp = 0) :=
  ⟨((nested_loops_run_iff repEndsLoopCode repEndsLoop machine repEndsLoop_fits (fun h => absurd rfl h)).mpr
      repEndsLoop_clean).2, by decide,
    fun h => maskLoop_not_clean
      ((nested_loops_run_iff maskLoopCode maskLoop machine maskLoop_fits (fun h => absurd rfl h)).mp h)⟩

/-- The end of a loop clears the interrupt mask that its body has set, and a loop that ends together
with the loop in its body is left after one round. -/
theorem loop_loses_mask :
    (maskLoop.Fits maskLoopCode machine ∧ ∀ count m', executeMany maskLoopCode machine count = some m' →
      m'.pc = machine.pc + maskLoop.size → m'.data.sr = 0 ∧ (maskLoop.exec machine.data).sr = 0x100) ∧
    (sameEnd.Fits sameEndCode machine ∧ ∀ count m', executeMany sameEndCode machine count = some m' →
      m'.pc = machine.pc + sameEnd.size → m'.data.rest = 2 ∧ (sameEnd.exec machine.data).rest = 4) := by
  refine ⟨⟨maskLoop_fits, fun count m' hcount => ?_⟩, sameEnd_fits, fun count m' hcount => ?_⟩
  · refine executeMany_forall (n := 3) (P := fun m' => m'.pc = machine.pc + maskLoop.size →
      m'.data.sr = 0 ∧ (maskLoop.exec machine.data).sr = 0x100) rfl ?_ hcount
    decide +kernel
  · refine executeMany_forall (n := 5) (P := fun m' => m'.pc = machine.pc + sameEnd.size →
      m'.data.rest = 2 ∧ (sameEnd.exec machine.data).rest = 4) rfl ?_ hcount
    decide +kernel

end XogMobile.Apu.Dsp.Loop
