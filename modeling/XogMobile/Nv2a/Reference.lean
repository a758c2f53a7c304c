import XogMobile.Lib.Emit
import XogMobile.Nv2a.Pfifo

/-!
# A reference interpreter of push buffers

The interpreter reads the push buffer word by word. It is either between commands or inside one, and
it may be in a subroutine. The pusher keeps the same state in its registers, and every pass of its
loop, wherever the puller stalls and the pusher is entered again, takes the interpreter from the place
before to the place after: each data word is handed on once and in order, and only the words of a
squash are left out.
-/

namespace XogMobile.Nv2a

open Lib List Option

variable {ρ : Type}

/-- A command with data words left. `index` is the method's address divided by four. -/
structure Command where
  subchannel : Word
  (index count : Nat)
  inc : Bool
  deriving DecidableEq

def Command.ofCount (c : Command) : Option Command := if c.count = 0 then none else some c

variable {c : Command} {f f' : Pfifo} {mem : Word → Word} {G : Gpu ρ} {w : Word}
  {m m' : Machine ρ} {squash : Bool}

theorem Command.ofCount_of_ne (h : c.count ≠ 0) : c.ofCount = some c := if_neg h

theorem Command.ofCount_of_eq (h : c.count = 0) : c.ofCount = none := if_pos h

@[ext] structure Place where
  pc : Word
  command : Option Command
  ret : Option Word
  deriving DecidableEq

def Command.next (c : Command) : Option Command :=
  Command.ofCount { c with
    index := if c.inc then (c.index + 1) % 2048 else c.index
    count := c.count - 1 }

def Command.ofHeader (w : Word) (inc : Bool) : Option Command :=
  Command.ofCount ⟨(w >>> 13) &&& 7, ((w &&& 0x1FFF) >>> 2).toNat, ((w >>> 18) &&& 0x7FF).toNat, inc⟩

def wordAfter (pc : Word) : Word := (pc + 4) &&& 0xFFFFFFFC

def Place.header (s : Place) (w : Word) : Option Place :=
  if w &&& 0xE0000003 = 0x20000000 then some { s with pc := w &&& 0x1FFFFFFF }
  else if w &&& 3 = 1 then some { s with pc := w &&& 0xFFFFFFFC }
  else if w &&& 3 = 2 then
    match s.ret with
    | none => some { s with pc := w &&& 0xFFFFFFFC, ret := some (wordAfter s.pc) }
    | some _ => none
  else if w = 0x00020000 then s.ret.map fun ret => { s with pc := ret, ret := none }
  else if w &&& 0xE0030003 = 0 then
    some { s with pc := s.pc + 4, command := Command.ofHeader w true }
  else if w &&& 0xE0030003 = 0x40000000 then
    some { s with pc := s.pc + 4, command := Command.ofHeader w false }
  else none

def Place.step (mem : Word → Word) (s : Place) : Option (Place × List Call) :=
  match s.command with
  | none => (s.header (mem s.pc)).map (·, [])
  | some c => some ({ s with pc := s.pc + 4, command := c.next },
      [⟨c.subchannel, 4 * c.index, mem s.pc⟩])

def Pfifo.ret (f : Pfifo) : Option Word :=
  if f.inSubroutine then some (f.dmaSubroutine &&& 0xFFFFFFFC) else none

def Pfifo.current (f : Pfifo) : Option Command :=
  Command.ofCount ⟨f.subchannel, f.method / 4, f.methodCount, f.inc⟩

def Pfifo.place (f : Pfifo) : Place := ⟨f.dmaGet, f.current, f.ret⟩

theorem current_of_ne (h : f.methodCount ≠ 0) : f.current = some ⟨f.subchannel, f.method / 4, f.methodCount, f.inc⟩ :=
  Command.ofCount_of_ne (c := ⟨_, _, f.methodCount, _⟩) h

theorem current_of_eq (h : f.methodCount = 0) : f.current = none :=
  Command.ofCount_of_eq (c := ⟨_, _, f.methodCount, _⟩) h

theorem current_of_dmaState (h : f'.dmaState = f.dmaState) : f'.current = f.current := by
  unfold Pfifo.current Pfifo.subchannel Pfifo.method Pfifo.methodCount Pfifo.inc
  rw [h]

theorem ret_of_dmaSubroutine (h : f'.dmaSubroutine = f.dmaSubroutine) : f'.ret = f.ret := by
  unfold Pfifo.ret Pfifo.inSubroutine
  rw [h]

theorem advance_ret (f : Pfifo) (n : Nat) : (f.advance n).ret = f.ret := ret_of_dmaSubroutine rfl

theorem place_eq {pc : Word} {ret : Option Word} (hstate : f'.dmaState = f.dmaState)
    (hget : f'.dmaGet = pc) (hret : f'.ret = ret) : f'.place = ⟨pc, f.current, ret⟩ := by
  rw [Pfifo.place, hget, current_of_dmaState hstate, hret]

theorem SamePlace.place (h : SamePlace f f') : f'.place = f.place :=
  place_eq h.dmaState h.dmaGet (ret_of_dmaSubroutine h.dmaSubroutine)

theorem step_place (hcount : f.methodCount ≠ 0) : f.place.step mem
      = some ((f.advance 1).place, [⟨f.subchannel, f.method, mem f.dmaGet⟩]) := by
  have hmethod : 4 * (f.method / 4) = f.method := Nat.mul_div_cancel' f.method_dvd
  have hindex : (f.advance 1).method / 4
      = if f.inc then (f.method / 4 + 1) % 2048 else f.method / 4 := by
    rw [f.advance_method]
    split <;> omega
  have hnext : (f.advance 1).current
      = Command.next ⟨f.subchannel, f.method / 4, f.methodCount, f.inc⟩ := by
    rw [Pfifo.current, f.advance_subchannel, f.advance_methodCount, f.advance_inc, hindex]
    rfl
  have hget : (f.advance 1).dmaGet = f.dmaGet + 4 := rfl
  simp only [Place.step, Pfifo.place, current_of_ne hcount, hmethod, hnext, advance_ret, hget]

def Entry.read : Entry → List Call
  | .data call => [call]
  | .squashed [endHeader, endParameter, beginHeader, beginParameter] =>
    [⟨(endHeader >>> 13) &&& 7, setBeginEnd, endParameter⟩,
      ⟨(beginHeader >>> 13) &&& 7, setBeginEnd, beginParameter⟩]
  | .squashed _ => []

theorem read_consumed_one (G : Gpu ρ) (f : Pfifo) :
    (Machine.consumed G f 1 false).flatMap Entry.read = [⟨f.subchannel, f.method, G.mem f.dmaGet⟩] := by
  simp [Machine.consumed, Machine.dataEntry, Entry.read]

theorem emits_data (n : Nat) (hcount : n < f.methodCount) (hrange : f.inc → f.method + 4 * (n + 1) ≤ 0x2000) :
    Emits (Place.step G.mem) f.place ((Machine.consumed G f (n + 1) false).flatMap Entry.read)
      (f.advance (n + 1)).place := by
  induction n generalizing f with
  | zero =>
    rw [read_consumed_one]
    exact Emits.single (step_place (by omega))
  | succ n ih =>
    have hwrap : f.inc → f.method + 4 * 1 < 8192 := fun hinc => by have := hrange hinc; omega
    have hadvance : (f.advance 1).advance (n + 1) = f.advance (n + 1 + 1) := by
      rw [Nat.add_comm (n + 1) 1]
      apply f.advance_advance
      intro hinc
      have := hwrap hinc
      omega
    have hrest := ih (f := f.advance 1) (by rw [f.advance_methodCount]; omega) (by
      rw [f.advance_inc, f.advance_method_of_lt hwrap]
      intro hinc
      have := hrange hinc
      rw [if_pos hinc]
      omega)
    rw [hadvance] at hrest
    rw [Machine.consumed_succ G f (n + 1) hwrap, flatMap_append, read_consumed_one]
    exact Emits.cons (step_place (by omega)) hrest

theorem and_mask_of_and_eq {mask v sub : Word} (h : w &&& mask = v) (hsub : mask &&& sub = sub) :
    w &&& sub = v &&& sub := by
  rw [← hsub, ← BitVec.and_assoc, h, hsub]

structure OneWordHeader (w : Word) : Prop where
  method : w &&& 0xA0000000 = 0
  count : (w >>> 18) &&& 0x7FF = 1

instance (w : Word) : Decidable (OneWordHeader w) :=
  decidable_of_iff (w &&& 0xA0000000 = 0 ∧ (w >>> 18) &&& 0x7FF = 1)
    ⟨fun h => ⟨h.1, h.2⟩, fun h => ⟨h.method, h.count⟩⟩

theorem OneWordHeader.kind (h : OneWordHeader w) (hmethod : LookaheadMethod w setBeginEnd) :
    w &&& 0xE0030003 = 0 ∨ w &&& 0xE0030003 = 0x40000000 := by
  have hlow : w &&& 0x00030003 = 0 := by
    rw [and_mask_of_and_eq hmethod (by decide)]
    decide
  have hsplit : w &&& 0xE0030003 = (w &&& 0xA0000000) ||| (w &&& 0x00030003) ||| (w &&& 0x40000000) := by
    rw [← BitVec.and_or_distrib_left, ← BitVec.and_or_distrib_left]
    rfl
  rw [hsplit, h.method, hlow, show (0x40000000 : Word) = BitVec.twoPow 32 30 from rfl, BitVec.and_twoPow]
  split
  · exact .inr (by decide)
  · exact .inl (by decide)

theorem OneWordHeader.ofHeader (h : OneWordHeader w) (hmethod : LookaheadMethod w setBeginEnd)
    (inc : Bool) : Command.ofHeader w inc = some ⟨(w >>> 13) &&& 7, setBeginEnd / 4, 1, inc⟩ := by
  have hindex : w &&& 0x1FFF = BitVec.ofNat 32 setBeginEnd := by
    rw [and_mask_of_and_eq hmethod (by decide)]
    decide
  rw [Command.ofHeader, hindex, h.count]
  exact Command.ofCount_of_ne Nat.one_ne_zero

theorem OneWordHeader.header (h : OneWordHeader w) (hmethod : LookaheadMethod w setBeginEnd) (s : Place) :
    ∃ inc, s.header w = some { s with
      pc := s.pc + 4
      command := some ⟨(w >>> 13) &&& 7, setBeginEnd / 4, 1, inc⟩ } := by
  have hlow : w &&& 3 = 0 := by
    rw [and_mask_of_and_eq hmethod (by decide)]
    decide
  have hreturn : w ≠ 0x00020000 := by
    rintro rfl
    exact absurd hmethod (by decide)
  have hkind := h.kind hmethod
  have hjump : w &&& 0xE0000003 ≠ 0x20000000 := by
    obtain hkind | hkind := hkind
    all_goals
      rw [and_mask_of_and_eq hkind (by decide)]
      decide
  unfold Place.header
  rw [if_neg hjump, hlow, if_neg (by decide), if_neg (by decide), if_neg hreturn]
  obtain hkind | hkind := hkind
  · exact ⟨true, by rw [if_pos hkind, h.ofHeader hmethod]⟩
  · refine ⟨false, ?_⟩
    rw [if_neg (by rw [hkind]; decide), if_pos hkind, h.ofHeader hmethod]

theorem OneWordHeader.emits {s : Place} (hcommand : s.command = none)
    (h : OneWordHeader (mem s.pc)) (hmethod : LookaheadMethod (mem s.pc) setBeginEnd) :
    Emits (Place.step mem) s [⟨(mem s.pc >>> 13) &&& 7, setBeginEnd, mem (s.pc + 4)⟩] { s with pc := s.pc + 8 } := by
  obtain ⟨inc, hheader⟩ := h.header hmethod s
  have hfirst : s.step mem = some ({ s with
      pc := s.pc + 4
      command := some ⟨(mem s.pc >>> 13) &&& 7, setBeginEnd / 4, 1, inc⟩ }, []) := by
    rw [Place.step, hcommand]
    simp only [hheader, map_some]
  have hnext : Command.next ⟨(mem s.pc >>> 13) &&& 7, setBeginEnd / 4, 1, inc⟩ = none := rfl
  have hpc : s.pc + 4 + 4 = s.pc + 8 := by rw [BitVec.add_assoc]; rfl
  have hsecond : Place.step mem { s with
      pc := s.pc + 4
      command := some ⟨(mem s.pc >>> 13) &&& 7, setBeginEnd / 4, 1, inc⟩ }
      = some ({ s with pc := s.pc + 8 }, [⟨(mem s.pc >>> 13) &&& 7, setBeginEnd, mem (s.pc + 4)⟩]) := by
    simp only [Place.step, hnext, hpc, ← hcommand]
    rfl
  exact Emits.cons hfirst (Emits.single hsecond)

theorem returnAddress (v : Word) : setMask v subroutineMask 1 &&& 0xFFFFFFFC = v &&& 0xFFFFFFFC := by
  have hmark : (1 : Word) <<< subroutineMask.ctz.toNat &&& subroutineMask = 1 := by decide +kernel
  have hclear : ~~~subroutineMask &&& 0xFFFFFFFC = (0xFFFFFFFC : Word) := by decide
  rw [setMask, hmark, BitVec.and_or_distrib_right, BitVec.and_assoc, hclear]
  simp

theorem inSubroutine_mark (v : Word) : (getMask (setMask v subroutineMask 1) subroutineMask != 0) = true := by
  rw [getMask_setMask]
  decide +kernel

theorem inSubroutine_unmark (v : Word) : (getMask (setMask v subroutineMask 0) subroutineMask != 0) = false := by
  rw [getMask_setMask]
  decide +kernel

theorem place_command (f : Pfifo) (w type : Word) (htype : type &&& 1 = type) : (f.command w type).place
      = ⟨f.dmaGet + 4, Command.ofHeader w (type == 0), f.ret⟩ := by
  have hinc : (f.command w type).inc = (type == 0) := by
    have hwidth : methodTypeMask >>> methodTypeMask.ctz.toNat = 1 := by decide +kernel
    rw [Pfifo.inc, Pfifo.command]
    rw [getMask_setMask, hwidth, htype]
  have hcount : (f.command w type).methodCount = ((w >>> 18) &&& 0x7FF).toNat := by
    rw [Pfifo.methodCount, Pfifo.command]
    rw [getMask_setMask_of_disjoint _ _ (by decide), getMask_setMask, methodCountMask_width,
      BitVec.and_assoc, BitVec.and_self]
  have hsubchannel : (f.command w type).subchannel = (w >>> 13) &&& 7 := by
    have hwidth : subchannelMask >>> subchannelMask.ctz.toNat = 7 := by decide +kernel
    rw [Pfifo.subchannel, Pfifo.command]
    rw [getMask_setMask_of_disjoint _ _ (by decide), getMask_setMask_of_disjoint _ _ (by decide),
      getMask_setMask, hwidth, BitVec.and_assoc, BitVec.and_self]
  have hmethod : (f.command w type).method / 4 = ((w &&& 0x1FFF) >>> 2).toNat := by
    have hshift : (w &&& 0x1FFF#32) >>> 2 &&& 0x7FF#32 = (w &&& 0x1FFF#32) >>> 2 := by
      rw [show 0x7FF#32 = 0x1FFF#32 >>> 2 from rfl, ← BitVec.ushiftRight_and_distrib, BitVec.and_assoc, BitVec.and_self]
    rw [Pfifo.method, Pfifo.command, Nat.mul_div_cancel _ (by omega)]
    rw [getMask_setMask_of_disjoint _ _ (by decide), getMask_setMask_of_disjoint _ _ (by decide),
      getMask_setMask_of_disjoint _ _ (by decide), getMask_setMask, methodMask_width]
    exact congrArg BitVec.toNat hshift
  have hcurrent : (f.command w type).current = Command.ofHeader w (type == 0) := by
    rw [Pfifo.current, hinc, hcount, hsubchannel, hmethod]
    rfl
  have hret : (f.command w type).ret = f.ret := ret_of_dmaSubroutine rfl
  have hget : (f.command w type).dmaGet = f.dmaGet + 4 := rfl
  simp only [Pfifo.place, hcurrent, hret, hget]

theorem place_jump (f : Pfifo) (rsvd jmp get : Word) :
    Pfifo.place { f with rsvdShadow := rsvd, jmpShadow := jmp, dmaGet := get }
      = ⟨get, f.current, f.ret⟩ :=
  @place_eq f { f with rsvdShadow := rsvd, jmpShadow := jmp, dmaGet := get } _ _ rfl rfl
    (ret_of_dmaSubroutine rfl)

theorem place_call (rsvd get : Word) : Pfifo.place { f with
        rsvdShadow := rsvd
        dmaSubroutine := setMask (f.dmaGet + 4) subroutineMask 1
        dmaGet := get }
      = ⟨get, f.current, some (wordAfter f.dmaGet)⟩ := by
  apply @place_eq f { f with
    rsvdShadow := rsvd
    dmaSubroutine := setMask (f.dmaGet + 4) subroutineMask 1
    dmaGet := get } _ _ rfl rfl
  rw [Pfifo.ret, Pfifo.inSubroutine]
  rw [inSubroutine_mark, returnAddress]
  rfl

theorem place_return (rsvd get : Word) : Pfifo.place { f with
        rsvdShadow := rsvd
        dmaGet := get
        dmaSubroutine := setMask f.dmaSubroutine subroutineMask 0 }
      = ⟨get, f.current, none⟩ := by
  apply @place_eq f { f with
    rsvdShadow := rsvd
    dmaGet := get
    dmaSubroutine := setMask f.dmaSubroutine subroutineMask 0 } _ _ rfl rfl
  rw [Pfifo.ret, Pfifo.inSubroutine]
  rw [inSubroutine_unmark]
  rfl

theorem header_place (f : Pfifo) (w : Word) : (f.header w).map Pfifo.place = f.place.header w := by
  have hsame : Pfifo.inSubroutine { f with rsvdShadow := w } = f.inSubroutine := rfl
  have hsame' : Pfifo.ret { f with rsvdShadow := w } = f.ret := ret_of_dmaSubroutine rfl
  rw [Pfifo.place]
  dsimp only [Pfifo.header, Place.header]
  rw [hsame]
  by_cases hold : w &&& 0xE0000003 = 0x20000000
  · rw [if_pos hold, if_pos hold]
    exact congrArg some (place_jump f w _ _)
  rw [if_neg hold, if_neg hold]
  by_cases hjump : w &&& 3 = 1
  · rw [if_pos hjump, if_pos hjump]
    exact congrArg some (place_jump f w _ _)
  rw [if_neg hjump, if_neg hjump]
  by_cases hcall : w &&& 3 = 2
  · rw [if_pos hcall, if_pos hcall]
    cases hin : f.inSubroutine with
    | true =>
      have hret : f.ret = some (f.dmaSubroutine &&& 0xFFFFFFFC) := by
        rw [Pfifo.ret, if_pos hin]
      rw [hret]
      rfl
    | false =>
      have hret : f.ret = none := by
        rw [Pfifo.ret, if_neg (Bool.eq_false_iff.mp hin)]
      rw [hret, if_neg Bool.false_ne_true]
      exact congrArg some (place_call w _)
  rw [if_neg hcall, if_neg hcall]
  by_cases hreturn : w = 0x00020000
  · rw [if_pos hreturn, if_pos hreturn]
    cases hin : f.inSubroutine with
    | true =>
      have hret : f.ret = some (f.dmaSubroutine &&& 0xFFFFFFFC) := by
        rw [Pfifo.ret, if_pos hin]
      rw [hret, if_pos rfl, map_some]
      exact congrArg some (place_return w _)
    | false =>
      have hret : f.ret = none := by
        rw [Pfifo.ret, if_neg (Bool.eq_false_iff.mp hin)]
      rw [hret]
      rfl
  rw [if_neg hreturn, if_neg hreturn]
  by_cases hinc : w &&& 0xE0030003 = 0
  · rw [if_pos hinc, if_pos hinc, map_some, place_command _ w 0 (by decide)]
    rfl
  rw [if_neg hinc, if_neg hinc]
  by_cases hnonInc : w &&& 0xE0030003 = 0x40000000
  · rw [if_pos hnonInc, if_pos hnonInc, map_some, place_command _ w 1 (by decide)]
    rfl
  · rw [if_neg hnonInc, if_neg hnonInc]
    rfl

/-- The words of a squash are two commands of their own behind the last data word of a command. -/
structure Genuine (G : Gpu ρ) (f : Pfifo) : Prop where
  count : f.methodCount = 1
  endHeader : OneWordHeader (G.mem (f.dmaGet + 4))
  beginHeader : OneWordHeader (G.mem (f.dmaGet + 12))

instance (G : Gpu ρ) (f : Pfifo) : Decidable (Genuine G f) :=
  decidable_of_iff (f.methodCount = 1 ∧ OneWordHeader (G.mem (f.dmaGet + 4)) ∧
    OneWordHeader (G.mem (f.dmaGet + 12)))
    ⟨fun h => ⟨h.1, h.2.1, h.2.2⟩, fun h => ⟨h.count, h.endHeader, h.beginHeader⟩⟩

theorem place_advance_of_le {n : Nat} (h : f.methodCount ≤ n) :
    (f.advance n).place = ⟨f.dmaGet + 4 * BitVec.ofNat 32 n, none, f.ret⟩ := by
  have hcurrent : (f.advance n).current = none := by
    apply current_of_eq
    rw [f.advance_methodCount]
    omega
  have hget : (f.advance n).dmaGet = f.dmaGet + 4 * BitVec.ofNat 32 n := rfl
  rw [Pfifo.place, hcurrent, advance_ret, hget]

theorem Genuine.emits (h : Genuine G f) (hpeeked : Peeked G f.dmaGet) :
    Emits (Place.step G.mem) f.place ((Machine.consumed G f 1 true).flatMap Entry.read) (f.advance 5).place := by
  have hle := h.count.le
  have hplace : (f.advance 1).place = ⟨f.dmaGet + 4, none, f.ret⟩ := place_advance_of_le hle
  have hplace' : (f.advance 5).place = ⟨f.dmaGet + 20, none, f.ret⟩ := place_advance_of_le (hle.trans (by omega))
  have hadd : ∀ a b : Word, f.dmaGet + a + b = f.dmaGet + (a + b) := fun a b => BitVec.add_assoc _ _ _
  have hdata := @step_place f G.mem (by rw [h.count]; omega)
  have hend := OneWordHeader.emits (s := ⟨f.dmaGet + 4, none, f.ret⟩) rfl h.endHeader
    hpeeked.endMethod
  have hbegin := OneWordHeader.emits (s := ⟨f.dmaGet + 12, none, f.ret⟩) rfl h.beginHeader
    hpeeked.beginMethod
  simp only [hadd] at hend hbegin
  rw [hplace] at hdata
  have hread : (Machine.consumed G f 1 true).flatMap Entry.read
      = [⟨f.subchannel, f.method, G.mem f.dmaGet⟩] ++
        ([⟨(G.mem (f.dmaGet + 4) >>> 13) &&& 7, setBeginEnd, G.mem (f.dmaGet + 8)⟩] ++
          [⟨(G.mem (f.dmaGet + 12) >>> 13) &&& 7, setBeginEnd, G.mem (f.dmaGet + 16)⟩]) := by
    simp [Machine.consumed, Machine.dataEntry, Entry.read]
  rw [hread, hplace']
  exact Emits.cons hdata (hend.trans hbegin)

def Entry.isSquashed : Entry → Bool
  | .data _ => false
  | .squashed _ => true

def Machine.squashes (G : Gpu ρ) (squash : Bool) (m : Machine ρ) (e : FifoEvent) : Bool :=
  (m.step G squash e).any fun m' => (m'.trace.drop m.trace.length).any Entry.isSquashed

/-- The words of a squash: the headers of `SET_BEGIN_END` with `END` and with a primitive. -/
def SquashedPair (words : List Word) : Prop :=
  ∃ endHeader beginHeader primitive, words = [endHeader, 0, beginHeader, primitive] ∧
    LookaheadMethod endHeader setBeginEnd ∧ LookaheadMethod beginHeader setBeginEnd

/-- The entries are what the reference parser reads between the two places. -/
structure Reads (G : Gpu ρ) (m m' : Machine ρ) (entries : List Entry) : Prop where
  trace : m'.trace = m.trace ++ entries
  emits : Emits (Place.step G.mem) m.pfifo.place (entries.flatMap Entry.read) m'.pfifo.place
  pair : ∀ words, .squashed words ∈ entries → SquashedPair words

theorem Reads.of_samePlace (htrace : m'.trace = m.trace) (hplace : m'.pfifo.place = m.pfifo.place) :
    Reads G m m' [] where
  trace := by rw [htrace, append_nil]
  emits := by
    rw [hplace]
    exact Emits.refl _
  pair := nofun

theorem Reads.trans {m'' : Machine ρ} {entries entries' : List Entry} (h : Reads G m m' entries)
    (h' : Reads G m' m'' entries') : Reads G m m'' (entries ++ entries') where
  trace := by rw [h'.trace, h.trace, append_assoc]
  emits := by
    rw [flatMap_append]
    exact h.emits.trans h'.emits
  pair words hmem := by
    obtain hmem | hmem := mem_append.mp hmem
    · exact h.pair words hmem
    · exact h'.pair words hmem

theorem DataStep.reads {progress : Bool}
    (h : DataStep G squash (min m.pfifo.methodCount m.pfifo.available) m m' progress)
    (hgenuine : (m'.trace.drop m.trace.length).any Entry.isSquashed → Genuine G m.pfifo) :
    ∃ entries, Reads G m m' entries := by
  cases h with
  | stalled place trace => exact ⟨[], .of_samePlace trace place.place⟩
  | processed n squashed takes place trace =>
    refine ⟨Machine.consumed G m.pfifo n squashed, ?_⟩
    have hpos := takes.pos
    have hle := takes.le
    cases squashed with
    | false =>
      refine ⟨trace, ?_, ?_⟩
      · rw [place.place]
        obtain ⟨n, rfl⟩ := Nat.exists_eq_succ_of_ne_zero hpos.ne'
        exact emits_data n (by omega) takes.range
      · intro words hmem
        simp [Machine.consumed, Machine.dataEntry] at hmem
    | true =>
      obtain ⟨-, rfl, -, hpeeked⟩ := takes.squashes rfl
      have hgenuine' : Genuine G m.pfifo := by
        apply hgenuine
        rw [trace, drop_left]
        rfl
      refine ⟨trace, ?_, ?_⟩
      · rw [place.place]
        exact hgenuine'.emits hpeeked
      · intro words hmem
        simp only [Machine.consumed, range_one, map_cons, map_nil, if_true,
          cons_append, nil_append, mem_cons, not_mem_nil, or_false,
          Machine.dataEntry, reduceCtorEq, false_or, Entry.squashed.injEq] at hmem
        rw [hpeeked.endParameter] at hmem
        exact ⟨_, _, _, hmem, hpeeked.endMethod, hpeeked.beginMethod⟩

theorem step_reads {e : FifoEvent} (h : m.step G squash e = some m')
    (hgenuine : m.squashes G squash e → Genuine G m.pfifo) : ∃ entries, Reads G m m' entries := by
  have hsquash : (m'.trace.drop m.trace.length).any Entry.isSquashed → Genuine G m.pfifo := by
    intro hany
    apply hgenuine
    rw [Machine.squashes, h]
    exact hany
  cases e with
  | enter =>
    obtain rfl | rfl := enter_eq_some h
    · exact ⟨[], .of_samePlace rfl rfl⟩
    · exact ⟨[], .of_samePlace rfl rfl⟩
  | put | control =>
    cases h
    exact ⟨[], .of_samePlace rfl rfl⟩
  | iterate lost =>
    cases iterate_pass h with
    | stopped => exact ⟨[], .of_samePlace rfl rfl⟩
    | data reading count r progress word =>
      have hwords : 0 < min m.pfifo.methodCount m.pfifo.available :=
        Nat.lt_min.mpr ⟨Nat.pos_of_ne_zero count, reading.available_pos⟩
      obtain ⟨entries, hreads⟩ := (dataWord_spec hwords word).reads hsquash
      exact ⟨entries, { hreads with }⟩
    | header reading count f header =>
      have hplace := header_place m.pfifo (G.mem m.pfifo.dmaGet)
      rw [header] at hplace
      refine ⟨[], ⟨(append_nil _).symm, ?_, nofun⟩⟩
      apply Emits.single
      have hbetween : m.pfifo.place = ⟨m.pfifo.dmaGet, none, m.pfifo.ret⟩ := by
        rw [Pfifo.place, current_of_eq count]
      rw [hbetween] at hplace ⊢
      simp only [Place.step, ← hplace, map_some, flatMap_nil]

def Entry.handed : Entry → List Call
  | .data call => [call]
  | .squashed _ => []

/-- In every run in which every squash is genuine, through any stalls and entries
and any writes of `DMA_PUT`, the data words handed to the puller are those that the interpreter reads,
with the parameters of the squashed pairs of `SET_BEGIN_END` between them left out. -/
theorem handed_eq_reference {G : Gpu ρ} {squash : Bool} {m m' : Machine ρ} {es : List FifoEvent}
    (hgenuine : Meets (Machine.step G squash)
      (fun m e => m.squashes G squash e → Genuine G m.pfifo) m es)
    (hrun : run (Machine.step G squash) m es = some m') :
    ∃ entries, m'.trace = m.trace ++ entries ∧
      Emits (Place.step G.mem) m.pfifo.place (entries.flatMap Entry.read) m'.pfifo.place ∧
      ∀ words, .squashed words ∈ entries → SquashedPair words := by
  suffices h : ∃ entries, Reads G m m' entries by
    obtain ⟨entries, hreads⟩ := h
    exact ⟨entries, hreads.trace, hreads.emits, hreads.pair⟩
  induction es generalizing m with
  | nil =>
    cases hrun
    exact ⟨[], .of_samePlace rfl rfl⟩
  | cons e es ih =>
    obtain ⟨next, hnext, hrest⟩ := run_cons_eq_some.mp hrun
    obtain ⟨entries, hreads⟩ := step_reads hnext hgenuine.1
    obtain ⟨entries', hreads'⟩ := ih (hgenuine.2 next hnext) hrest
    exact ⟨entries ++ entries', hreads.trans hreads'⟩

def twoBlocks : List Word :=
  [0x000417FC, 5, 0x00041810, 0x02000000, 0x000417FC, 0,
    0x000417FC, 5, 0x00041810, 0x02000003, 0x000417FC, 0]

def twoBlocksRun : Option (Machine Unit) :=
  run (Machine.step (bufferGpu twoBlocks) true) (bufferMachine twoBlocks)
    (.enter :: List.replicate 8 (.iterate false))

theorem handed_eq_reference_twoBlocks :
    ∃ m' entries, twoBlocksRun = some m' ∧ m'.trace = [] ++ entries ∧
      Emits (Place.step (bufferGpu twoBlocks).mem) (bufferMachine twoBlocks).pfifo.place
        (entries.flatMap Entry.read) m'.pfifo.place := by
  obtain ⟨m', hrun⟩ := isSome_iff_exists.mp (by decide +kernel : twoBlocksRun.isSome = true)
  obtain ⟨entries, htrace, hemits, -⟩ := handed_eq_reference (m := bufferMachine twoBlocks)
    (by decide +kernel) hrun
  exact ⟨m', entries, hrun, htrace, hemits⟩

/-- The words of the squash are read by the interpreter and not handed to the puller. -/
theorem handed_ne_reference :
    ∃ m' out, twoBlocksRun = some m' ∧
      emit (Place.step (bufferGpu twoBlocks).mem) 12 (bufferMachine twoBlocks).pfifo.place
        = some (m'.pfifo.place, out) ∧ m'.trace.flatMap Entry.handed ≠ out := by
  obtain ⟨m', hrun, ⟨place, out⟩, hemit, rfl, hhanded⟩ : ∃ m', twoBlocksRun = some m' ∧
      ∃ p, emit (Place.step (bufferGpu twoBlocks).mem) 12 (bufferMachine twoBlocks).pfifo.place = some p ∧
        p.1 = m'.pfifo.place ∧ m'.trace.flatMap Entry.handed ≠ p.2 := by decide +kernel
  exact ⟨m', out, hrun, hemit, hhanded⟩

end XogMobile.Nv2a
