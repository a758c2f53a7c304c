import XogMobile.Lib.Run

/-!
# The opcode caches of the DSP interpreter

The interpreter remembers the decoded opcode of each address of program memory, and beside it a table
of 256 recently decoded words that the two DSPs share. Every writer of program memory drops what it
may have made stale. The instructions themselves are parameters: what an instruction does is a function
of the word, the program counter, program memory and the rest of the core, and its stores to program
memory go through `write_memory_raw`.
-/

namespace XogMobile.Apu.Dsp

open Lib Function Option

abbrev Word := BitVec 32

def pramSize : Nat := 4096

/-- What an instruction does: its stores to program memory, the next program counter, and the rest. -/
structure Effect (κ : Type) where
  stores : List (Nat × Word)
  pc : Nat
  rest : κ

/-- The opcode table and the functions it leads to; `none` where an assertion fails. -/
structure Isa (ε κ : Type) where
  lookupOpcodeSlow : Word → Option ε
  emuFunc : ε → Word → Nat → (Nat → Word) → κ → Option (Effect κ)
  parmove : Word → Nat → (Nat → Word) → κ → Option (Effect κ)
  reset : κ → κ

/-- One DSP; `rest` has its registers, stack, X and Y memory and peripherals. -/
structure Core (ε κ : Type) where
  pc : Nat
  pram : Nat → Word
  opcache : Nat → Option ε
  rest : κ

/-- The GP and the EP, with the table of `lookup_opcode`. -/
structure State (ε κ : Type) where
  core : Bool → Core ε κ
  table : BitVec 8 → Option (Word × ε)

variable {ε κ : Type}

def readMemoryP (pram : Nat → Word) (addr : Nat) : Option Word :=
  if addr < pramSize ∧ pram addr &&& 0xFF000000 = 0 then some (pram addr) else none

theorem readMemoryP_eq {pram : Nat → Word} {addr : Nat} {word : Word}
    (h : readMemoryP pram addr = some word) : pram addr = word := by
  unfold readMemoryP at h
  split at h
  · exact some.inj h
  · cases h

namespace Core

/-- `write_memory_raw` to program memory. -/
def writeMemoryP (c : Core ε κ) (store : Nat × Word) : Option (Core ε κ) :=
  if store.1 < pramSize ∧ store.2 &&& 0xFF000000 = 0 then
    some { c with
      pram := update c.pram store.1 store.2
      opcache := update c.opcache store.1 none }
  else none

def invalidateOpcache (c : Core ε κ) : Core ε κ := { c with opcache := fun _ => none }

/-- `dsp_c_bootstrap`: scratch memory is copied to program memory, cut to 24 bits. -/
def bootstrap (c : Core ε κ) (scratch : Nat → Word) : Core ε κ :=
  { c with pram := fun a => if a < 0x800 then scratch a &&& 0x00FFFFFF else c.pram a }.invalidateOpcache

def syncFromVm (c : Core ε κ) (pc : Nat) (pram : Nat → Word) (rest : κ) : Core ε κ :=
  { c with pc, pram, rest }.invalidateOpcache

/-- The memories of `dsp_c_init`, for a new core in the place of the old one. -/
def initMemory (c : Core ε κ) (rest : κ) : Core ε κ :=
  { c with pc := 0, pram := fun _ => 0xCACACACA, rest }.invalidateOpcache

def apply (c : Core ε κ) (e : Effect κ) : Option (Core ε κ) :=
  (run writeMemoryP c e.stores).map fun c => { c with pc := e.pc, rest := e.rest }

end Core

def tagOf (op : Word) : BitVec 8 :=
  (op >>> 24).setWidth 8 ^^^ (op >>> 16).setWidth 8 ^^^ (op >>> 8).setWidth 8 ^^^ op.setWidth 8

namespace State

def setCore (s : State ε κ) (gp : Bool) (c : Core ε κ) : State ε κ :=
  { s with core := update s.core gp c }

variable (isa : Isa ε κ)

/-- A miss of `lookup_opcode`: the entry of the word goes into the table. -/
def decode (s : State ε κ) (op : Word) : Option (ε × State ε κ) :=
  (isa.lookupOpcodeSlow op).map fun entry =>
    (entry, { s with table := update s.table (tagOf op) (some (op, entry)) })

/-- `lookup_opcode`: the entry of the table if it is for the word, a new one otherwise. -/
def lookupOpcode (s : State ε κ) (op : Word) : Option (ε × State ε κ) :=
  match s.table (tagOf op) with
  | some (word, entry) => if word = op then some (entry, s) else s.decode isa op
  | none => s.decode isa op

def opcodeAt (s : State ε κ) (gp : Bool) (cur : Word) : Option (ε × State ε κ) :=
  match (s.core gp).opcache (s.core gp).pc with
  | some entry => some (entry, s)
  | none =>
    (s.lookupOpcode isa cur).map fun (entry, s) =>
      (entry, s.setCore gp { s.core gp with
        opcache := update (s.core gp).opcache (s.core gp).pc (some entry) })

def fetched (s : State ε κ) (gp : Bool) : Option ε :=
  (readMemoryP (s.core gp).pram (s.core gp).pc).bind fun cur =>
    if cur.toNat < 0x100000 then (s.opcodeAt isa gp cur).map Prod.fst else none

def executeInstruction (s : State ε κ) (gp : Bool) : Option (State ε κ) :=
  (readMemoryP (s.core gp).pram (s.core gp).pc).bind fun cur =>
    if cur.toNat < 0x100000 then
      (s.opcodeAt isa gp cur).bind fun (entry, s) =>
        let c := s.core gp
        (isa.emuFunc entry cur c.pc c.pram c.rest).bind fun e => (c.apply e).map (s.setCore gp)
    else
      let c := s.core gp
      (isa.parmove cur c.pc c.pram c.rest).bind fun e => (c.apply e).map (s.setCore gp)

end State

inductive Event (κ : Type)
  | execute (gp : Bool)
  | writeMemoryP (gp : Bool) (addr : Nat) (value : Word)
  | bootstrap (gp : Bool) (scratch : Nat → Word)
  | reset (gp : Bool)
  | syncFromVm (gp : Bool) (pc : Nat) (pram : Nat → Word) (rest : κ)
  | init (gp : Bool) (rest : κ)
  | invalidateOpcache (gp : Bool)
  | other (gp : Bool) (rest : κ)

section

variable (isa : Isa ε κ)

def step (s : State ε κ) : Event κ → Option (State ε κ)
  | .execute gp => s.executeInstruction isa gp
  | .writeMemoryP gp addr value => ((s.core gp).writeMemoryP (addr, value)).map (s.setCore gp)
  | .bootstrap gp scratch => some (s.setCore gp ((s.core gp).bootstrap scratch))
  | .reset gp => some (s.setCore gp { s.core gp with pc := 0, rest := isa.reset (s.core gp).rest })
  | .syncFromVm gp pc pram rest => some (s.setCore gp ((s.core gp).syncFromVm pc pram rest))
  | .init gp rest => some (s.setCore gp ((s.core gp).initMemory rest))
  | .invalidateOpcache gp => some (s.setCore gp (s.core gp).invalidateOpcache)
  | .other gp rest => some (s.setCore gp { s.core gp with rest })

end

/-! ## The DSPs without caches -/

structure Plain (κ : Type) where
  pc : Nat
  pram : Nat → Word
  rest : κ

namespace Plain

def writeMemoryP (c : Plain κ) (store : Nat × Word) : Option (Plain κ) :=
  if store.1 < pramSize ∧ store.2 &&& 0xFF000000 = 0 then
    some { c with pram := update c.pram store.1 store.2 }
  else none

def apply (c : Plain κ) (e : Effect κ) : Option (Plain κ) :=
  (run writeMemoryP c e.stores).map fun c => { c with pc := e.pc, rest := e.rest }

def executeInstruction (isa : Isa ε κ) (c : Plain κ) : Option (Plain κ) :=
  (readMemoryP c.pram c.pc).bind fun cur =>
    if cur.toNat < 0x100000 then
      (isa.lookupOpcodeSlow cur).bind fun entry =>
        (isa.emuFunc entry cur c.pc c.pram c.rest).bind c.apply
    else (isa.parmove cur c.pc c.pram c.rest).bind c.apply

def step (isa : Isa ε κ) (s : Bool → Plain κ) : Event κ → Option (Bool → Plain κ)
  | .execute gp => ((s gp).executeInstruction isa).map (update s gp)
  | .writeMemoryP gp addr value => ((s gp).writeMemoryP (addr, value)).map (update s gp)
  | .bootstrap gp scratch => some (update s gp { s gp with
      pram := fun a => if a < 0x800 then scratch a &&& 0x00FFFFFF else (s gp).pram a })
  | .reset gp => some (update s gp { s gp with pc := 0, rest := isa.reset (s gp).rest })
  | .syncFromVm gp pc pram rest => some (update s gp { pc, pram, rest })
  | .init gp rest => some (update s gp { pc := 0, pram := fun _ => 0xCACACACA, rest })
  | .invalidateOpcache _ => some s
  | .other gp rest => some (update s gp { s gp with rest })

def decoded (isa : Isa ε κ) (c : Plain κ) : Option ε :=
  (readMemoryP c.pram c.pc).bind fun cur =>
    if cur.toNat < 0x100000 then isa.lookupOpcodeSlow cur else none

end Plain

def Core.plain (c : Core ε κ) : Plain κ := { pc := c.pc, pram := c.pram, rest := c.rest }

def State.plain (s : State ε κ) (gp : Bool) : Plain κ := (s.core gp).plain

def fresh (start : Bool → Plain κ) : State ε κ where
  core gp :=
    { pc := (start gp).pc, pram := (start gp).pram, opcache := fun _ => none, rest := (start gp).rest }
  table _ := none

/-! ## What the caches hold -/

section

variable {isa : Isa ε κ} {s : State ε κ} {c : Core ε κ} {gp : Bool}

/-- A cached entry is the one that the word in memory decodes to. -/
def Core.Coherent (isa : Isa ε κ) (c : Core ε κ) : Prop :=
  ∀ a entry, c.opcache a = some entry → isa.lookupOpcodeSlow (c.pram a) = some entry

/-- What is cached is what decoding would give. -/
structure Coherent (isa : Isa ε κ) (s : State ε κ) : Prop where
  core : ∀ gp, (s.core gp).Coherent isa
  table : ∀ tag word entry, s.table tag = some (word, entry) → isa.lookupOpcodeSlow word = some entry

theorem fresh_coherent (isa : Isa ε κ) (start : Bool → Plain κ) : Coherent isa (fresh start) where
  core _ _ _ h := (nomatch h)
  table _ _ _ h := (nomatch h)

@[simp] theorem plain_setCore : (s.setCore gp c).plain = update s.plain gp c.plain := by
  funext gp'
  by_cases h : gp' = gp
  · subst h
    simp [State.plain, State.setCore]
  · simp [State.plain, State.setCore, h]

theorem Coherent.setCore (hs : Coherent isa s) (hc : c.Coherent isa) : Coherent isa (s.setCore gp c) where
  core gp' := by
    by_cases h : gp' = gp
    · subst h
      simpa [State.setCore] using hc
    · simpa [State.setCore, h] using hs.core gp'
  table := hs.table

theorem invalidateOpcache_coherent : c.invalidateOpcache.Coherent isa := nofun

/-! ## Stores -/

theorem writeMemoryP_plain (c : Core ε κ) (store : Nat × Word) :
    (c.writeMemoryP store).map Core.plain = c.plain.writeMemoryP store := by
  unfold Core.writeMemoryP Plain.writeMemoryP
  split <;> rfl

variable {c' : Core ε κ} {op : Word}

theorem writeMemoryP_coherent {store : Nat × Word} (hc : c.Coherent isa)
    (h : c.writeMemoryP store = some c') : c'.Coherent isa := by
  unfold Core.writeMemoryP at h
  split at h
  · cases h
    intro a entry ha
    by_cases hat : a = store.1
    · subst hat
      simp at ha
    · simp only [update_of_ne hat] at ha ⊢
      exact hc a entry ha
  · cases h

theorem apply_plain (hc : c.Coherent isa) (e : Effect κ) : (c.apply e).map Core.plain = c.plain.apply e := by
  have hrun := run_view Core.plain (Core.Coherent isa) (fun c store _ => writeMemoryP_plain c store)
    (fun _ _ _ hc h => writeMemoryP_coherent hc h) hc e.stores
  unfold Core.apply Plain.apply
  rw [← hrun, map_map, map_map]
  rfl

theorem apply_coherent {e : Effect κ} (hc : c.Coherent isa) (h : c.apply e = some c') : c'.Coherent isa := by
  obtain ⟨c₁, hrun, rfl⟩ := map_eq_some_iff.mp h
  have hc₁ : c₁.Coherent isa := run_invariant (Core.Coherent isa) (fun _ _ _ hc h => writeMemoryP_coherent hc h) hc hrun
  exact hc₁

/-! ## Lookups -/

/-- A lookup gives what decoding does and changes only the cache. -/
structure Finds (isa : Isa ε κ) (s : State ε κ) (op : Word) (found : Option (ε × State ε κ)) : Prop where
  entry : found.map Prod.fst = isa.lookupOpcodeSlow op
  plain : ∀ entry s', found = some (entry, s') → s'.plain = s.plain
  coherent : ∀ entry s', found = some (entry, s') → Coherent isa s'

section

variable (hs : Coherent isa s)
include hs

theorem finds_hit {entry : ε} (hentry : isa.lookupOpcodeSlow op = some entry) : Finds isa s op (some (entry, s)) where
  entry := hentry.symm
  plain _ _ h := by cases h; rfl
  coherent _ _ h := by cases h; exact hs

theorem decode_finds (op : Word) : Finds isa s op (s.decode isa op) where
  entry := by
    unfold State.decode
    cases isa.lookupOpcodeSlow op <;> rfl
  plain entry s' h := by
    obtain ⟨_, _, heq⟩ := map_eq_some_iff.mp h
    cases heq
    rfl
  coherent entry s' h := by
    obtain ⟨_, hentry, heq⟩ := map_eq_some_iff.mp h
    cases heq
    refine ⟨hs.core, fun tag word entry' htag => ?_⟩
    by_cases hat : tag = tagOf op
    · subst hat
      simp only [update_self, some.injEq, Prod.mk.injEq] at htag
      rw [← htag.1, ← htag.2]
      exact hentry
    · simp only [update_of_ne hat] at htag
      exact hs.table tag word entry' htag

theorem lookupOpcode_finds (op : Word) : Finds isa s op (s.lookupOpcode isa op) := by
  unfold State.lookupOpcode
  split
  · next word entry htag =>
    split
    · next hword => exact finds_hit hs (hword ▸ hs.table _ _ _ htag)
    · exact decode_finds hs op
  · exact decode_finds hs op

theorem opcodeAt_finds (gp : Bool)
    (hop : (s.core gp).pram (s.core gp).pc = op) : Finds isa s op (s.opcodeAt isa gp op) := by
  unfold State.opcodeAt
  split
  · next entry hcached => exact finds_hit hs (hop ▸ hs.core gp _ _ hcached)
  · have hlookup := lookupOpcode_finds hs op
    constructor
    case entry =>
      rw [map_map, ← hlookup.entry]
      rfl
    case plain =>
      intro entry s' h
      obtain ⟨⟨entry, s₁⟩, hfound, heq⟩ := map_eq_some_iff.mp h
      cases heq
      rw [plain_setCore, ← hlookup.plain entry s₁ hfound]
      exact update_eq_self gp s₁.plain
    case coherent =>
      intro entry s' h
      obtain ⟨⟨entry, s₁⟩, hfound, heq⟩ := map_eq_some_iff.mp h
      cases heq
      have hs₁ := hlookup.coherent entry s₁ hfound
      have hentry : isa.lookupOpcodeSlow op = some entry := by rw [← hlookup.entry, hfound]; rfl
      have hplain : s₁.plain gp = s.plain gp := congrFun (hlookup.plain entry s₁ hfound) gp
      have hword : (s₁.core gp).pram (s₁.core gp).pc = op := by
        rw [← hop]
        exact congrArg (fun c : Plain κ => c.pram c.pc) hplain
      refine hs₁.setCore fun a entry' ha => ?_
      by_cases hat : a = (s₁.core gp).pc
      · subst hat
        simp only [update_self] at ha
        rw [← ha]
        exact hword.symm ▸ hentry
      · simp only [update_of_ne hat] at ha
        exact hs₁.core gp a entry' ha

end

/-! ## Steps -/

/-- A step of the DSPs with caches does what the step of those without does, and keeps the caches right. -/
structure Tracks (isa : Isa ε κ) (next : Option (State ε κ))
    (plainNext : Option (Bool → Plain κ)) : Prop where
  plain : next.map State.plain = plainNext
  coherent : ∀ s', next = some s' → Coherent isa s'

section

variable (hs : Coherent isa s)
include hs

theorem Tracks.setCore (hc : c.Coherent isa) :
    Tracks isa (some (s.setCore gp c)) (some (update s.plain gp c.plain)) where
  plain := congrArg some plain_setCore
  coherent _ h := by cases h; exact hs.setCore hc

theorem Tracks.map_setCore {next : Option (Core ε κ)} {plainNext : Option (Plain κ)}
    (hplain : next.map Core.plain = plainNext) (hnext : ∀ c, next = some c → c.Coherent isa) :
    Tracks isa (next.map (s.setCore gp)) (plainNext.map (update s.plain gp)) := by
  subst hplain
  cases next with
  | none => exact ⟨rfl, nofun⟩
  | some c => exact .setCore hs (hnext c rfl)

theorem Tracks.apply (gp : Bool) (effect : Option (Effect κ)) :
    Tracks isa (effect.bind fun e => ((s.core gp).apply e).map (s.setCore gp))
      ((effect.bind (s.plain gp).apply).map (update s.plain gp)) := by
  cases effect with
  | none => exact ⟨rfl, nofun⟩
  | some e => exact .map_setCore hs (apply_plain (hs.core gp) e) fun _ h => apply_coherent (hs.core gp) h

theorem executeInstruction_tracks (gp : Bool) : Tracks isa (s.executeInstruction isa gp)
      (((s.plain gp).executeInstruction isa).map (update s.plain gp)) := by
  unfold State.executeInstruction Plain.executeInstruction
  change Tracks isa _ (Option.map _ ((readMemoryP (s.core gp).pram (s.core gp).pc).bind _))
  cases hread : readMemoryP (s.core gp).pram (s.core gp).pc with
  | none => exact ⟨rfl, nofun⟩
  | some cur =>
    simp only [bind_some]
    split
    · have hfinds := opcodeAt_finds hs gp (readMemoryP_eq hread)
      cases hfound : s.opcodeAt isa gp cur with
      | none =>
        rw [← hfinds.entry, hfound]
        exact ⟨rfl, nofun⟩
      | some found =>
        obtain ⟨entry, s₁⟩ := found
        have hplain := hfinds.plain entry s₁ hfound
        rw [← hfinds.entry, hfound, ← hplain]
        exact .apply (hfinds.coherent entry s₁ hfound) gp _
    · exact .apply hs gp _

theorem step_tracks (e : Event κ) : Tracks isa (step isa s e) (Plain.step isa s.plain e) := by
  cases e with
  | execute gp => exact executeInstruction_tracks hs gp
  | writeMemoryP gp addr value =>
    exact .map_setCore hs (writeMemoryP_plain (s.core gp) (addr, value))
      fun _ h => writeMemoryP_coherent (hs.core gp) h
  | bootstrap | syncFromVm | init => exact .setCore hs invalidateOpcache_coherent
  | reset gp => exact .setCore hs (hs.core gp)
  | invalidateOpcache gp =>
    have htracks : Tracks isa (step isa s (.invalidateOpcache gp)) _ := .setCore hs invalidateOpcache_coherent
    rwa [show (s.core gp).invalidateOpcache.plain = s.plain gp from rfl, update_eq_self] at htracks
  | other gp rest => exact .setCore hs (hs.core gp)

theorem fetched_eq_decoded (gp : Bool) : s.fetched isa gp = (s.plain gp).decoded isa := by
  unfold State.fetched Plain.decoded
  change _ = (readMemoryP (s.core gp).pram (s.core gp).pc).bind _
  cases hread : readMemoryP (s.core gp).pram (s.core gp).pc with
  | none => rfl
  | some cur =>
    simp only [bind_some]
    rw [(opcodeAt_finds hs gp (readMemoryP_eq hread)).entry]

end

end

/-- Over every sequence of stores and executions the DSPs with opcode caches do what the DSPs that
decode memory at every step do, and the opcode taken at a program counter is the one of its word. -/
theorem opcache_transparent (isa : Isa ε κ) (start : Bool → Plain κ) (es : List (Event κ)) :
    (run (step isa) (fresh start) es).map State.plain = run (Plain.step isa) start es ∧
      ∀ gp, (run (step isa) (fresh start) es).map (fun s => s.fetched isa gp) =
        (run (Plain.step isa) start es).map fun s => (s gp).decoded isa := by
  have hfresh : Coherent isa (fresh start) := fresh_coherent isa start
  have hrun : (run (step isa) (fresh start) es).map State.plain = run (Plain.step isa) start es :=
    run_view State.plain (Coherent isa) (fun s e hs => (step_tracks hs e).plain)
      (fun s e s' hs h => (step_tracks hs e).coherent s' h) hfresh es
  refine ⟨hrun, fun gp => ?_⟩
  rw [← hrun]
  cases hs : run (step isa) (fresh start) es with
  | none => rfl
  | some s =>
    have hcoherent : Coherent isa s :=
      run_invariant (Coherent isa) (fun s e s' hs h => (step_tracks hs e).coherent s' h) hfresh hs
    exact congrArg some (fetched_eq_decoded hcoherent gp)

end XogMobile.Apu.Dsp
