import XogMobile.Nv2a.Device

/-!
# The interrupt line

`nv2a_update_irq` computes the pending units and the line from the interrupts of PFIFO, PCRTC and
PGRAPH, and holds no memory of its own. The line is right after every step that ends in it, and stays
right over a step that changes no unit. Two steps do neither: `pgraph_write` to `INTR` or `INTR_EN`, and
`nv2a_reset`.
-/

namespace XogMobile.Nv2a

open Lib

variable {ρ ν : Type}

namespace Device

def next (d : Device ρ ν) (i : Env ρ ν × DeviceEvent) : Option (Device ρ ν) :=
  (d.step i.1 i.2).map Prod.snd

def units (d : Device ρ ν) : Word :=
  (if d.pfifoIntr.active then pmcPfifo else 0) ||| (if d.pcrtc.intr.active then pmcPcrtc else 0) |||
    (if d.pgraphIntr.active then pmcPgraph else 0)

/-- The step does not change behind the back of `nv2a_update_irq` whether PGRAPH interrupts. While a
method is about to call it, anything goes. -/
def interruptOk (d : Device ρ ν) : DeviceEvent → Bool
  | .write .pgraph addr val =>
    d.raising.isSome ||
      if addr = 0x100 then (d.pgraphIntr.clear val).active == d.pgraphIntr.active
      else if addr = 0x140 then (d.pgraphIntr.enable val).active == d.pgraphIntr.active
      else true
  | .reset pciReset => d.raising.isSome || (!d.pgraphIntr.active && (pciReset || !d.irq))
  | _ => true

/-- PMC has no bits but those of the three units. -/
def Masked (pending : Word) : Prop := pending &&& ~~~(pmcPfifo ||| pmcPgraph ||| pmcPcrtc) = 0

/-- The pending units and the line are what `nv2a_update_irq` would compute. -/
structure Exact (d : Device ρ ν) : Prop where
  pending : d.pmc.pending = d.units
  irq : d.irq = (d.units != 0 && d.pmc.enabled != 0)

theorem masked_zero : Masked 0 := BitVec.zero_and

variable {pending val : Word} {d d' : Device ρ ν} {E : Env ρ ν} {addr : Nat} {block : RegBlock}
  {r : Word × Device ρ ν}

theorem Masked.clear (h : Masked pending) (val : Word) : Masked (pending &&& ~~~val) := by
  unfold Masked at h ⊢
  rw [BitVec.and_assoc, BitVec.and_comm (~~~val), ← BitVec.and_assoc, h]
  exact BitVec.zero_and

theorem units_masked (d : Device ρ ν) : Masked d.units := by
  unfold Masked units
  cases d.pfifoIntr.active <;> cases d.pcrtc.intr.active <;> cases d.pgraphIntr.active <;> decide

theorem unitBits_eq {a b c : Word} (h : pending &&& ~~~(a ||| c ||| b) = 0) (hab : a &&& b = 0)
    (hac : a &&& c = 0) (hbc : b &&& c = 0) (x y z : Bool) :
    unitBit (unitBit (unitBit pending a x) b y) c z =
      (if x then a else 0) ||| (if y then b else 0) ||| (if z then c else 0) := by
  ext i hi
  have hi' : (pending &&& ~~~(a ||| c ||| b))[i] = false := by
    rw [h]
    exact BitVec.getElem_zero hi
  have hab' := getElem_of_disjoint hab hi
  have hac' := getElem_of_disjoint hac hi
  have hbc' := getElem_of_disjoint hbc hi
  cases x <;> cases y <;> cases z <;> (simp [unitBit] at hi' ⊢; grind)

theorem updateIrq_exact (h : Masked d.pmc.pending) : Exact d.updateIrq := by
  have hpending : d.updateIrq.pmc.pending = d.units := unitBits_eq h (by decide) (by decide) (by decide) _ _ _
  refine ⟨hpending, ?_⟩
  change (d.updateIrq.pmc.pending != 0 && d.pmc.enabled != 0) = _
  rw [hpending]
  rfl

/-- The interrupts of the units, the pending units and the line are as before. What PGRAPH has may
change while a method is about to recompute the line. -/
structure Keeps (d d' : Device ρ ν) : Prop where
  irq : d'.irq = d.irq
  pmc : d'.pmc = d.pmc
  pfifo : d'.pfifoIntr.active = d.pfifoIntr.active
  pcrtc : d'.pcrtc.intr.active = d.pcrtc.intr.active
  pgraph : d'.raising = none → d'.pgraphIntr.active = d.pgraphIntr.active
  raising : d'.raising = none → d.raising = none

def Updates (d d' : Device ρ ν) : Prop :=
  ∃ e : Device ρ ν, d' = e.updateIrq ∧ (Masked d.pmc.pending → Masked e.pmc.pending)

theorem Keeps.refl (d : Device ρ ν) : Keeps d d := ⟨rfl, rfl, rfl, rfl, fun _ => rfl, id⟩

theorem updates_of_pmc_eq {e : Device ρ ν} (h : e.pmc = d.pmc) : Updates d e.updateIrq :=
  ⟨e, rfl, fun hmasked => h ▸ hmasked⟩

theorem pmcWrite_updates (d : Device ρ ν) (addr : Nat) (val : Word) :
    Updates d (d.pmcWrite addr val) ∨ Keeps d (d.pmcWrite addr val) := by
  unfold pmcWrite
  split
  · exact .inl ⟨_, rfl, fun h => h.clear val⟩
  split
  · exact .inl ⟨_, rfl, id⟩
  · exact .inr (.refl d)

theorem pfifoWrite_updates (d : Device ρ ν) (addr : Nat) (val : Word) :
    Updates d (d.pfifoWrite addr val) ∨ Keeps d (d.pfifoWrite addr val) := by
  unfold pfifoWrite
  split
  · exact .inl (updates_of_pmc_eq rfl)
  split
  · exact .inl (updates_of_pmc_eq rfl)
  · exact .inr ⟨rfl, rfl, rfl, rfl, fun _ => rfl, id⟩

theorem ptimerWrite_updates (d : Device ρ ν) (addr : Nat) (val : Word) :
    Updates d (d.ptimerWrite addr val) ∨ Keeps d (d.ptimerWrite addr val) := by
  unfold ptimerWrite
  split
  · exact .inl (updates_of_pmc_eq rfl)
  split
  · exact .inl (updates_of_pmc_eq rfl)
  split
  · exact .inr ⟨rfl, rfl, rfl, rfl, fun _ => rfl, id⟩
  split
  · exact .inr ⟨rfl, rfl, rfl, rfl, fun _ => rfl, id⟩
  split
  · exact .inr ⟨rfl, rfl, rfl, rfl, fun _ => rfl, id⟩
  · exact .inr (.refl d)

theorem pcrtcWrite_updates (d : Device ρ ν) (addr : Nat) (val : Word) :
    Updates d (d.pcrtcWrite addr val) ∨ Keeps d (d.pcrtcWrite addr val) := by
  unfold pcrtcWrite
  split
  · exact .inl (updates_of_pmc_eq rfl)
  split
  · exact .inl (updates_of_pmc_eq rfl)
  split
  · exact .inr ⟨rfl, rfl, rfl, rfl, fun _ => rfl, id⟩
  · exact .inr (.refl d)

theorem pgraphWrite_keeps (hok : d.interruptOk (.write .pgraph addr val) = true)
    (h : pgraphWrite E d addr val = some d') : Keeps d d' := by
  -- either the method between the locks is still there, or the condition speaks of the two registers
  rw [interruptOk] at hok
  unfold pgraphWrite at h
  split at h
  · next haddr =>
    cases h
    refine ⟨rfl, rfl, rfl, rfl, fun hnone => ?_, id⟩
    change d.raising = none at hnone
    change (d.pgraphIntr.clear val).active = _
    simpa [hnone, haddr] using hok
  split at h
  · next haddr =>
    cases h
    refine ⟨rfl, rfl, rfl, rfl, fun hnone => ?_, id⟩
    change d.raising = none at hnone
    simpa [hnone, haddr] using hok
  · obtain ⟨p, -, rfl⟩ := Option.map_eq_some_iff.mp h
    exact ⟨rfl, rfl, rfl, rfl, fun _ => rfl, id⟩

theorem write_updates (hok : d.interruptOk (.write block addr val) = true)
    (h : d.write E block addr val = some d') : Updates d d' ∨ Keeps d d' := by
  cases block with
  | pmc => cases h; exact d.pmcWrite_updates addr val
  | pfifo => cases h; exact d.pfifoWrite_updates addr val
  | ptimer => cases h; exact d.ptimerWrite_updates addr val
  | pcrtc => cases h; exact d.pcrtcWrite_updates addr val
  | pgraph => exact .inr (pgraphWrite_keeps hok h)
  | pbus =>
    cases h
    split
    · exact .inr ⟨rfl, rfl, rfl, rfl, fun _ => rfl, id⟩
    · exact .inr (.refl d)
  | pvideo =>
    cases h
    unfold pvideoWrite
    split
    · split
      · exact .inr ⟨rfl, rfl, rfl, rfl, fun _ => rfl, id⟩
      · exact .inr (.refl d)
    · exact .inr ⟨rfl, rfl, rfl, rfl, fun _ => rfl, id⟩
  | user =>
    change d.userWrite addr val = some d' at h
    unfold userWrite at h
    split at h
    · obtain ⟨r, -, rfl⟩ := Option.map_eq_some_iff.mp h
      exact .inr ⟨rfl, rfl, rfl, rfl, fun _ => rfl, id⟩
    · cases h
  | stub => cases h; exact .inr (.refl d)
  | pfb | prmvio | prmcio | pramdac | prmdio =>
    cases h
    exact .inr ⟨rfl, rfl, rfl, rfl, fun _ => rfl, id⟩

theorem pgraphRead_keeps (h : d.pgraphRead addr = some r) : Keeps d r.2 := by
  unfold pgraphRead at h
  split at h
  · cases h; exact .refl d
  split at h
  · cases h; exact .refl d
  split at h
  · obtain ⟨w, -, h⟩ := Option.bind_eq_some_iff.mp h
    obtain ⟨p, -, rfl⟩ := Option.map_eq_some_iff.mp h
    exact ⟨rfl, rfl, rfl, rfl, fun _ => rfl, id⟩
  split at h
  · cases h; exact .refl d
  · cases h

theorem read_keeps {size : Nat} (h : d.read E block addr size = some r) : Keeps d r.2 := by
  cases block with
  | pgraph => exact pgraphRead_keeps h
  | pcrtc =>
    cases h
    unfold pcrtcRead
    split
    · exact .refl d
    split
    · exact .refl d
    split
    · exact .refl d
    split
    · exact ⟨rfl, rfl, rfl, rfl, fun _ => rfl, id⟩
    · exact .refl d
  | ptimer | pramdac | user =>
    obtain ⟨w, -, rfl⟩ := Option.map_eq_some_iff.mp h
    exact .refl d
  | prmvio | prmcio => cases h; exact ⟨rfl, rfl, rfl, rfl, fun _ => rfl, id⟩
  | pmc | pbus | pfifo | pvideo | pfb | prmdio | stub => cases h; exact .refl d

theorem fifo_keeps {e : FifoEvent} (h : d.fifo E e = some d') : Keeps d d' := by
  unfold fifo at h
  split at h
  · cases h
  next hraising =>
  obtain ⟨m, -, h⟩ := Option.bind_eq_some_iff.mp h
  unfold afterPass at h
  dsimp only at h
  split at h
  · cases h
  cases h
  refine ⟨rfl, rfl, rfl, rfl, fun hnone => ?_, fun _ => by simpa using hraising⟩
  split at hnone
  · cases hnone
  · next hraise =>
    simp only [Bool.or_eq_true, not_or] at hraise
    rw [if_neg hraise.1]

theorem reset_units {V : Vga ν} (hpgraph : d.pgraphIntr.active = false) : (d.reset V).units = 0 := by
  have hpgraph' : (d.reset V).pgraphIntr.active = false := hpgraph
  have hpfifo : (d.reset V).pfifoIntr.active = false := by simp [reset, Interrupts.active]
  have hpcrtc : (d.reset V).pcrtc.intr.active = false := by simp [reset, Interrupts.active]
  simp [units, hpgraph', hpfifo, hpcrtc]

/-- Line and PMC bits are exact unless an interrupt is being raised. -/
structure IrqInv (d : Device ρ ν) : Prop where
  masked : Masked d.pmc.pending
  exact : d.raising = none → Exact d

theorem IrqInv.initial (pgraph : Pgraph ρ) (vga : ν) : IrqInv (initial pgraph vga) := by
  have hunits : (Device.initial pgraph vga).units = 0 := by
    simp [units, Device.initial, Interrupts.none, Interrupts.active]
  exact ⟨masked_zero, fun _ => ⟨hunits.symm, by rw [hunits]; rfl⟩⟩

theorem IrqInv.updates (h : IrqInv d) (hupdates : Updates d d') : IrqInv d' := by
  obtain ⟨e, rfl, hmasked⟩ := hupdates
  have hexact := updateIrq_exact (hmasked h.masked)
  exact ⟨hexact.pending ▸ units_masked _, fun _ => hexact⟩

theorem IrqInv.keeps (h : IrqInv d) (hkeeps : Keeps d d') : IrqInv d' := by
  refine ⟨hkeeps.pmc ▸ h.masked, fun hnone => ?_⟩
  have hexact := h.exact (hkeeps.raising hnone)
  have hunits : d'.units = d.units := by
    rw [units, units, hkeeps.pfifo, hkeeps.pcrtc, hkeeps.pgraph hnone]
  refine ⟨?_, ?_⟩
  · rw [hkeeps.pmc, hunits]
    exact hexact.pending
  · rw [hkeeps.irq, hkeeps.pmc, hunits]
    exact hexact.irq

theorem IrqInv.reset {pciReset : Bool} (hok : d.interruptOk (.reset pciReset) = true) :
    IrqInv (if pciReset then (d.reset E.vga).busReset E else d.reset E.vga) := by
  have hmasked : Masked (d.reset E.vga).pmc.pending := masked_zero
  -- with no method between the locks, PGRAPH is silent, and the line is down or taken down
  have hquiet : d.raising = none → d.pgraphIntr.active = false ∧ (pciReset = true ∨ d.irq = false) := by
    intro hnone
    simpa [interruptOk, hnone] using hok
  cases pciReset with
  | true =>
    refine ⟨hmasked, fun hnone => ?_⟩
    have hunits : ((d.reset E.vga).busReset E).units = 0 := reset_units (V := E.vga) (hquiet hnone).1
    exact ⟨hunits.symm, by rw [if_pos rfl, hunits]; rfl⟩
  | false =>
    refine ⟨hmasked, fun hnone => ?_⟩
    obtain ⟨hpgraph, hirq⟩ := hquiet hnone
    have hunits : (d.reset E.vga).units = 0 := reset_units hpgraph
    have hdown : (d.reset E.vga).irq = false := hirq.resolve_left Bool.false_ne_true
    exact ⟨hunits.symm, by rw [if_neg Bool.false_ne_true, hunits, hdown]; rfl⟩

theorem IrqInv.next {i : Env ρ ν × DeviceEvent} (h : IrqInv d) (hok : d.interruptOk i.2 = true)
    (hnext : d.next i = some d') : IrqInv d' := by
  obtain ⟨E, e⟩ := i
  obtain ⟨⟨out, d'⟩, hstep, rfl⟩ := Option.map_eq_some_iff.mp hnext
  cases e with
  | read block addr size =>
    obtain ⟨r, hr, heq⟩ := Option.map_eq_some_iff.mp hstep
    cases heq
    exact h.keeps (read_keeps hr)
  | write block addr val =>
    obtain ⟨r, hr, heq⟩ := Option.map_eq_some_iff.mp hstep
    cases heq
    exact (write_updates hok hr).elim h.updates h.keeps
  | fifo | fifoEnter =>
    obtain ⟨r, hr, heq⟩ := Option.map_eq_some_iff.mp hstep
    cases heq
    exact h.keeps (fifo_keeps hr)
  | raise =>
    obtain ⟨r, hr, heq⟩ := Option.map_eq_some_iff.mp hstep
    cases heq
    obtain ⟨bits, -, rfl⟩ := Option.map_eq_some_iff.mp hr
    exact h.updates (updates_of_pmc_eq rfl)
  | vblank =>
    cases hstep
    exact h.updates (updates_of_pmc_eq rfl)
  | reset pciReset =>
    cases hstep
    exact .reset hok

theorem units_ne_zero (d : Device ρ ν) : (d.units != 0) =
    (d.pfifoIntr.active || d.pcrtc.intr.active || d.pgraphIntr.active) := by
  unfold units
  cases d.pfifoIntr.active <;> cases d.pcrtc.intr.active <;> cases d.pgraphIntr.active <;> decide

/-- In every run whose steps meet the condition, while no method is between the locks, the line is
asserted exactly when PMC enables interrupts and one of the three units has one pending and enabled,
and the guest reads those units from `NV_PMC_INTR_0`. -/
theorem irq_exact {pgraph : Pgraph ρ} {vga : ν} {inputs : List (Env ρ ν × DeviceEvent)}
    {d : Device ρ ν}
    (hmeets : Meets next (fun d i => d.interruptOk i.2 = true) (initial pgraph vga) inputs)
    (hrun : run next (initial pgraph vga) inputs = some d) (hraising : d.raising = none) :
    (d.irq = true ↔ d.pmc.enabled ≠ 0 ∧
      (d.pfifoIntr.active = true ∨ d.pcrtc.intr.active = true ∨ d.pgraphIntr.active = true)) ∧
    ∀ E size, d.read E .pmc 0x100 size = some (d.units, d) := by
  have hinv : IrqInv d :=
    run_invariant_of_meets IrqInv (fun _ _ _ hd hok hnext => hd.next hok hnext)
      (.initial pgraph vga) hmeets hrun
  have hexact := hinv.exact hraising
  constructor
  · rw [hexact.irq, units_ne_zero]
    simp only [Bool.and_eq_true, Bool.or_eq_true, bne_iff_ne, or_assoc]
    exact and_comm
  · intro E size
    change some (d.pmc.pending, d) = _
    rw [hexact.pending]

/-- `NV097_NO_OPERATION`: a parameter other than zero raises an interrupt. -/
def noOperation (method : Nat) (parameter : Word) (c : Control) : Effect :=
  if method = 0x100 ∧ parameter ≠ 0 then
    let channel := getMask (c.regs 0x148) 0x1F000000
    let trapped := setMask (setMask (c.regs 0x704) 0x01F00000 channel) 0x00070000 0
    { writes := [(0x704, setMask trapped 0x00001FFF (BitVec.ofNat 32 method)), (0x708, parameter),
        (0x108, 1)]
      waitingForFlip := c.waitingForFlip
      waitingForNop := true
      waitingForContextSwitch := c.waitingForContextSwitch }
  else ⟨[], c.waitingForFlip, c.waitingForNop, c.waitingForContextSwitch⟩

def nopEnv : Env Unit Unit where
  vga := ⟨fun _ v => (0, v), fun _ _ v => v, fun _ => false, id⟩
  pciVendor := 0x02A010DE
  pciClass := 0
  pciWritable := 0
  vramSize := 0x4000000
  clock := 0
  ramin := fun _ => 0
  raminSize := 0x100000
  gpu := fun _ => { bufferGpu [0x00040100, 1] with
    other := fun _ method parameter c => some (noOperation method parameter c) }
  squash := false

def newPgraph : Pgraph Unit :=
  { (bufferMachine []).pgraph with control := ⟨fun _ => 0, false, false, false⟩ }

def nopEvents : List DeviceEvent := [
  .reset true, .write .pmc 0x140 1, .write .pgraph 0x140 0x00100000, .write .pcrtc 0x140 1,
  .write .pgraph 0x144 0x00010000, .write .pgraph 0x160 0x97, .write .pgraph 0x720 1,
  .write .pfifo 0x504 1, .write .pfifo 0x1204 0x100, .write .pfifo 0x1280 1, .write .pfifo 0x1250 1,
  .write .pfifo 0x1200 1, .write .pfifo 0x1220 1, .write .user 0x40 8,
  .fifoEnter, .fifo false, .fifo false, .raise]

def clearEvents : List DeviceEvent := nopEvents ++ [.write .pgraph 0x100 0x00100000]

def resetEvents : List DeviceEvent := nopEvents ++ [.reset true]

theorem irq_exact_nop : ∃ d : Device Unit Unit,
    run next (initial newPgraph ()) (nopEvents.map (nopEnv, ·)) = some d ∧ d.irq = true ∧
      d.read nopEnv .pmc 0x100 4 = some (pmcPgraph, d) := by
  obtain ⟨d, hd, hirq, hunits, hraising⟩ : ∃ d : Device Unit Unit,
      run next (initial newPgraph ()) (nopEvents.map (nopEnv, ·)) = some d ∧ d.irq = true ∧
      d.units = pmcPgraph ∧ d.raising = none := by decide +kernel
  exact ⟨d, hd, hirq, hunits ▸ (irq_exact (by decide +kernel) hd hraising).2 nopEnv 4⟩

/-- After the NOP the guest clears the interrupt in PGRAPH: no unit has one left, but the line stays
asserted and PMC shows PGRAPH. After a reset of the bus instead, the interrupt is still pending and
enabled, but the line is down and PMC shows nothing. -/
theorem irq_stale :
    (∃ d : Device Unit Unit,
      run next (initial newPgraph ()) (clearEvents.map (nopEnv, ·)) = some d ∧
      d.raising = none ∧ d.irq = true ∧ d.pmc.pending = pmcPgraph ∧ d.units = 0) ∧
    ∃ d : Device Unit Unit,
      run next (initial newPgraph ()) (resetEvents.map (nopEnv, ·)) = some d ∧
      d.raising = none ∧ d.irq = false ∧ d.pmc.pending = 0 ∧ d.units = pmcPgraph ∧
      d.pmc.enabled ≠ 0 := by
  decide +kernel

end Device

end XogMobile.Nv2a
