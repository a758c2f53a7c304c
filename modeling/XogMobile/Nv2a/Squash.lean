import XogMobile.Nv2a.Batch
import XogMobile.Nv2a.Tracking

/-!
# The squash against the words it skips

After a `DRAW_ARRAYS` the squash skips an end and a begin of the same primitive. A machine without the
squash takes four more passes of the pusher's loop for them: two headers and two parameters. Where
the skipped words are what they look like, and until the joined ranges are drawn, the two machines
call the same handlers and draw the same ranges.
-/

namespace XogMobile.Nv2a

open Lib List

variable {ρ : Type} {G : Gpu ρ}

variable {inc lost progress : Bool} {call : Call} {ptr pc : Word} {words lookahead : Nat}
  {m m' t s : Machine ρ} {f : Pfifo} {ret : Option Word} {v : Vertices} {q : Pgraph ρ}
  {e : FifoEvent}

theorem method_of_ne_drawArrays {squash squash' : Bool} {p : Pgraph ρ} (hne : call.method ≠ drawArrays) :
    p.method G squash call ptr words lookahead inc
      = p.method G squash' call ptr words lookahead inc := by
  apply method_of_kelvinMethod
  intro p
  rw [Pgraph.kelvinMethod, Pgraph.kelvinMethod]
  cases hentry : kelvinEntry G.toRenderer call.method with
  | drawArrays => exact absurd (kelvinEntry_eq_drawArrays hentry) hne
  | batched | setBeginEnd | other => rfl

/-- The current data word is a `DRAW_ARRAYS` that leaves `q`, and the squash follows. -/
structure SquashesTo (G : Gpu ρ) (m : Machine ρ) (q : Pgraph ρ) : Prop where
  kelvin : KelvinGoes m
  method : m.pfifo.method = drawArrays
  draws : m.context.callDrawArrays (m.call G) = some q
  squashes : q.Squashes G m.pfifo.dmaGet m.pfifo.available

theorem KelvinGoes.dataWord_drawArrays {squash : Bool} (h : KelvinGoes m) (hmethod : m.pfifo.method = drawArrays) :
    m.dataWord G squash false words
      = (m.context.callDrawArrays (m.call G)).map fun q =>
          (m.afterData G (if squash ∧ q.Squashes G m.pfifo.dmaGet m.pfifo.available then
            ⟨q.preventConnect, 1, true⟩ else q.single), true) := by
  have hentry : kelvinEntry G.toRenderer (m.call G).method = .drawArrays := congrArg (kelvinEntry _) hmethod
  rw [h.dataWord (by rw [hmethod]; decide), Pgraph.kelvinMethod, hentry]
  simp only [Option.map_map]
  rfl

theorem dataWord_squash (h : m.dataWord G true lost words = some (m', progress)) :
    m.dataWord G false lost words = some (m', progress) ∨ ∃ q, SquashesTo G m q ∧ lost = false ∧ progress = true ∧
        m' = m.afterData G ⟨q.preventConnect, 1, true⟩ := by
  by_cases hmethod : m.pfifo.method = drawArrays
  · have hlow : 0x200 ≤ m.pfifo.method := by
      rw [hmethod]
      decide
    by_cases hgoes : lost = false ∧ PullerGoes (m.dataPfifo G) m.pgraph.control.pollFlip
    · obtain ⟨rfl, hgoes⟩ := hgoes
      have hgoes' : PullerGoes m.pfifo m.polled.control := { hgoes with }
      by_cases hkelvin : getMask (m.polled.control.regs ctxControl) 0x00010000 ≠ 0 ∧
          m.pfifo.subchannel = 0 ∧ m.context.graphicsClass = kelvinPrimitive
      · have hready : KelvinGoes m := ⟨hgoes', hkelvin.1, hkelvin.2.1, hkelvin.2.2⟩
        rw [hready.dataWord_drawArrays hmethod] at h ⊢
        obtain ⟨q, hq, heq⟩ := Option.map_eq_some_iff.mp h
        rw [hq, Option.map_some]
        by_cases hsquash : q.Squashes G m.pfifo.dmaGet m.pfifo.available
        · rw [if_pos ⟨rfl, hsquash⟩] at heq
          cases heq
          exact .inr ⟨q, ⟨hready, hmethod, hq, hsquash⟩, rfl, rfl, rfl⟩
        · rw [if_neg (fun hand => hsquash hand.2)] at heq
          cases heq
          left
          rw [if_neg (fun hand => hsquash hand.2)]
      · left
        rw [Machine.dataWord_of_goes hgoes' hlow] at h ⊢
        rw [← h]
        apply congrArg (Option.map _)
        exact Machine.method_of_not_kelvin (by change m.pfifo.method ≠ 0; omega) hkelvin
    · left
      rw [← h]
      apply congrArg (Option.map _)
      exact runPuller_of_not_goes hgoes rfl hlow
  · left
    have hsame : ∀ (p : Pgraph ρ) (w : Word), p.method G false { m.call G with parameter := w } m.pfifo.dmaGet words
          m.pfifo.available m.pfifo.inc
        = p.method G true { m.call G with parameter := w } m.pfifo.dmaGet words
          m.pfifo.available m.pfifo.inc := fun p w => method_of_ne_drawArrays hmethod
    rw [← h]
    apply congrArg (Option.map _)
    unfold Pfifo.runPuller
    simp only [hsame]

theorem fields_of_current {subchannel : Word} {index count : Nat}
    (h : f.current = some ⟨subchannel, index, count, inc⟩) :
    f.subchannel = subchannel ∧ f.method = 4 * index ∧ f.methodCount = count := by
  have hne : f.methodCount ≠ 0 := by
    intro hzero
    rw [current_of_eq hzero] at h
    cases h
  rw [current_of_ne hne, Option.some.injEq, Command.mk.injEq] at h
  obtain ⟨hsubchannel, hindex, hcount, -⟩ := h
  have hdvd := f.method_dvd
  exact ⟨hsubchannel, by omega, hcount⟩

/-- The puller is ready for a Kelvin method. -/
structure KelvinReady (t : Machine ρ) : Prop where
  running : t.running = true
  goes : t.pgraph.control.pullerShouldStall = false
  pull0 : getMask t.pfifo.pull0 0x00000001 ≠ 0
  engine : getMask t.pfifo.engine (engineMask 0) = engineGraphics
  error : t.pfifo.error = 0
  channel : getMask (t.pgraph.control.regs ctxControl) 0x00010000 ≠ 0
  settled : t.pgraph.Settled 0
  kelvin : t.pgraph.graphicsClass = kelvinPrimitive

theorem KelvinReady.pusherShouldStall (h : KelvinReady t) : t.pgraph.control.pusherShouldStall = false := by
  have hgoes := h.goes
  simp only [Control.pullerShouldStall, Bool.or_eq_false_iff] at hgoes
  rw [Control.pusherShouldStall, hgoes.2, hgoes.1.1.2]
  rfl

theorem KelvinReady.context (h : KelvinReady t) (hsubchannel : t.pfifo.subchannel = 0) : t.context = t.pgraph := by
  have hpolled : t.polled = t.pgraph := by
    rw [Machine.polled, Machine.pollFlip_of_goes h.goes]
  rw [Machine.context, hpolled, hsubchannel, Pgraph.inContext_of_settled h.settled]

theorem KelvinReady.kelvinGoes (h : KelvinReady t) (hsubchannel : t.pfifo.subchannel = 0) : KelvinGoes t where
  goes := by
    refine ⟨?_, h.pull0, ?_⟩
    · rw [Machine.polled, Machine.pollFlip_of_goes h.goes]
      exact h.goes
    · rw [hsubchannel]
      exact h.engine
  channel := by
    exact h.channel
  subchannel := hsubchannel
  kelvin := by
    rw [h.context hsubchannel]
    exact h.kelvin

theorem KelvinGoes.dataWord_setBeginEnd {squash : Bool} (h : KelvinGoes m) (hmethod : m.pfifo.method = setBeginEnd) :
    m.dataWord G squash false words
      = (m.context.callSetBeginEnd G.toRenderer (m.call G)).map fun q =>
          (m.afterData G q.single, true) := by
  have hentry : kelvinEntry G.toRenderer (m.call G).method = .setBeginEnd := congrArg (kelvinEntry _) hmethod
  rw [h.dataWord (by rw [hmethod]; decide), Pgraph.kelvinMethod, hentry]
  simp only [Option.map_map]
  rfl

theorem afterData_pfifo (m : Machine ρ) (r : Processed ρ) :
    SamePlace (m.pfifo.advance r.consumed) (m.afterData G r).pfifo ∧
      (m.afterData G r).pfifo.settings = m.pfifo.settings := by
  refine ⟨?_, ?_⟩
  · apply SamePlace.advance
    exact ⟨rfl, rfl, rfl, rfl⟩
  · rw [Machine.afterData, advance_settings]
    rfl

theorem KelvinReady.reading (h : KelvinReady t) (hget : t.pfifo.dmaGet = pc)
    (hdistance : 0 < (t.pfifo.dmaPut - pc).toNat) (hwhole : (t.pfifo.dmaPut - pc).toNat % 4 = 0)
    (hinside : pc.toNat < G.dmaLen) : Reading G t where
  running := h.running
  goes := h.pusherShouldStall
  ne := by
    rw [hget]
    rintro rfl
    rw [BitVec.sub_self] at hdistance
    exact Nat.lt_irrefl 0 hdistance
  inside := by
    rw [hget]
    exact hinside
  whole := by
    rw [hget]
    exact hwhole

theorem KelvinReady.of_settings (h : KelvinReady t) (hsettings : f.settings = t.pfifo.settings) :
    KelvinReady { t with pfifo := f, running := true } where
  __ := h
  running := rfl
  pull0 := by
    rw [show f.pull0 = t.pfifo.pull0 from congrArg Settings.pull0 hsettings]
    exact h.pull0
  engine := by
    rw [show f.engine = t.pfifo.engine from congrArg Settings.engine hsettings]
    exact h.engine
  error := by
    rw [(Settings.mk.inj hsettings).2.2.2.2.2.2.2]
    exact h.error

theorem KelvinReady.header (h : KelvinReady t) (hplace : t.pfifo.place = ⟨pc, none, ret⟩)
    (hreading : Reading G t) (hheader : OneWordHeader (G.mem pc))
    (hmethod : LookaheadMethod (G.mem pc) setBeginEnd) (hsubchannel : (G.mem pc >>> 13) &&& 7 = 0) :
    ∃ f inc, t.iterate G false false = some { t with pfifo := f, running := true } ∧
      f.place = ⟨pc + 4, some ⟨0, setBeginEnd / 4, 1, inc⟩, ret⟩ ∧
      f.settings = t.pfifo.settings := by
  obtain ⟨hget, hcurrent, -⟩ := Place.mk.inj hplace
  have hcount : t.pfifo.methodCount = 0 := by
    by_contra hne
    rw [current_of_ne hne] at hcurrent
    cases hcurrent
  obtain ⟨inc, hread⟩ := hheader.header hmethod ⟨pc, none, ret⟩
  have hmap := header_place t.pfifo (G.mem pc)
  rw [hplace, hread, hsubchannel] at hmap
  obtain ⟨f, hf, hfplace⟩ := Option.map_eq_some_iff.mp hmap
  have hsettings := header_settings hf
  refine ⟨f, inc, ?_, hfplace, hsettings⟩
  rw [hreading.iterate_header hcount, hget, hf, Option.bind_some, Machine.proceed]
  exact if_pos (h.of_settings hsettings).error

/-- `t'` has called one `SET_BEGIN_END` more than `t`. -/
structure BlockEnd (t t' : Machine ρ) (pc : Word) (ret : Option Word) (v : Vertices) (parameter : Word) :
    Prop where
  place : t'.pfifo.place = ⟨pc, none, ret⟩
  settings : t'.pfifo.settings = t.pfifo.settings
  running : t'.running = true
  control : t'.pgraph.control = t.pgraph.control
  vertices : t'.pgraph.vertices = v
  calls : t'.pgraph.calls = t.pgraph.calls ++ [⟨0, setBeginEnd, parameter⟩]

theorem KelvinReady.parameter (h : KelvinReady t)
    (hplace : t.pfifo.place = ⟨pc, some ⟨0, setBeginEnd / 4, 1, inc⟩, ret⟩)
    (hreading : Reading G t)
    (hv : t.pgraph.vertices.setBeginEnd t.pgraph.control.isNopDraw (G.mem pc) = some v) :
    ∃ t', t.iterate G false false = some t' ∧ BlockEnd t t' (pc + 4) ret v (G.mem pc) := by
  obtain ⟨hget, hcurrent, hret⟩ := Place.mk.inj hplace
  obtain ⟨hsubchannel, hmethod, hcount⟩ := fields_of_current hcurrent
  have hmethod' : t.pfifo.method = setBeginEnd := hmethod
  have hcall : t.call G = ⟨0, setBeginEnd, G.mem pc⟩ := by
    rw [Machine.call, hsubchannel, hmethod', hget]
  obtain ⟨q, hq, hcontrol, hvertices, hcalls⟩ : ∃ q, t.pgraph.callSetBeginEnd G.toRenderer (t.call G)
      = some q ∧ q.control = t.pgraph.control ∧ q.vertices = v ∧ q.calls = t.pgraph.calls ++ [t.call G] := by
    rw [hcall]
    exact ⟨_, congrArg (Option.map _) hv, rfl, rfl, rfl⟩
  obtain ⟨hafter, hsettings⟩ := afterData_pfifo (G := G) t q.single
  have herror : (t.afterData G q.single).pfifo.error = 0 := (h.of_settings hsettings).error
  refine ⟨{ t.afterData G q.single with running := true }, ?_, ?_, hsettings, rfl, hcontrol, hvertices,
    by rw [← hcall]; exact hcalls⟩
  · rw [hreading.iterate_data (by rw [hcount]; exact Nat.one_ne_zero),
      (h.kelvinGoes hsubchannel).dataWord_setBeginEnd hmethod', h.context hsubchannel, hq,
      Option.map_some, Option.bind_some, Machine.proceed]
    exact if_pos herror
  · have hplace' := hafter.place
    rw [show q.single.consumed = 1 from rfl, place_advance_of_le (by rw [hcount]), hget, hret] at hplace'
    exact hplace'

theorem KelvinReady.setBeginEnd (h : KelvinReady t) (hplace : t.pfifo.place = ⟨pc, none, ret⟩)
    (hdistance : 8 ≤ (t.pfifo.dmaPut - pc).toNat) (hwhole : (t.pfifo.dmaPut - pc).toNat % 4 = 0)
    (hinside : pc.toNat < G.dmaLen) (hinside' : (pc + 4).toNat < G.dmaLen)
    (hheader : OneWordHeader (G.mem pc)) (hmethod : LookaheadMethod (G.mem pc) setBeginEnd)
    (hsubchannel : (G.mem pc >>> 13) &&& 7 = 0)
    (hv : t.pgraph.vertices.setBeginEnd t.pgraph.control.isNopDraw (G.mem (pc + 4)) = some v) :
    ∃ t', run (Machine.step G false) t [.iterate false, .iterate false] = some t' ∧
      BlockEnd t t' (pc + 8) ret v (G.mem (pc + 4)) := by
  have hget : t.pfifo.dmaGet = pc := (Place.mk.inj hplace).1
  obtain ⟨f, inc, hfirst, hfplace, hsettings⟩ := h.header hplace
    (h.reading hget (by omega) hwhole hinside) hheader hmethod hsubchannel
  have hready := h.of_settings hsettings
  have hfget : f.dmaGet = pc + 4 := (Place.mk.inj hfplace).1
  have hput : f.dmaPut = t.pfifo.dmaPut := congrArg Settings.dmaPut hsettings
  have hreading : Reading G { t with pfifo := f, running := true } := by
    apply hready.reading hfget
    · rw [hput]
      bv_omega
    · rw [hput]
      bv_omega
    · exact hinside'
  obtain ⟨t', hsecond, hend⟩ := hready.parameter hfplace hreading hv
  have hpc : pc + 4 + 4 = pc + 8 := by
    rw [BitVec.add_assoc]
    rfl
  rw [hpc] at hend
  refine ⟨t', ?_, hend.place, hend.settings.trans hsettings, hend.running, hend.control, hend.vertices, hend.calls⟩
  exact run_cons_eq_some.mpr ⟨_, hfirst, run_cons_eq_some.mpr ⟨_, hsecond, rfl⟩⟩

theorem KelvinReady.of_blockEnd {t' : Machine ρ} {parameter : Word} (h : KelvinReady t)
    (hend : BlockEnd t t' pc ret v parameter) : KelvinReady t' where
  running := hend.running
  goes := by
    rw [hend.control]
    exact h.goes
  pull0 := (h.of_settings hend.settings).pull0
  engine := (h.of_settings hend.settings).engine
  error := (h.of_settings hend.settings).error
  channel := by
    rw [hend.control]
    exact h.channel
  settled := by
    rw [Pgraph.Settled, hend.control]
    exact h.settled
  kelvin := by
    rw [Pgraph.graphicsClass, hend.control]
    exact h.kelvin

/-- The squashed words are two one-word commands of the same subchannel inside the DMA object, and
ranges are all that is pending. -/
@[mk_iff] structure SafeSquash (G : Gpu ρ) (m : Machine ρ) : Prop where
  genuine : Genuine G m.pfifo
  endSubchannel : (G.mem (m.pfifo.dmaGet + 4) >>> 13) &&& 7 = m.pfifo.subchannel
  beginSubchannel : (G.mem (m.pfifo.dmaGet + 12) >>> 13) &&& 7 = m.pfifo.subchannel
  inside : ∀ i ∈ [4, 8, 12, 16], (m.pfifo.dmaGet + BitVec.ofNat 32 i).toNat < G.dmaLen
  inlineArray : m.pgraph.vertices.inlineArray = []
  inlineBuffer : m.pgraph.vertices.inlineBufferLength = 0

instance (m : Machine ρ) : Decidable (SafeSquash G m) :=
  decidable_of_iff _ (safeSquash_iff G m).symm

theorem drawArraysMethod_ranges {v' : Vertices} {parameter : Word}
    (h : v.drawArraysMethod parameter = some v') (helements : v'.inlineElements = []) :
    v'.drawArrays ≠ [] ∧ v'.inlineArray = v.inlineArray ∧ v'.inlineBufferLength = v.inlineBufferLength := by
  dsimp only [Vertices.drawArraysMethod] at h
  split at h
  · next hne =>
    obtain ⟨-, h⟩ := Option.ite_none_left_eq_some.mp h
    obtain ⟨-, ⟨⟩⟩ := Option.ite_none_right_eq_some.mp h
    exact absurd (append_eq_nil_iff.mp helements).1 hne
  · obtain ⟨-, ⟨⟩⟩ := Option.ite_none_right_eq_some.mp h
    rw [Vertices.addRange_eq]
    exact ⟨Vertices.extend_ne_nil _ _ _ _, rfl, rfl⟩

theorem SquashesTo.left (h : SquashesTo G m q) :
    q.control = m.context.control ∧ q.vertices.drawArrays ≠ [] ∧ q.vertices.inlineElements = [] ∧
      q.vertices.inlineArray = m.pgraph.vertices.inlineArray ∧
      q.vertices.inlineBufferLength = m.pgraph.vertices.inlineBufferLength := by
  obtain ⟨v, hv, hq⟩ := Option.map_eq_some_iff.mp h.draws
  have hvertices : m.context.vertices = m.pgraph.vertices := Pgraph.regWs_vertices _ _
  have helements := h.squashes.2.1.1
  rw [← hq] at helements ⊢
  obtain ⟨hranges, harray, hbuffer⟩ := drawArraysMethod_ranges hv helements
  exact ⟨rfl, hranges, helements, harray, hbuffer⟩

theorem isNopDraw_context (m : Machine ρ) : m.context.control.isNopDraw = m.pgraph.control.isNopDraw :=
  Tracks.isNopDraw_inContext m.polled m.pfifo.subchannel

theorem SquashesTo.kelvinReady (h : SquashesTo G m q) (hrunning : t.running = true)
    (hsettings : t.pfifo.settings = m.pfifo.settings) (herror : m.pfifo.error = 0)
    (hcontrol : t.pgraph.control = q.control) : KelvinReady t where
  running := hrunning
  goes := by
    rw [hcontrol, h.left.1]
    exact h.kelvin.goes.goes
  pull0 := by
    rw [show t.pfifo.pull0 = m.pfifo.pull0 from congrArg Settings.pull0 hsettings]
    exact h.kelvin.goes.pull0
  engine := by
    rw [show t.pfifo.engine = m.pfifo.engine from congrArg Settings.engine hsettings, ← h.kelvin.subchannel]
    exact h.kelvin.goes.engine
  error := by
    rw [(Settings.mk.inj hsettings).2.2.2.2.2.2.2]
    exact herror
  channel := by
    rw [hcontrol, h.left.1]
    exact h.kelvin.channel
  settled := by
    rw [Pgraph.Settled, hcontrol, h.left.1, ← h.kelvin.subchannel]
    exact Pgraph.settled_inContext _ _
  kelvin := by
    rw [Pgraph.graphicsClass, hcontrol, h.left.1]
    exact h.kelvin.kelvin

theorem SquashesTo.iterate (h : SquashesTo G m q) (hreading : Reading G m)
    (hcount : m.pfifo.methodCount = 1) (herror : m.pfifo.error = 0) :
    m.iterate G false false = some { m.afterData G q.single with running := true } := by
  have hsettings := (afterData_pfifo (G := G) m q.single).2
  rw [hreading.iterate_data (by rw [hcount]; exact Nat.one_ne_zero), h.kelvin.dataWord_drawArrays h.method, h.draws]
  simp only [Bool.false_eq_true, false_and, if_false, Option.map_some, Option.bind_some]
  apply if_pos
  rw [(Settings.mk.inj hsettings).2.2.2.2.2.2.2]
  exact herror

theorem Follows.squash (h : Follows s t) (hto : SquashesTo G s q) (hsafe : SafeSquash G s)
    (hreading : Reading G s) (herror : s.pfifo.error = 0) :
    ∃ t', run (Machine.step G false) t (List.replicate 5 (.iterate false)) = some t' ∧
      Follows { s.afterData G ⟨q.preventConnect, 1, true⟩ with running := true } t' := by
  obtain ⟨hcontrol, hranges, helements, harray, hbuffer⟩ := hto.left
  obtain ⟨hlookahead, -, hend, hzero, hbegin, hprim, -⟩ := hto.squashes
  have hcount := hsafe.genuine.count
  have hsub := hto.kelvin.subchannel
  obtain ⟨t₀, ht₀, hfollows⟩ := h.iterate
    (fun _ helement => by rw [hto.method] at helement; exact absurd helement (by decide))
    (fun _ => by
      change q.control.isNopDraw = _
      rw [hcontrol, isNopDraw_context])
    (hto.iterate hreading hcount herror)
  obtain ⟨hafter, hsettings⟩ := afterData_pfifo (G := G) s q.single
  have hsettings₀ : t₀.pfifo.settings = s.pfifo.settings := hfollows.pfifo.settings.trans hsettings
  have hready := hto.kelvinReady hfollows.running hsettings₀ herror hfollows.pgraph.control
  have hplace₀ : t₀.pfifo.place = ⟨s.pfifo.dmaGet + 4, none, s.pfifo.ret⟩ := by
    rw [hfollows.pfifo.place]
    exact hafter.place.trans (place_advance_of_le (n := 1) hcount.le)
  have hput₀ : t₀.pfifo.dmaPut = s.pfifo.dmaPut := congrArg Settings.dmaPut hsettings₀
  have hbytes : 28 ≤ (s.pfifo.dmaPut - s.pfifo.dmaGet).toNat := by
    unfold Pfifo.available at hlookahead
    omega
  have hwhole := hreading.whole
  have hadd : ∀ a b : Word, s.pfifo.dmaGet + a + b = s.pfifo.dmaGet + (a + b) := fun a b => BitVec.add_assoc _ a b
  obtain ⟨w₁, w₂, hw₁, hw₂, hjoins⟩ := hfollows.pgraph.vertices.squash hranges helements
    (hbuffer.trans hsafe.inlineBuffer) (harray.trans hsafe.inlineArray)
  -- The end.
  obtain ⟨t₁, ht₁, hend₁⟩ := hready.setBeginEnd (v := w₁) hplace₀
    (by rw [hput₀]; bv_omega) (by rw [hput₀]; bv_omega) (hsafe.inside 4 (by decide))
    (by rw [hadd]; exact hsafe.inside 8 (by decide)) hsafe.genuine.endHeader hend
    (hsafe.endSubchannel.trans hsub)
    (by rw [hadd, hfollows.pgraph.control]; exact (congrArg (t₀.pgraph.vertices.setBeginEnd _ ·) hzero).trans hw₁)
  have hready₁ := hready.of_blockEnd hend₁
  have hplace₁ : t₁.pfifo.place = ⟨s.pfifo.dmaGet + 12, none, s.pfifo.ret⟩ := by
    rw [hend₁.place, hadd]
    rfl
  have hput₁ : t₁.pfifo.dmaPut = s.pfifo.dmaPut := (congrArg Settings.dmaPut hend₁.settings).trans hput₀
  -- The begin.
  obtain ⟨t₂, ht₂, hend₂⟩ := hready₁.setBeginEnd (v := w₂) hplace₁
    (by rw [hput₁]; bv_omega) (by rw [hput₁]; bv_omega) (hsafe.inside 12 (by decide))
    (by rw [hadd]; exact hsafe.inside 16 (by decide)) hsafe.genuine.beginHeader hbegin
    (hsafe.beginSubchannel.trans hsub)
    (by
      rw [hadd, hend₁.vertices, hend₁.control, hfollows.pgraph.control]
      exact (congrArg (w₁.setBeginEnd _ ·) hprim).trans hw₂)
  obtain ⟨hafter', hsettings'⟩ := afterData_pfifo (G := G) s ⟨q.preventConnect, 1, true⟩
  refine ⟨t₂, ?_, ⟨?_, ?_⟩, hend₂.running, ?_, ?_, ?_⟩
  · exact run_cons_eq_some.mpr ⟨t₀, ht₀, run_append_of_eq_some ht₁ ht₂⟩
  · rw [hend₂.place, hadd]
    exact (hafter'.place.trans (place_advance_of_le (n := 5) (hcount.le.trans (by omega)))).symm
  · rw [hend₂.settings, hend₁.settings, hsettings₀]
    exact hsettings'.symm
  · rw [hend₂.control, hend₁.control]
    exact hfollows.pgraph.control
  · rw [hend₂.vertices]
    exact hjoins
  · rw [hend₂.calls, hend₁.calls, append_assoc, hadd, show (4 + 4 : Word) = 8 from rfl, hzero]
    exact .pair 0 _ hfollows.pgraph.calls

theorem squashes_of_trace {entries : List Entry} (h : m.step G true e = some m')
    (htrace : m'.trace = m.trace ++ entries) :
    m.squashes G true e = entries.any Entry.isSquashed := by
  rw [Machine.squashes, h, Option.any_some, htrace, drop_left]

theorem any_consumed (f : Pfifo) (n : Nat) (squashed : Bool) :
    (Machine.consumed G f n squashed).any Entry.isSquashed = squashed := by
  have hdata : ((range n).map (Machine.dataEntry G f)).any Entry.isSquashed = false := by
    rw [any_map, any_eq_false]
    exact fun i _ => Bool.false_ne_true
  rw [Machine.consumed, any_append, hdata]
  cases squashed <;> rfl

theorem dataWord_trace (hwords : 0 < words) (h : m.dataWord G false lost words = some (m', progress)) :
    ∃ entries, m'.trace = m.trace ++ entries ∧ entries.any Entry.isSquashed = false := by
  cases dataWord_spec hwords h with
  | stalled place trace => exact ⟨[], by rw [trace, append_nil], rfl⟩
  | processed n squashed takes place trace =>
    refine ⟨_, trace, ?_⟩
    rw [any_consumed]
    apply Bool.eq_false_of_not_eq_true
    intro hsquashed
    exact Bool.false_ne_true (takes.squashes hsquashed).1

/-- A step of the squashing machine is a plain one or a `DRAW_ARRAYS` that leaves its primitive open. -/
theorem step_squash (h : m.step G true e = some m') : (m.step G false e = some m' ∧ m.squashes G true e = false) ∨
      ∃ q, SquashesTo G m q ∧ Reading G m ∧ m.pfifo.error = 0 ∧ m.squashes G true e = true ∧
        m' = { m.afterData G ⟨q.preventConnect, 1, true⟩ with running := true } := by
  have hquiet : m'.trace = m.trace → m.squashes G true e = false := by
    intro htrace
    have hnone : m'.trace = m.trace ++ [] := by rw [htrace, append_nil]
    rw [squashes_of_trace h hnone]
    rfl
  cases e with
  | enter =>
    refine .inl ⟨h, hquiet ?_⟩
    obtain rfl | rfl := enter_eq_some h <;> rfl
  | put | control =>
    refine .inl ⟨h, hquiet ?_⟩
    cases h
    rfl
  | iterate lost =>
    cases iterate_pass h with
    | stopped running stop error =>
      refine .inl ⟨?_, hquiet rfl⟩
      change m.iterate G false lost = _
      rw [Machine.iterate, if_pos running, if_pos stop, Machine.proceed, if_pos error]
    | header reading count f header error =>
      refine .inl ⟨?_, hquiet rfl⟩
      have hsame : m.iterate G true lost = _ := h
      rw [reading.iterate_header count] at hsame
      change m.iterate G false lost = _
      rw [reading.iterate_header count]
      exact hsame
    | data reading count r progress word error =>
      have hwords : 0 < min m.pfifo.methodCount m.pfifo.available :=
        Nat.lt_min.mpr ⟨Nat.pos_of_ne_zero count, reading.available_pos⟩
      obtain hsame | ⟨q, hto, rfl, rfl, rfl⟩ := dataWord_squash word
      · obtain ⟨entries, htrace, hany⟩ := dataWord_trace hwords hsame
        refine .inl ⟨?_, (squashes_of_trace h htrace).trans hany⟩
        change m.iterate G false lost = _
        rw [reading.iterate_data count, hsame, Option.bind_some, Machine.proceed, if_pos error]
      · obtain ⟨-, hsettings⟩ := afterData_pfifo (G := G) m ⟨q.preventConnect, 1, true⟩
        refine .inr ⟨q, hto, reading, ?_, ?_, rfl⟩
        · rw [← (Settings.mk.inj hsettings).2.2.2.2.2.2.2]
          exact error
        · have hconsumed : (m.afterData G ⟨q.preventConnect, 1, true⟩).trace
              = m.trace ++ Machine.consumed G m.pfifo 1 true := rfl
          rw [squashes_of_trace h hconsumed]
          exact any_consumed _ _ _

/-- The condition on a step under which the squash changes nothing. -/
@[mk_iff] structure SquashOk (G : Gpu ρ) (m : Machine ρ) (e : FifoEvent) : Prop where
  safe : m.squashes G true e → SafeSquash G m
  -- Single elements do not come while joined ranges are pending.
  element : m.pfifo.methodCount ≠ 0 → IsElement m.pfifo.method → m.pgraph.vertices.joined = 0
  -- Draws are not switched on or off while joined ranges are pending.
  nopDraw : ∀ m' ∈ m.step G true e, m'.pgraph.vertices.joined ≠ 0 →
    m'.pgraph.control.isNopDraw = m.pgraph.control.isNopDraw

instance (m : Machine ρ) (e : FifoEvent) : Decidable (SquashOk G m e) :=
  decidable_of_iff _ (squashOk_iff G m e).symm

def unsquashed (G : Gpu ρ) (m : Machine ρ) (e : FifoEvent) : List FifoEvent :=
  if m.squashes G true e then List.replicate 5 (.iterate false) else [e]

theorem Follows.unsquashed {s' : Machine ρ} (h : Follows s t) (hok : SquashOk G s e) (hs : s.step G true e = some s') :
    ∃ t', run (Machine.step G false) t (unsquashed G s e) = some t' ∧ Follows s' t' := by
  obtain ⟨hsame, hnone⟩ | ⟨q, hto, hreading, herror, hsquashes, rfl⟩ := step_squash hs
  · obtain ⟨t', ht', hfollows⟩ := h.step hok.element (hok.nopDraw s' hs) hsame
    refine ⟨t', ?_, hfollows⟩
    rw [Nv2a.unsquashed, if_neg (Bool.eq_false_iff.mp hnone)]
    exact run_cons_eq_some.mpr ⟨t', ht', rfl⟩
  · rw [Nv2a.unsquashed, if_pos hsquashes]
    exact h.squash hto (hok.safe hsquashes) hreading herror

/-- In every run whose steps meet the condition, the machine without the squash, which takes five
passes for each squash, gets to the same place with the same control state. It calls the same handlers
but for the squashed pairs, and draws the same ranges but for those that are still pending. -/
theorem squash_preserves {m m' : Machine ρ} {es : List FifoEvent}
    (hjoined : m.pgraph.vertices.joined = 0) (hprim : m.pgraph.vertices.primitiveMode.toNat ≤ 0x0A)
    (hok : Meets (Machine.step G true) (SquashOk G) m es)
    (hrun : run (Machine.step G true) m es = some m') :
    ∃ t', run (Machine.step G false) m (expand (Machine.step G true) (unsquashed G) m es) = some t' ∧
      t'.pfifo.place = m'.pfifo.place ∧ t'.pgraph.control = m'.pgraph.control ∧
      SameCalls m'.pgraph.calls t'.pgraph.calls ∧
      t'.pgraph.vertices.drawnRanges = m'.pgraph.vertices.drawnRanges ++
        m'.pgraph.vertices.joinedDraws m'.pgraph.control.isNopDraw := by
  have hrefl : Follows m m :=
    ⟨.refl _, rfl, rfl, .refl _ hjoined hprim, .refl _⟩
  obtain ⟨t', ht', hfollows⟩ := run_expand Follows
    (fun s t e s' hrel hok hs => hrel.unsquashed hok hs) hrefl hok hrun
  exact ⟨t', ht', hfollows.pfifo.place, hfollows.pgraph.control, hfollows.pgraph.calls,
    hfollows.pgraph.vertices.drawn⟩

def drawingMachine (words : List Word) : Machine Unit :=
  let m := bufferMachine words
  { m with pgraph := { m.pgraph with control := { m.pgraph.control with
    regs := fun addr => if addr = control0 then 0x3C000000 else m.pgraph.control.regs addr } } }

def reads (words : List Word) (squash : Bool) (passes : Nat) : Option (Machine Unit) :=
  run (Machine.step (bufferGpu words) squash) (drawingMachine words)
    (.enter :: List.replicate passes (.iterate false))

theorem squash_preserves_twoBlocks :
    ∃ m' t', reads twoBlocks true 8 = some m' ∧ m'.trace.any Entry.isSquashed = true ∧
      run (Machine.step (bufferGpu twoBlocks) false) (drawingMachine twoBlocks)
        (expand (Machine.step (bufferGpu twoBlocks) true) (unsquashed (bufferGpu twoBlocks))
          (drawingMachine twoBlocks) (.enter :: List.replicate 8 (.iterate false))) = some t' ∧
      t'.pgraph.vertices.drawnRanges = m'.pgraph.vertices.drawnRanges := by
  obtain ⟨m', hrun, hsquashed, hnone⟩ : ∃ m', reads twoBlocks true 8 = some m' ∧
      m'.trace.any Entry.isSquashed = true ∧ m'.pgraph.vertices.joined = 0 := by decide +kernel
  obtain ⟨t', ht', -, -, -, hdrawn⟩ := squash_preserves (m := drawingMachine twoBlocks) (by decide +kernel)
    (by decide +kernel) (by decide +kernel) hrun
  rw [Vertices.joinedDraws_of_zero hnone, append_nil] at hdrawn
  exact ⟨m', t', hrun, hsquashed, ht', hdrawn⟩

/-- A non-increasing `DRAW_ARRAYS` command whose data words look like an end, a begin and a header. -/
def aliasedWords : List Word :=
  [0x000417FC, 5, 0x401C1810, 0x02000000, 0x000417FC, 0, 0x000417FC, 5, 0x00041810, 0x02000003,
    0x000417FC, 0]

/-- The squash takes four of the seven data words for commands, and draws other ranges. -/
theorem squash_drops_data :
    ∃ m' t', reads aliasedWords true 8 = some m' ∧ reads aliasedWords false 12 = some t' ∧
      m'.pfifo.dmaGet = m'.pfifo.dmaPut ∧ t'.pfifo.dmaGet = t'.pfifo.dmaPut ∧
      m'.pgraph.vertices.drawnRanges ≠ t'.pgraph.vertices.drawnRanges := by
  obtain ⟨m', hm', t', ht', hfields⟩ : ∃ m', reads aliasedWords true 8 = some m' ∧
      ∃ t', reads aliasedWords false 12 = some t' ∧ m'.pfifo.dmaGet = m'.pfifo.dmaPut ∧
        t'.pfifo.dmaGet = t'.pfifo.dmaPut ∧
        m'.pgraph.vertices.drawnRanges ≠ t'.pgraph.vertices.drawnRanges := by decide +kernel
  exact ⟨m', t', hm', ht', hfields⟩

end XogMobile.Nv2a
