import XogMobile.Nv2a.Pgraph

/-!
# Reports of the pixel count

The guest counts the samples that pass the depth test: `CLEAR_REPORT_VALUE` sets the count to zero and
`GET_REPORT` has it stored. The renderer queues both, and counts with occlusion queries whose results it
has when the command buffer is finished. A report takes the queries begun before it, so a draw after it
needs a new one. `Counter` is what the guest is promised, with every report stored at once.
-/

namespace XogMobile.Nv2a.Vk

open Lib List

structure QueryReport where
  clear : Bool
  parameter : Word
  queryCount : Nat
  deriving DecidableEq

structure Stored where
  (dmaReport offset : Word)
  timestamp : BitVec 64
  result : Nat
  done : Word
  deriving DecidableEq

structure ReportEnv where
  surfaceScaleFactor : Nat
  dmaLen : Word → Nat

/-- `queryResults` has one entry for each query in flight. -/
structure ReportState where
  zpassPixelCountEnable : Bool
  dmaReport : Word
  inCommandBuffer : Bool
  reportQueue : List QueryReport
  queryResults : List Nat
  (newQueryNeeded queryInFlight : Bool)
  zpassPixelCountResult : Nat
  reports : List Stored

/-- `draw` is a draw or a clear that is recorded, with the samples that pass. `caughtUp` says that
`DMA_GET` equals `DMA_PUT`. -/
inductive ReportEvent where
  | setZpassPixelCountEnable (enable : Bool)
  | clearReportValue
  | getReport (parameter : Word)
  | setContextDmaReport (object : Word) (caughtUp : Bool)
  | draw (clearing : Bool) (samples : Nat)
  | nondraw
  | finish
  | processPendingReports (caughtUp : Bool)

def maxQueriesInFlight : Nat := 1024

def reportOffset (parameter : Word) : Word := getMask parameter 0x00FFFFFF

def zpassPixelCntReport (dmaReport parameter : Word) (result : Nat) : Stored :=
  ⟨dmaReport, reportOffset parameter, 0x0011223344556677, result, 0⟩

def addResults (result : Nat) (results : List Nat) : Nat :=
  results.foldl (fun result n => (result + n) % 2 ^ 32) result

structure Drain where
  (counted result : Nat)
  reports : List Stored

def Drain.report (E : ReportEnv) (dmaReport : Word) (results : List Nat) (d : Drain)
    (report : QueryReport) : Option Drain :=
  if report.queryCount < d.counted ∨ results.length < report.queryCount then none
  else
    let result := addResults d.result
      ((results.drop d.counted).take (report.queryCount - d.counted))
    if report.clear then some ⟨report.queryCount, 0, d.reports⟩
    else if (reportOffset report.parameter).toNat < E.dmaLen dmaReport then
      some ⟨report.queryCount, result, d.reports ++ [zpassPixelCntReport dmaReport report.parameter
        (result / (E.surfaceScaleFactor * E.surfaceScaleFactor))]⟩
    else none

namespace ReportState

def drain (E : ReportEnv) (s : ReportState) : Option Drain :=
  s.reportQueue.foldlM (Drain.report E s.dmaReport s.queryResults)
    ⟨0, s.zpassPixelCountResult, s.reports⟩

def processPendingReportsInternal (E : ReportEnv) (s : ReportState) : Option ReportState :=
  if s.inCommandBuffer then none
  else
    (s.drain E).map fun d => { s with
      reportQueue := []
      queryResults := []
      zpassPixelCountResult := addResults d.result (s.queryResults.drop d.counted)
      reports := d.reports }

def finish (E : ReportEnv) (s : ReportState) : Option ReportState :=
  processPendingReportsInternal E
    (if s.inCommandBuffer then { s with queryInFlight := false, inCommandBuffer := false } else s)

def processPendingReports (E : ReportEnv) (s : ReportState) (caughtUp : Bool) : Option ReportState :=
  if caughtUp && s.inCommandBuffer && !s.reportQueue.isEmpty then s.finish E else some s

variable (s : ReportState)

def beginQuery : Option ReportState :=
  if s.queryResults.length < maxQueriesInFlight then
    some { s with
      queryResults := s.queryResults ++ [0], queryInFlight := true, newQueryNeeded := false }
  else none

def endQuery : ReportState := { s with queryInFlight := false }

def beginDraw (clearing : Bool) : Option ReportState :=
  if !clearing && s.zpassPixelCountEnable then
    let s := if s.newQueryNeeded && s.queryInFlight then s.endQuery else s
    if s.queryInFlight then some s else s.beginQuery
  else some (if s.queryInFlight then s.endQuery else s)

def countSamples (samples : Nat) : ReportState :=
  if s.queryInFlight then
    { s with queryResults := s.queryResults.modify (s.queryResults.length - 1) (· + samples) }
  else s

def enqueue (clear : Bool) (parameter : Word) : ReportState :=
  { s with
    reportQueue := s.reportQueue ++ [⟨clear, parameter, s.queryResults.length⟩]
    newQueryNeeded := true }

def step (E : ReportEnv) (s : ReportState) : ReportEvent → Option ReportState
  | .setZpassPixelCountEnable enable => some { s with zpassPixelCountEnable := enable }
  | .clearReportValue => some (s.enqueue true 0)
  | .getReport parameter =>
    if getMask parameter 0xFF000000 = 1 then some (s.enqueue false parameter) else none
  | .setContextDmaReport object caughtUp =>
    (s.processPendingReports E caughtUp).map fun s => { s with dmaReport := object }
  | .draw clearing samples =>
    (beginDraw { s with inCommandBuffer := true } clearing).map fun s => s.countSamples samples
  | .nondraw =>
    some (if s.queryInFlight then { s.endQuery with inCommandBuffer := true }
      else { s with inCommandBuffer := true })
  | .finish => s.finish E
  | .processPendingReports caughtUp => s.processPendingReports E caughtUp

/-- `pgraph_vk_init_reports`. -/
def init (enable : Bool) (dmaReport : Word) : ReportState :=
  ⟨enable, dmaReport, false, [], [], false, false, 0, []⟩

end ReportState

/-- The reports as the guest should see them, without a queue. -/
structure Counter where
  enable : Bool
  dmaReport : Word
  total : Nat
  stored : List Stored

namespace Counter

def step (E : ReportEnv) (k : Counter) : ReportEvent → Counter
  | .setZpassPixelCountEnable enable => { k with enable := enable }
  | .clearReportValue => { k with total := 0 }
  | .getReport parameter =>
    { k with stored := k.stored ++ [zpassPixelCntReport k.dmaReport parameter
      (k.total / (E.surfaceScaleFactor * E.surfaceScaleFactor))] }
  | .setContextDmaReport object _ => { k with dmaReport := object }
  | .draw clearing samples =>
    if !clearing && k.enable then { k with total := k.total + samples } else k
  | .nondraw | .finish | .processPendingReports _ => k

def init (enable : Bool) (dmaReport : Word) : Counter := ⟨enable, dmaReport, 0, []⟩

end Counter

def stepBoth (E : ReportEnv) (w : ReportState × Counter) (e : ReportEvent) :
    Option (ReportState × Counter) :=
  (w.1.step E e).map fun s => (s, w.2.step E e)

theorem addResults_mod (t : Nat) (results : List Nat) :
    addResults (t % 2 ^ 32) results = (t + results.sum) % 2 ^ 32 := by
  induction results generalizing t with
  | nil => rfl
  | cons n results ih =>
    rw [addResults, foldl_cons, Nat.mod_add_mod]
    refine (ih (t + n)).trans ?_
    rw [sum_cons, Nat.add_assoc]

section Queue

variable {E : ReportEnv} {dmaReport : Word} {results : List Nat} {queue : List QueryReport}
  {d d' : Drain} {report : QueryReport}

theorem Drain.report_eq_some (h : d.report E dmaReport results report = some d') :
    d'.counted = report.queryCount ∧ d.counted ≤ report.queryCount ∧ report.queryCount ≤ results.length ∧
      ∃ new, d'.reports = d.reports ++ new ∧ new.length = if report.clear then 0 else 1 := by
  rw [Drain.report] at h
  split at h
  · cases h
  · next hcount =>
    simp only [not_or, Nat.not_lt] at hcount
    split at h
    · next hclear =>
      cases h
      exact ⟨rfl, hcount.1, hcount.2, [], (append_nil _).symm, by rw [if_pos hclear]; rfl⟩
    · next hclear =>
      split at h <;> cases h
      exact ⟨rfl, hcount.1, hcount.2, _, rfl, by rw [if_neg hclear]; rfl⟩

theorem Drain.report_append (hreport : report.queryCount ≤ results.length) (more : List Nat) :
    d.report E dmaReport (results ++ more) report = d.report E dmaReport results report := by
  rw [Drain.report, Drain.report]
  by_cases hcount : report.queryCount < d.counted
  · rw [if_pos (.inl hcount), if_pos (.inl hcount)]
  · have hlength : report.queryCount ≤ (results ++ more).length := by
      rw [length_append]
      omega
    have htake : ((results ++ more).drop d.counted).take (report.queryCount - d.counted) =
        (results.drop d.counted).take (report.queryCount - d.counted) := by
      rw [drop_append_of_le_length (by omega), take_append_of_le_length]
      rw [length_drop]
      omega
    rw [htake]
    simp only [Nat.not_lt.mpr hlength, Nat.not_lt.mpr hreport]

theorem foldlM_append_results (hqueue : ∀ q ∈ queue, q.queryCount ≤ results.length) (more : List Nat) (d : Drain) :
    queue.foldlM (Drain.report E dmaReport (results ++ more)) d =
      queue.foldlM (Drain.report E dmaReport results) d := by
  induction queue generalizing d with
  | nil => rfl
  | cons report queue ih =>
    rw [foldlM_cons, Drain.report_append (hqueue _ mem_cons_self)]
    congr 1
    funext d'
    exact ih (fun q hq => hqueue q (mem_cons_of_mem _ hq)) d'

theorem foldlM_of_clear (hqueue : ∀ q ∈ queue, q.clear = true) (dmaReport' : Word) (d : Drain) :
    queue.foldlM (Drain.report E dmaReport results) d = queue.foldlM (Drain.report E dmaReport' results) d := by
  induction queue generalizing d with
  | nil => rfl
  | cons report queue ih =>
    have hsame : d.report E dmaReport results report = d.report E dmaReport' results report := by
      rw [Drain.report, Drain.report, hqueue _ mem_cons_self]
      rfl
    rw [foldlM_cons]
    congr 1
    funext d'
    exact ih (fun q hq => hqueue q (mem_cons_of_mem _ hq)) d'

theorem foldlM_reports (h : queue.foldlM (Drain.report E dmaReport results) d = some d') :
    ∃ new, d'.reports = d.reports ++ new ∧ new.length = (queue.filter fun report => !report.clear).length := by
  induction queue generalizing d with
  | nil =>
    cases h
    exact ⟨[], (append_nil _).symm, rfl⟩
  | cons report queue ih =>
    obtain ⟨d₁, hreport, hrest⟩ := Option.bind_eq_some_iff.mp h
    obtain ⟨-, -, -, new, hnew, hlength⟩ := Drain.report_eq_some hreport
    obtain ⟨new', hnew', hlength'⟩ := ih hrest
    refine ⟨new ++ new', by rw [hnew', hnew, append_assoc], ?_⟩
    rw [length_append, hlength, hlength']
    cases hclear : report.clear <;> simp [hclear, Nat.add_comm]

theorem foldlM_counted_le {n : Nat} (hstart : d.counted ≤ n) (hqueue : ∀ q ∈ queue, q.queryCount ≤ n)
    (h : queue.foldlM (Drain.report E dmaReport results) d = some d') : d'.counted ≤ n := by
  induction queue generalizing d with
  | nil =>
    cases h
    exact hstart
  | cons report queue ih =>
    obtain ⟨d₁, hreport, hrest⟩ := Option.bind_eq_some_iff.mp h
    refine ih ?_ (fun q hq => hqueue q (mem_cons_of_mem _ hq)) hrest
    rw [(Drain.report_eq_some hreport).1]
    exact hqueue _ mem_cons_self

end Queue

/-- Processing the queue now would store what the counter has stored and leave its total. -/
structure Drained (E : ReportEnv) (s : ReportState) (k : Counter) (d : Drain) (t : Nat) : Prop where
  drain : s.drain E = some d
  counted : d.counted ≤ s.queryResults.length
  reports : d.reports = k.stored
  result : d.result = t % 2 ^ 32
  total : k.total = t + (s.queryResults.drop d.counted).sum

/-- Draining the queue now would give the counter. -/
structure Sim (E : ReportEnv) (s : ReportState) (k : Counter) : Prop where
  enable : s.zpassPixelCountEnable = k.enable
  dmaReport : s.dmaReport = k.dmaReport
  flight : s.queryInFlight = true → s.inCommandBuffer = true ∧ s.queryResults ≠ []
  bounded : ∀ q ∈ s.reportQueue, q.queryCount ≤ s.queryResults.length
  fresh : s.queryInFlight = true → s.newQueryNeeded = false →
    ∀ q ∈ s.reportQueue, q.queryCount < s.queryResults.length
  drained : ∃ d t, Drained E s k d t

namespace Sim

variable {E : ReportEnv} {s s' : ReportState} {k : Counter}

theorem init (E : ReportEnv) (enable : Bool) (dmaReport : Word) :
    Sim E (.init enable dmaReport) (.init enable dmaReport) where
  enable := rfl
  dmaReport := rfl
  flight := nofun
  bounded := nofun
  fresh := nofun
  drained := ⟨⟨0, 0, []⟩, 0, rfl, le_rfl, rfl, rfl, rfl⟩

theorem drained_result {d : Drain} {t : Nat} (h : Drained E s k d t) :
    addResults d.result (s.queryResults.drop d.counted) = k.total % 2 ^ 32 := by
  rw [h.result, addResults_mod, ← h.total]

theorem finish (h : Sim E s k) :
    ∃ s', s.finish E = some s' ∧ Sim E s' k ∧ s'.reports = k.stored ∧ s'.reportQueue = [] := by
  obtain ⟨d, t, hd⟩ := h.drained
  set s₁ := if s.inCommandBuffer then { s with queryInFlight := false, inCommandBuffer := false }
    else s with hs₁
  have hout : s₁.inCommandBuffer = false ∧ s₁.queryInFlight = false ∧ s₁.drain E = some d ∧
      s₁.queryResults = s.queryResults ∧ s₁.zpassPixelCountEnable = k.enable ∧
      s₁.dmaReport = k.dmaReport := by
    rw [hs₁]
    split
    · exact ⟨rfl, rfl, hd.drain, rfl, h.enable, h.dmaReport⟩
    · next hnot =>
      refine ⟨Bool.eq_false_iff.mpr hnot, Bool.eq_false_iff.mpr fun hflight => ?_, hd.drain, rfl, h.enable, h.dmaReport⟩
      exact hnot (h.flight hflight).1
  obtain ⟨hbuffer, hflight, hdrain, hresults, henable, hdma⟩ := hout
  refine ⟨{ s₁ with
    reportQueue := [], queryResults := [], reports := d.reports
    zpassPixelCountResult := addResults d.result (s₁.queryResults.drop d.counted) },
    ?_, ?_, hd.reports, rfl⟩
  · rw [ReportState.finish, ReportState.processPendingReportsInternal, hbuffer, hdrain]
    rfl
  · have hno : ∀ {P : Prop}, s₁.queryInFlight = true → P := fun h => nomatch hflight.symm.trans h
    refine ⟨henable, hdma, hno, nofun, hno, ⟨0, _, d.reports⟩, k.total, rfl, le_rfl, hd.reports, ?_, rfl⟩
    rw [hresults]
    exact drained_result hd

theorem processPendingReports (h : Sim E s k) (caughtUp : Bool) :
    ∃ s', s.processPendingReports E caughtUp = some s' ∧ Sim E s' k ∧
      (s'.reportQueue = [] ∨ s' = s ∧ ¬ (caughtUp = true ∧ s.inCommandBuffer = true)) := by
  rw [ReportState.processPendingReports]
  split
  · obtain ⟨s', hfinish, hsim, -, hqueue⟩ := h.finish
    exact ⟨s', hfinish, hsim, .inl hqueue⟩
  · next hnot =>
    cases hqueue : s.reportQueue with
    | nil => exact ⟨s, rfl, h, .inl hqueue⟩
    | cons report queue =>
      refine ⟨s, rfl, h, .inr ⟨rfl, fun hboth => hnot ?_⟩⟩
      rw [hboth.1, hboth.2, hqueue]
      rfl

theorem setDmaReport (h : Sim E s k) (object : Word)
    (hqueue : object = s.dmaReport ∨ ∀ q ∈ s.reportQueue, q.clear = true) :
    Sim E { s with dmaReport := object } { k with dmaReport := object } := by
  obtain ⟨d, t, hd⟩ := h.drained
  refine ⟨h.enable, rfl, h.flight, h.bounded, h.fresh, d, t, ?_, hd.counted, hd.reports, hd.result, hd.total⟩
  obtain rfl | hclear := hqueue
  · exact hd.drain
  · exact (foldlM_of_clear hclear s.dmaReport _).trans hd.drain

variable {parameter : Word} {samples : Nat} {s₁ : ReportState}

theorem enqueue {clear : Bool} {k' : Counter} (h : Sim E s k) (henable : k'.enable = k.enable)
    (hdma : k'.dmaReport = k.dmaReport)
    (hreport : ∀ d t, Drained E s k d t →
      d.report E s.dmaReport s.queryResults ⟨clear, parameter, s.queryResults.length⟩ =
        some ⟨s.queryResults.length, k'.total % 2 ^ 32, k'.stored⟩) :
    Sim E (s.enqueue clear parameter) k' := by
  obtain ⟨d, t, hd⟩ := h.drained
  refine ⟨h.enable.trans henable.symm, h.dmaReport.trans hdma.symm, h.flight, fun q hq => ?_, nofun,
    ⟨s.queryResults.length, k'.total % 2 ^ 32, k'.stored⟩, k'.total, ?_, le_rfl, rfl, rfl, ?_⟩
  · obtain hq | hq := mem_append.mp hq
    · exact h.bounded q hq
    · rw [mem_singleton.mp hq]
      exact le_rfl
  · rw [ReportState.drain, ReportState.enqueue, foldlM_append]
    refine Option.bind_eq_some_iff.mpr ⟨d, hd.drain, ?_⟩
    rw [foldlM_cons, hreport d t hd]
    rfl
  · change _ = _ + (s.queryResults.drop s.queryResults.length).sum
    rw [drop_length]
    rfl

theorem clearReportValue (h : Sim E s k) : Sim E (s.enqueue true 0) { k with total := 0 } := by
  refine h.enqueue rfl rfl fun d t hd => ?_
  rw [Drain.report, if_neg (not_or.mpr ⟨Nat.not_lt.mpr hd.counted, Nat.lt_irrefl _⟩), hd.reports]
  rfl

theorem getReport (h : Sim E s k) (htotal : k.total < 2 ^ 32)
    (hoffset : (reportOffset parameter).toNat < E.dmaLen s.dmaReport) :
    Sim E (s.enqueue false parameter) (k.step E (.getReport parameter)) := by
  refine h.enqueue rfl rfl fun d t hd => ?_
  have hall : (s.queryResults.drop d.counted).take (s.queryResults.length - d.counted) =
      s.queryResults.drop d.counted :=
    take_of_length_le (by rw [length_drop])
  rw [Drain.report, if_neg (not_or.mpr ⟨Nat.not_lt.mpr hd.counted, Nat.lt_irrefl _⟩)]
  simp only [hall, drained_result hd, Bool.false_eq_true, if_false, hoffset, if_true, hd.reports,
    Counter.step, ← h.dmaReport, Nat.mod_eq_of_lt htotal]

theorem endQuery (h : Sim E s k) : Sim E { s.endQuery with inCommandBuffer := true } k := by
  obtain ⟨d, t, hd⟩ := h.drained
  exact { h with flight := nofun, fresh := nofun, drained := ⟨d, t, { hd with }⟩ }

theorem nondraw (h : Sim E s k) : Sim E (if s.queryInFlight then { s.endQuery with inCommandBuffer := true }
      else { s with inCommandBuffer := true }) k := by
  split
  · exact h.endQuery
  · next hnot =>
    obtain ⟨d, t, hd⟩ := h.drained
    exact ⟨h.enable, h.dmaReport, fun hflight => absurd hflight hnot, h.bounded,
      fun hflight => absurd hflight hnot, d, t, hd.drain, hd.counted, hd.reports, hd.result, hd.total⟩

theorem addSamples {first last last' : List Nat} (h : Sim E s k) (hresults : s.queryResults = first ++ last)
    (hbounded : ∀ q ∈ s.reportQueue, q.queryCount ≤ first.length) (hlast : last' ≠ [])
    (hsum : last'.sum = last.sum + samples) :
    Sim E { s with
        queryResults := first ++ last', queryInFlight := true, newQueryNeeded := false
        inCommandBuffer := true }
      { k with total := k.total + samples } := by
  obtain ⟨d, t, hd⟩ := h.drained
  have hdrain : s.reportQueue.foldlM (Drain.report E s.dmaReport first)
      ⟨0, s.zpassPixelCountResult, s.reports⟩ = some d := by
    rw [← foldlM_append_results hbounded last, ← hresults]
    exact hd.drain
  have hcounted : d.counted ≤ first.length := foldlM_counted_le (Nat.zero_le _) hbounded hdrain
  have hlength : first.length < (first ++ last').length := by
    rw [length_append]
    exact Nat.lt_add_of_pos_right (length_pos_of_ne_nil hlast)
  refine ⟨h.enable, h.dmaReport, fun _ => ⟨rfl, append_ne_nil_of_right_ne_nil _ hlast⟩,
    fun q hq => (hbounded q hq).trans hlength.le, fun _ _ q hq => (hbounded q hq).trans_lt hlength,
    d, t, ?_, hcounted.trans hlength.le, hd.reports, hd.result, ?_⟩
  · exact (foldlM_append_results hbounded last' _).trans hdrain
  · have htotal := hd.total
    rw [hresults, drop_append_of_le_length hcounted, sum_append] at htotal
    rw [drop_append_of_le_length hcounted, sum_append]
    dsimp only
    omega

theorem modify_last (first : List Nat) (n samples : Nat) :
    (first ++ [n]).modify ((first ++ [n]).length - 1) (· + samples) = first ++ [n + samples] := by
  rw [length_append, length_singleton]
  induction first with
  | nil => rfl
  | cons m first ih => exact congrArg (m :: ·) ih

theorem beginQuery (h : Sim E s k) (hbegin : ({ s with inCommandBuffer := true } : ReportState).beginQuery = some s₁) :
    Sim E (s₁.countSamples samples) { k with total := k.total + samples } := by
  rw [ReportState.beginQuery] at hbegin
  split at hbegin <;> cases hbegin
  rw [ReportState.countSamples]
  rw [modify_last]
  exact h.addSamples (append_nil _).symm h.bounded (cons_ne_nil _ _) (by simp)

theorem goOn (h : Sim E s k) (hflight : s.queryInFlight = true) (hneeded : s.newQueryNeeded = false) :
    Sim E (({ s with inCommandBuffer := true } : ReportState).countSamples samples)
      { k with total := k.total + samples } := by
  obtain ⟨first, n, hresults⟩ := (eq_nil_or_concat' s.queryResults).resolve_left (h.flight hflight).2
  have hbounded : ∀ q ∈ s.reportQueue, q.queryCount ≤ first.length := by
    intro q hq
    have hlt := h.fresh hflight hneeded q hq
    rw [hresults, length_append] at hlt
    exact Nat.le_of_lt_succ hlt
  have hsum : [n + samples].sum = [n].sum + samples := by simp
  have hsim := h.addSamples hresults hbounded (cons_ne_nil _ _) hsum
  have heq : ({ s with inCommandBuffer := true } : ReportState).countSamples samples =
      { s with
        queryResults := first ++ [n + samples], queryInFlight := true, newQueryNeeded := false
        inCommandBuffer := true } := by
    rw [ReportState.countSamples, if_pos hflight]
    rw [hresults, modify_last, hflight, hneeded]
  rw [heq]
  exact hsim

theorem draw {clearing : Bool} (h : Sim E s k)
    (hbegin : ({ s with inCommandBuffer := true } : ReportState).beginDraw clearing = some s₁) :
    Sim E (s₁.countSamples samples) (k.step E (.draw clearing samples)) := by
  have hstep : k.step E (.draw clearing samples) =
      if !clearing && s.zpassPixelCountEnable then { k with total := k.total + samples } else k := by
    rw [Counter.step, h.enable]
  rw [ReportState.beginDraw] at hbegin
  rw [hstep]
  split at hbegin
  · next hcounted =>
    rw [if_pos hcounted]
    dsimp only at hbegin
    split at hbegin
    · next hend => exact h.endQuery.beginQuery hbegin
    · next hkeep =>
      split at hbegin
      · next hflight =>
        cases hbegin
        rw [hflight, Bool.and_true] at hkeep
        exact h.goOn hflight (Bool.eq_false_iff.mpr hkeep)
      · exact h.beginQuery hbegin
  · next hcounted =>
    cases hbegin
    have hnone : ∀ s : ReportState, s.queryInFlight = false → s.countSamples samples = s := by
      intro s hs
      rw [ReportState.countSamples, hs]
      rfl
    split
    · exact h.endQuery
    · next hnot =>
      rw [hnone _ (Bool.eq_false_iff.mpr hnot)]
      have hsim := h.nondraw
      rw [if_neg hnot] at hsim
      exact hsim

end Sim

/-- A report is taken while the count fits its word and for a place inside the DMA object, and the DMA
object is changed while no report waits to be stored. -/
def reportOk (E : ReportEnv) (w : ReportState × Counter) : ReportEvent → Bool
  | .getReport parameter =>
    decide (w.2.total < 2 ^ 32) &&
      decide ((reportOffset parameter).toNat < E.dmaLen w.1.dmaReport)
  | .setContextDmaReport object caughtUp =>
    object == w.1.dmaReport || w.1.reportQueue.all (fun report => report.clear) ||
      (caughtUp && w.1.inCommandBuffer)
  | _ => true

section Runs

variable {E : ReportEnv} {s s' : ReportState} {k k' : Counter} {w w' : ReportState × Counter}
  {e : ReportEvent}

theorem Sim.setContextDmaReport (h : Sim E s k) {object : Word} {caughtUp : Bool}
    (hok : reportOk E (s, k) (.setContextDmaReport object caughtUp) = true) :
    ∃ s', s.step E (.setContextDmaReport object caughtUp) = some s' ∧ Sim E s' { k with dmaReport := object } := by
  obtain ⟨s₁, hprocess, hsim, hqueue⟩ := h.processPendingReports caughtUp
  refine ⟨{ s₁ with dmaReport := object }, by rw [ReportState.step, hprocess]; rfl, ?_⟩
  refine hsim.setDmaReport object ?_
  obtain hempty | ⟨rfl, hnot⟩ := hqueue
  · rw [hempty]
    exact .inr nofun
  · simp only [reportOk, Bool.or_eq_true, beq_iff_eq, all_eq_true, Bool.and_eq_true] at hok
    exact hok.resolve_right hnot

theorem step_sim (h : Sim E w.1 w.2) (hok : reportOk E w e = true)
    (hstep : stepBoth E w e = some w') : Sim E w'.1 w'.2 := by
  obtain ⟨s', hs, rfl⟩ := Option.map_eq_some_iff.mp hstep
  cases e with
  | setZpassPixelCountEnable enable =>
    cases hs
    obtain ⟨d, t, hd⟩ := h.drained
    exact { h with enable := rfl, drained := ⟨d, t, { hd with }⟩ }
  | clearReportValue =>
    cases hs
    exact h.clearReportValue
  | getReport parameter =>
    rw [ReportState.step] at hs
    split at hs <;> cases hs
    simp only [reportOk, Bool.and_eq_true, decide_eq_true_eq] at hok
    exact h.getReport hok.1 hok.2
  | setContextDmaReport object caughtUp =>
    obtain ⟨s₁, hs₁, hsim⟩ := h.setContextDmaReport hok
    cases hs.symm.trans hs₁
    exact hsim
  | draw clearing samples =>
    obtain ⟨s₁, hbegin, rfl⟩ := Option.map_eq_some_iff.mp hs
    exact h.draw hbegin
  | nondraw =>
    cases hs
    exact h.nondraw
  | finish =>
    obtain ⟨s₁, hs₁, hsim, -⟩ := h.finish
    cases hs.symm.trans hs₁
    exact hsim
  | processPendingReports caughtUp =>
    obtain ⟨s₁, hs₁, hsim, -⟩ := h.processPendingReports caughtUp
    cases hs.symm.trans hs₁
    exact hsim

theorem step_eq_none (h : Sim E s k) (hok : reportOk E (s, k) e = true) (hnone : s.step E e = none) :
    (∃ parameter, e = .getReport parameter ∧ getMask parameter 0xFF000000 ≠ 1) ∨
      ∃ samples, e = .draw false samples ∧ maxQueriesInFlight ≤ s.queryResults.length := by
  cases e with
  | setZpassPixelCountEnable enable => cases hnone
  | clearReportValue => cases hnone
  | nondraw => cases hnone
  | getReport parameter =>
    rw [ReportState.step] at hnone
    split at hnone
    · cases hnone
    · next htype => exact .inl ⟨parameter, rfl, htype⟩
  | setContextDmaReport object caughtUp =>
    obtain ⟨s₁, hs₁, -⟩ := h.setContextDmaReport hok
    cases hnone.symm.trans hs₁
  | finish =>
    obtain ⟨s₁, hs₁, -⟩ := h.finish
    cases hnone.symm.trans hs₁
  | processPendingReports caughtUp =>
    obtain ⟨s₁, hs₁, -⟩ := h.processPendingReports caughtUp
    cases hnone.symm.trans hs₁
  | draw clearing samples =>
    have hquery : ∀ s : ReportState, s.beginQuery = none → maxQueriesInFlight ≤ s.queryResults.length := by
      intro s hs
      rw [ReportState.beginQuery] at hs
      split at hs
      · cases hs
      · next hmax => exact Nat.not_lt.mp hmax
    have hbegin := Option.map_eq_none_iff.mp hnone
    rw [ReportState.beginDraw] at hbegin
    cases clearing with
    | true => cases hbegin
    | false =>
      refine .inr ⟨samples, rfl, ?_⟩
      split at hbegin
      · dsimp only at hbegin
        split at hbegin
        · exact hquery { s.endQuery with inCommandBuffer := true } hbegin
        · split at hbegin
          · cases hbegin
          · exact hquery { s with inCommandBuffer := true } hbegin
      · cases hbegin

/-- In every run that meets the condition the reports in guest memory are, in order, those the guest was
promised, the others are in the queue, and a finish stores them all. No assertion of the processing
fails. -/
theorem reports_stored {enable : Bool} {dmaReport : Word} {es : List ReportEvent}
    (hrun : run (stepBoth E) (.init enable dmaReport, .init enable dmaReport) es = some (s, k))
    (hmeets : Meets (stepBoth E) (fun w e => reportOk E w e = true)
      (.init enable dmaReport, .init enable dmaReport) es) :
    (∃ pending, k.stored = s.reports ++ pending ∧
        pending.length = (s.reportQueue.filter fun report => !report.clear).length) ∧
      (∃ s', s.finish E = some s' ∧ s'.reports = k.stored) ∧
      ∀ e, reportOk E (s, k) e = true → s.step E e = none →
        (∃ parameter, e = .getReport parameter ∧ getMask parameter 0xFF000000 ≠ 1) ∨
          ∃ samples, e = .draw false samples ∧ maxQueriesInFlight ≤ s.queryResults.length := by
  have hsim : Sim E s k := run_invariant_of_meets (fun w => Sim E w.1 w.2) (fun w e w' => step_sim)
    (Sim.init E enable dmaReport) hmeets hrun
  refine ⟨?_, ?_, fun e hok hnone => step_eq_none hsim hok hnone⟩
  · obtain ⟨d, t, hd⟩ := hsim.drained
    obtain ⟨pending, hpending, hlength⟩ := foldlM_reports hd.drain
    exact ⟨pending, hd.reports.symm.trans hpending, hlength⟩
  · obtain ⟨s', hfinish, -, hreports, -⟩ := hsim.finish
    exact ⟨s', hfinish, hreports⟩

end Runs

def plainReportEnv : ReportEnv := ⟨2, fun _ => 0x1000⟩

def countedDraws : List ReportEvent :=
  [.setZpassPixelCountEnable true, .clearReportValue, .draw false 40, .finish, .draw false 60,
    .getReport 0x01000010, .draw true 8, .draw false 20, .getReport 0x01000020]

theorem reports_stored_split :
    ∃ s k s', run (stepBoth plainReportEnv) (.init false 7, .init false 7) countedDraws = some (s, k) ∧
      s.reports = [] ∧ s.finish plainReportEnv = some s' ∧ s'.reports = k.stored ∧
      k.stored.map (fun report => (report.dmaReport, report.offset, report.result)) =
        [(7, 0x10, 25), (7, 0x20, 30)] := by
  obtain ⟨⟨s, k⟩, hs, hreports, hstored⟩ : ∃ w,
      run (stepBoth plainReportEnv) (.init false 7, .init false 7) countedDraws = some w ∧
      w.1.reports = [] ∧ w.2.stored.map (fun report =>
        (report.dmaReport, report.offset, report.result)) = [(7, 0x10, 25), (7, 0x20, 30)] := by
    decide +kernel
  obtain ⟨-, ⟨s', hfinish, hfinished⟩, -⟩ := reports_stored hs (by decide +kernel)
  exact ⟨s, k, s', hs, hreports, hfinish, hfinished, hstored⟩

/-- A report taken for DMA object 7 is stored in object 9: the push buffer is not used up, so
`SET_CONTEXT_DMA_REPORT` does not process the queue. -/
theorem report_stored_in_later_object :
    (run (stepBoth plainReportEnv) (.init true 7, .init true 7)
      [.draw false 40, .getReport 0x01000010, .setContextDmaReport 9 false, .finish]).map
        (fun w => (w.1.reports.map Stored.dmaReport, w.2.stored.map Stored.dmaReport)) =
      some ([9], [7]) := by
  decide +kernel

end XogMobile.Nv2a.Vk
