import XogMobile.Lib.Threads

/-!
# The threads around PFIFO

`pfifo_thread` and the threads that lock `pfifo.lock`, `pgraph.lock` and `renderer_lock`: register
accesses, `surface_access_callback`, the CPU that waits for a renderer switch, VM state changes, device
reset and changes of the surface scale. Each point of the program is one constructor of `Pc`, and a step
takes one lock, gives one back or acts on the flags the threads share. What the pusher, a method or the
configuration decides is a choice of the schedule. A broadcast of a condition variable is counted, and a
thread asleep on it may go on when the count has moved, or at any time (a spurious wake-up).
-/

namespace XogMobile.Nv2a

open Lib

inductive Thread (ι : Type) where
  | pfifo
  | other (i : ι)
  deriving DecidableEq

namespace Locking

inductive Lock where
  | pfifo
  | pgraph
  | renderer
  deriving DecidableEq

inductive SwitchPhase where
  | idle
  | started
  | cpuWaiting
  deriving DecidableEq

/-- What the threads share. The `Complete` flags are events, the `Cond` counters condition variables. -/
structure Flags where
  (halt fifoKick : Bool)
  (fifoCond fifoIdleCond : Nat)
  (downloadsPending downloadsComplete downloadDirtySurfacesPending : Bool)
  (dirtySurfacesDownloadComplete flushPending flushComplete : Bool)
  rendererSwitchPhase : SwitchPhase
  (rendererSwitchComplete rendererSwitchQueued framebufferInUse : Bool)
  deriving DecidableEq

/-- The two calls of `process_pending`. -/
inductive Return where
  | loop
  | switch
  deriving DecidableEq

inductive Section where
  | resetHalt
  | resetClear (halted : Bool)
  | saveHalt
  | save
  | restore
  | load
  | running
  deriving DecidableEq

inductive After where
  | reset (halted : Bool)
  | saveHalt
  | restore
  | finished
  deriving DecidableEq

inductive ScaleStage where
  | dirty
  | flush
  deriving DecidableEq

inductive Pc where
  /- `pfifo_thread` -/
  | threadLock
  | top
  | idle
  | broadcastIdle
  | fifoSleep (seen : Nat)
  | fifoAsleep (seen : Nat)
  | fifoWake
  /- `process_pending` -/
  | pend (k : Return)
  | pendUnlock (k : Return)
  | pendLock (k : Return)
  | pendWork (k : Return)
  | pendUnlockPgraph (k : Return)
  | pendRelock (k : Return)
  /- `pgraph_process_pending` -/
  | switchCheck
  | switchLockRenderer
  | switchUnlock
  | switchLockPgraph
  | switchFlush
  | switchLockPfifo
  | switchUnlockPgraph
  | switchUnlockPfifo
  | switchRelockPgraph
  | switchFramebuffer
  | framebufferSleep
  | framebufferAsleep
  | framebufferWake
  | switchUnlockRenderer
  | switchUnlockLast
  | switchRelock
  | switchComplete
  /- `pfifo_run_pusher` and `pfifo_run_puller` -/
  | haltCheck
  | pusher
  | puller
  | flipLock
  | flipUnlock
  | pullerStall
  | methodUnlock
  | methodLock
  | method
  | methodDrop
  | methodBql
  | methodRelock
  | methodEnd
  | pullerRelock
  | pulled
  /- the other threads, between calls -/
  | free
  | scaleFree
  /- `pgraph_write`, `pgraph_read` -/
  | writeLockPfifo
  | writeLockPgraph
  | write
  | writeUnlockPgraph
  | writeUnlockPfifo
  | readLock
  | readUnlock
  /- `surface_access_callback` -/
  | accessLock
  | access
  | accessUnlock (wait : Bool)
  | accessLockPfifo
  | accessRequest
  | accessUnlockPfifo
  | accessWait
  /- `do_wait_for_renderer_switch` -/
  | cpuLock
  | cpuKick
  | cpuUnlock
  | cpuWait
  /- `nv2a_lock_fifo`, `nv2a_unlock_fifo` -/
  | lockFifo (c : Section)
  | lockBroadcast (c : Section)
  | lockSleep (c : Section) (seen : Nat)
  | lockAsleep (c : Section) (seen : Nat)
  | lockWake (c : Section)
  | lockPgraph (c : Section)
  | locked (c : Section)
  | clear
  | unlockFifo (a : After)
  | unlockPgraph (a : After)
  | unlockPfifo (a : After)
  | resetWait (halted : Bool)
  | saveWait
  | restored
  /- `pgraph_vk_set_surface_scale_factor` -/
  | scaleLockRenderer
  | scaleLockHalt
  | scaleHalt
  | scaleUnlockHalt
  | scaleLockPgraph (k : ScaleStage)
  | scaleTrigger (k : ScaleStage)
  | scaleUnlockPgraph (k : ScaleStage)
  | scaleLockKick (k : ScaleStage)
  | scaleKick (k : ScaleStage)
  | scaleUnlockKick (k : ScaleStage)
  | scaleWait (k : ScaleStage)
  | scaleLockRun
  | scaleRun
  | scaleUnlockRun
  | scaleUnlockRenderer
  deriving DecidableEq

namespace Flags

variable (x : Flags)

def kick : Flags := { x with fifoKick := true, fifoCond := x.fifoCond + 1 }

/-- The body of `pgraph_vk_process_pending`. -/
def processPending : Flags :=
  let x := if x.downloadsPending then
    { x with downloadsPending := false, downloadsComplete := true } else x
  let x := if x.downloadDirtySurfacesPending then
    { x with downloadDirtySurfacesPending := false, dirtySurfacesDownloadComplete := true } else x
  if x.flushPending then { x with flushPending := false, flushComplete := true } else x

def anyPending : Bool :=
  x.downloadsPending || x.downloadDirtySurfacesPending || x.flushPending

def startSwitch : Flags :=
  if x.rendererSwitchPhase = .idle then
    { x with
      rendererSwitchPhase := .started
      rendererSwitchComplete := false
      rendererSwitchQueued := true }
  else x

def trigger : ScaleStage → Flags
  | .dirty => { x with dirtySurfacesDownloadComplete := false, downloadDirtySurfacesPending := true }
  | .flush => { x with flushComplete := false, flushPending := true }

def scaleComplete : ScaleStage → Bool
  | .dirty => x.dirtySurfacesDownloadComplete
  | .flush => x.flushComplete

end Flags

def goto (next : Pc) (f : Flags → Flags) : Instr Flags Pc Lock := .act fun _ x => some (f x, next)

def choose (nexts : List Pc) : Instr Flags Pc Lock :=
  .act fun c x => nexts[c]?.map fun next => (x, next)

def branch (flag : Flags → Bool) (yes no : Pc) : Instr Flags Pc Lock :=
  .act fun _ x => some (x, if flag x then yes else no)

def await (flag : Flags → Bool) (next : Pc) : Instr Flags Pc Lock :=
  .act fun _ x => if flag x then some (x, next) else none

def start : Nat → Flags → Option (Flags × Pc)
  | 0, x => some (x, .writeLockPfifo)
  | 1, x => some (x, .readLock)
  | 2, x => some (x, .accessLock)
  | 3, x => if x.rendererSwitchQueued then some ({ x with rendererSwitchQueued := false }, .cpuLock)
      else none
  | 4, x => some (x, .lockFifo .resetHalt)
  | 5, x => some (x, .lockFifo .saveHalt)
  | 6, x => some (x, .lockFifo .restore)
  | 7, x => some (x, .lockFifo .running)
  | _, _ => none

def inSection : Section → Flags → Flags × Pc
  | .resetHalt, x =>
    ({ x with halt := true, flushComplete := false, flushPending := true }, .unlockFifo (.reset x.halt))
  | .resetClear halted, x => (if halted then x else { x with halt := false }, .clear)
  | .saveHalt, x =>
    ({ x with
      halt := true
      downloadDirtySurfacesPending := true
      dirtySurfacesDownloadComplete := false }, .unlockFifo .saveHalt)
  | .save, x => (x, .unlockFifo .finished)
  | .restore, x => ({ x with halt := true }, .unlockFifo .restore)
  | .load, x => ({ x with flushPending := true }, .unlockFifo .finished)
  | .running, x => ({ x with halt := false }, .unlockFifo .finished)

def afterUnlock : After → Pc
  | .reset halted => .resetWait halted
  | .saveHalt => .saveWait
  | .restore => .restored
  | .finished => .free

def afterPending : Return → Pc
  | .loop => .switchCheck
  | .switch => .switchUnlockPfifo

def afterAccess (wait : Bool) : Pc := if wait then .accessLockPfifo else .free

def afterScale : ScaleStage → Pc
  | .dirty => .scaleLockPgraph .flush
  | .flush => .scaleLockRun

def code : Pc → Instr Flags Pc Lock
  | .threadLock => .lock .pfifo .top
  | .top => goto (.pend .loop) fun x => { x with fifoKick := false }
  | .idle => branch Flags.fifoKick .top .broadcastIdle
  | .broadcastIdle =>
    .act fun _ x => some ({ x with fifoIdleCond := x.fifoIdleCond + 1 }, .fifoSleep x.fifoCond)
  | .fifoSleep seen => .unlock .pfifo (.fifoAsleep seen)
  | .fifoAsleep seen =>
    .act fun c x => if x.fifoCond ≠ seen ∨ c = 1 then some (x, .fifoWake) else none
  | .fifoWake => .lock .pfifo .top
  | .pend k => branch Flags.anyPending (.pendUnlock k) (afterPending k)
  | .pendUnlock k => .unlock .pfifo (.pendLock k)
  | .pendLock k => .lock .pgraph (.pendWork k)
  | .pendWork k => goto (.pendUnlockPgraph k) Flags.processPending
  | .pendUnlockPgraph k => .unlock .pgraph (.pendRelock k)
  | .pendRelock k => .lock .pfifo (afterPending k)
  | .switchCheck => .act fun c x =>
    let x := if c = 1 then x.startSwitch else x
    some (x, if x.rendererSwitchPhase = .cpuWaiting then .switchLockRenderer else .haltCheck)
  | .switchLockRenderer => .lock .renderer .switchUnlock
  | .switchUnlock => .unlock .pfifo .switchLockPgraph
  | .switchLockPgraph => .lock .pgraph .switchFlush
  | .switchFlush => goto .switchLockPfifo fun x => { x with flushComplete := false, flushPending := true }
  | .switchLockPfifo => .lock .pfifo .switchUnlockPgraph
  | .switchUnlockPgraph => .unlock .pgraph (.pend .switch)
  | .switchUnlockPfifo => .unlock .pfifo .switchRelockPgraph
  | .switchRelockPgraph => .lock .pgraph .switchFramebuffer
  | .switchFramebuffer => branch Flags.framebufferInUse .framebufferSleep .switchUnlockRenderer
  | .framebufferSleep => .unlock .renderer .framebufferAsleep
  | .framebufferAsleep => choose [.framebufferWake]
  | .framebufferWake => .lock .renderer .switchFramebuffer
  | .switchUnlockRenderer => .unlock .renderer .switchUnlockLast
  | .switchUnlockLast => .unlock .pgraph .switchRelock
  | .switchRelock => .lock .pfifo .switchComplete
  | .switchComplete => goto .haltCheck fun x =>
    { x with rendererSwitchPhase := .idle, rendererSwitchComplete := true }
  | .haltCheck => branch Flags.halt .idle .pusher
  -- 0: the loop ends, 1: a word that is no data, 2: a data word
  | .pusher => choose [.idle, .pusher, .puller]
  -- 1: `waiting_for_flip` is set
  | .puller => choose [.pullerStall, .flipLock]
  | .flipLock => .lock .pgraph .flipUnlock
  | .flipUnlock => .unlock .pgraph .pullerStall
  -- 0: the puller stalls
  | .pullerStall => choose [.idle, .methodUnlock]
  | .methodUnlock => .unlock .pfifo .methodLock
  | .methodLock => .lock .pgraph .method
  -- 1: an interrupt is raised, with the lock given up for the BQL
  | .method => choose [.methodEnd, .methodDrop]
  | .methodDrop => .unlock .pgraph .methodBql
  | .methodBql => choose [.methodRelock]
  | .methodRelock => .lock .pgraph .method
  | .methodEnd => .unlock .pgraph .pullerRelock
  | .pullerRelock => .lock .pfifo .pulled
  -- 0: the puller returned a stall or an error, 1: `DMA_GET` and `DMA_STATE` move on
  | .pulled => choose [.idle, .pusher]
  | .free => .act start
  | .scaleFree => choose [.scaleLockRenderer]
  | .writeLockPfifo => .lock .pfifo .writeLockPgraph
  | .writeLockPgraph => .lock .pgraph .write
  | .write => .act fun c x => some (if c = 1 then x.kick else x, .writeUnlockPgraph)
  | .writeUnlockPgraph => .unlock .pgraph .writeUnlockPfifo
  | .writeUnlockPfifo => .unlock .pfifo .free
  | .readLock => .lock .pgraph .readUnlock
  | .readUnlock => .unlock .pgraph .free
  | .accessLock => .lock .pgraph .access
  -- 1: a surface in the range is `draw_dirty`
  | .access => choose [.accessUnlock false, .accessUnlock true]
  | .accessUnlock wait => .unlock .pgraph (afterAccess wait)
  | .accessLockPfifo => .lock .pfifo .accessRequest
  | .accessRequest => goto .accessUnlockPfifo fun x =>
    { x with downloadsComplete := false, downloadsPending := true }.kick
  | .accessUnlockPfifo => .unlock .pfifo .accessWait
  | .accessWait => await Flags.downloadsComplete .free
  | .cpuLock => .lock .pfifo .cpuKick
  | .cpuKick => goto .cpuUnlock fun x => { x with rendererSwitchPhase := .cpuWaiting }.kick
  | .cpuUnlock => .unlock .pfifo .cpuWait
  | .cpuWait => await Flags.rendererSwitchComplete .free
  | .lockFifo c => .lock .pfifo (.lockBroadcast c)
  | .lockBroadcast c =>
    .act fun _ x => some ({ x with fifoCond := x.fifoCond + 1 }, .lockSleep c x.fifoIdleCond)
  | .lockSleep c seen => .unlock .pfifo (.lockAsleep c seen)
  | .lockAsleep c seen =>
    .act fun n x => if x.fifoIdleCond ≠ seen ∨ n = 1 then some (x, .lockWake c) else none
  | .lockWake c => .lock .pfifo (.lockPgraph c)
  | .lockPgraph c => .lock .pgraph (.locked c)
  | .locked c => .act fun _ x => some (inSection c x)
  | .clear => goto (.unlockFifo .finished) id
  | .unlockFifo a => goto (.unlockPgraph a) Flags.kick
  | .unlockPgraph a => .unlock .pgraph (.unlockPfifo a)
  | .unlockPfifo a => .unlock .pfifo (afterUnlock a)
  | .resetWait halted => await Flags.flushComplete (.lockFifo (.resetClear halted))
  | .saveWait => await Flags.dirtySurfacesDownloadComplete (.lockFifo .save)
  -- 0: `nv2a_pre_load`
  | .restored => choose [.lockFifo .load, .free]
  | .scaleLockRenderer => .lock .renderer .scaleLockHalt
  | .scaleLockHalt => .lock .pfifo .scaleHalt
  | .scaleHalt => goto .scaleUnlockHalt fun x => { x with halt := true }
  | .scaleUnlockHalt => .unlock .pfifo (.scaleLockPgraph .dirty)
  | .scaleLockPgraph k => .lock .pgraph (.scaleTrigger k)
  | .scaleTrigger k => goto (.scaleUnlockPgraph k) fun x => x.trigger k
  | .scaleUnlockPgraph k => .unlock .pgraph (.scaleLockKick k)
  | .scaleLockKick k => .lock .pfifo (.scaleKick k)
  | .scaleKick k => goto (.scaleUnlockKick k) Flags.kick
  | .scaleUnlockKick k => .unlock .pfifo (.scaleWait k)
  | .scaleWait k => await (fun x => x.scaleComplete k) (afterScale k)
  | .scaleLockRun => .lock .pfifo .scaleRun
  | .scaleRun => goto .scaleUnlockRun fun x => { x with halt := false }.kick
  | .scaleUnlockRun => .unlock .pfifo .scaleUnlockRenderer
  | .scaleUnlockRenderer => .unlock .renderer .scaleFree

def holds (pfifo pgraph renderer : Bool) : Lock → Bool
  | .pfifo => pfifo
  | .pgraph => pgraph
  | .renderer => renderer

def Return.inSwitch : Return → Bool
  | .loop => false
  | .switch => true

def nothing : Lock → Bool := holds false false false
def fifo : Lock → Bool := holds true false false
def graph : Lock → Bool := holds false true false
def both : Lock → Bool := holds true true false

def held : Pc → Lock → Bool
  | .threadLock | .fifoAsleep _ | .fifoWake => nothing
  | .top | .idle | .broadcastIdle | .fifoSleep _ => fifo
  | .pend k | .pendUnlock k => holds true false k.inSwitch
  | .pendLock k | .pendRelock k => holds false false k.inSwitch
  | .pendWork k | .pendUnlockPgraph k => holds false true k.inSwitch
  | .switchCheck | .switchLockRenderer => fifo
  | .switchUnlock => holds true false true
  | .switchLockPgraph => holds false false true
  | .switchFlush | .switchLockPfifo => holds false true true
  | .switchUnlockPgraph => holds true true true
  | .switchUnlockPfifo => holds true false true
  | .switchRelockPgraph => holds false false true
  | .switchFramebuffer | .framebufferSleep | .switchUnlockRenderer => holds false true true
  | .framebufferAsleep | .framebufferWake | .switchUnlockLast => graph
  | .switchRelock => nothing
  | .switchComplete | .haltCheck | .pusher | .puller | .flipLock => fifo
  | .flipUnlock => both
  | .pullerStall | .methodUnlock => fifo
  | .methodLock | .methodBql | .methodRelock | .pullerRelock => nothing
  | .method | .methodDrop | .methodEnd => graph
  | .pulled => fifo
  | .free | .scaleFree => nothing
  | .writeLockPfifo | .readLock => nothing
  | .writeLockPgraph | .writeUnlockPfifo => fifo
  | .write | .writeUnlockPgraph => both
  | .readUnlock => graph
  | .accessLock | .accessLockPfifo | .accessWait => nothing
  | .access | .accessUnlock _ => graph
  | .accessRequest | .accessUnlockPfifo => fifo
  | .cpuLock | .cpuWait => nothing
  | .cpuKick | .cpuUnlock => fifo
  | .lockFifo _ | .lockAsleep _ _ | .lockWake _ => nothing
  | .lockBroadcast _ | .lockSleep _ _ | .lockPgraph _ => fifo
  | .locked _ | .clear | .unlockFifo _ | .unlockPgraph _ => both
  | .unlockPfifo _ => fifo
  | .resetWait _ | .saveWait | .restored => nothing
  | .scaleLockRenderer => nothing
  | .scaleLockHalt | .scaleLockPgraph _ | .scaleLockKick _ | .scaleWait _ | .scaleLockRun =>
    holds false false true
  | .scaleHalt | .scaleUnlockHalt | .scaleKick _ | .scaleUnlockKick _ | .scaleRun
  | .scaleUnlockRun => holds true false true
  | .scaleTrigger _ | .scaleUnlockPgraph _ => holds false true true
  | .scaleUnlockRenderer => holds false false true

/-- The parts of the program. `switchWindow` is where a renderer switch has given `pfifo.lock` back and
has not taken it again, and a thread at `pair` holds `pfifo.lock` and wants `pgraph.lock`. -/
inductive Region where
  | fifo
  | switchEntry
  | switchWindow
  | pusherEntry
  | pusher
  | other
  | pairEntry
  | pair
  | scale
  deriving DecidableEq

inductive Role where
  | fifo
  | other
  | scale
  deriving DecidableEq

def Region.role : Region → Role
  | .fifo | .switchEntry | .switchWindow | .pusherEntry | .pusher => .fifo
  | .other | .pairEntry | .pair => .other
  | .scale => .scale

def region : Pc → Region
  | .switchUnlock => .switchEntry
  | .switchLockPgraph | .switchFlush | .switchLockPfifo => .switchWindow
  | .haltCheck => .pusherEntry
  | .pusher | .puller | .flipLock | .flipUnlock | .pullerStall | .methodUnlock | .methodLock
  | .method | .methodDrop | .methodBql | .methodRelock | .methodEnd | .pullerRelock | .pulled =>
    .pusher
  | .writeLockPfifo | .lockWake _ => .pairEntry
  | .writeLockPgraph | .lockPgraph _ => .pair
  | .free | .write | .writeUnlockPgraph | .writeUnlockPfifo | .readLock | .readUnlock | .accessLock
  | .access | .accessUnlock _ | .accessLockPfifo | .accessRequest | .accessUnlockPfifo | .accessWait
  | .cpuLock | .cpuKick | .cpuUnlock | .cpuWait | .lockFifo _ | .lockBroadcast _ | .lockSleep _ _
  | .lockAsleep _ _ | .locked _ | .clear | .unlockFifo _ | .unlockPgraph _ | .unlockPfifo _
  | .resetWait _ | .saveWait | .restored => .other
  | .scaleFree | .scaleLockRenderer | .scaleLockHalt | .scaleHalt | .scaleUnlockHalt
  | .scaleLockPgraph _ | .scaleTrigger _ | .scaleUnlockPgraph _ | .scaleLockKick _ | .scaleKick _
  | .scaleUnlockKick _ | .scaleWait _ | .scaleLockRun | .scaleRun | .scaleUnlockRun
  | .scaleUnlockRenderer => .scale
  | _ => .fifo

def Region.reachedFrom : Region → Region → Bool
  | .switchWindow, a => a == .switchEntry || a == .switchWindow
  | .pusher, a => a == .pusherEntry || a == .pusher
  | .pair, a => a == .pairEntry
  | b, a => a.role == b.role

theorem held_afterPending (k : Return) :
    held (afterPending k) = holds true false k.inSwitch ∧ region (afterPending k) = .fifo := by
  cases k <;> exact ⟨rfl, rfl⟩

theorem held_afterAccess (wait : Bool) : held (afterAccess wait) = nothing ∧ region (afterAccess wait) = .other := by
  cases wait <;> exact ⟨rfl, rfl⟩

theorem held_afterScale (k : ScaleStage) :
    held (afterScale k) = holds false false true ∧ region (afterScale k) = .scale := by
  cases k <;> exact ⟨rfl, rfl⟩

theorem held_afterUnlock (a : After) : held (afterUnlock a) = nothing ∧ region (afterUnlock a) = .other := by
  cases a <;> exact ⟨rfl, rfl⟩

theorem held_inSection (c : Section) (x : Flags) :
    held (inSection c x).2 = both ∧ region (inSection c x).2 = .other := by
  cases c <;> exact ⟨rfl, rfl⟩

theorem held_lock {p next : Pc} {l : Lock} (h : code p = .lock l next) :
    held next = Function.update (held p) l true := by
  funext m
  cases p <;> cases h <;> try rw [(held_afterPending _).1]
  all_goals cases m <;> rfl

theorem held_unlock {p next : Pc} {l : Lock} (h : code p = .unlock l next) :
    held p l = true ∧ held next = Function.update (held p) l false := by
  refine ⟨by cases p <;> cases h <;> rfl, ?_⟩
  funext m
  cases p <;> cases h <;> try rw [(held_afterUnlock _).1]
  case accessUnlock => rw [(held_afterAccess _).1]; cases m <;> rfl
  all_goals cases m <;> rfl

section Act

variable {p yes no next : Pc} {nexts : List Pc} {c : Nat} {x x' : Flags} {b : Bool}
  {f : Nat → Flags → Option (Flags × Pc)}

theorem choose_next (h : nexts[c]?.map (fun next => (x, next)) = some (x', next)) : next ∈ nexts := by
  obtain ⟨q, hq, heq⟩ := Option.map_eq_some_iff.mp h
  cases heq
  exact List.mem_of_getElem? hq

theorem branch_next (h : some (x, if b then yes else no) = some (x', next)) : next = yes ∨ next = no := by
  cases b <;> cases h
  · exact .inr rfl
  · exact .inl rfl

theorem await_next {q : Prop} [Decidable q]
    (h : (if q then some (x, yes) else none) = some (x', next)) : next = yes := by
  split at h <;> cases h
  rfl

theorem held_start (h : start c x = some (x', next)) :
    held next = nothing ∧ (region next = .other ∨ region next = .pairEntry) := by
  rw [start.eq_def] at h
  split at h
  case h_1 => cases h; exact ⟨rfl, .inr rfl⟩
  case h_4 =>
    split at h
    · cases h
      exact ⟨rfl, .inl rfl⟩
    · cases h
  case h_9 => cases h
  all_goals cases h; exact ⟨rfl, .inl rfl⟩

theorem held_act (h : code p = .act f) (hact : f c x = some (x', next)) :
    held next = held p ∧ (region next).reachedFrom (region p) = true := by
  cases p <;> cases h
  case idle | switchFramebuffer | haltCheck =>
    obtain rfl | rfl := branch_next hact <;> exact ⟨rfl, rfl⟩
  case pend k =>
    obtain rfl | rfl := branch_next hact
    · exact ⟨rfl, rfl⟩
    · rw [(held_afterPending k).1, (held_afterPending k).2]
      exact ⟨rfl, rfl⟩
  case switchCheck =>
    obtain ⟨-, rfl⟩ := Prod.mk.inj (Option.some.inj hact)
    split <;> split <;> exact ⟨rfl, rfl⟩
  case locked c =>
    have hnext : (inSection c x).2 = next := congrArg Prod.snd (Option.some.inj hact)
    rw [← hnext, (held_inSection c x).1, (held_inSection c x).2]
    exact ⟨rfl, rfl⟩
  case free => obtain ⟨hheld, hnext | hnext⟩ := held_start hact <;> rw [hnext] <;> exact ⟨hheld, rfl⟩
  case scaleWait k =>
    rw [await_next hact, (held_afterScale k).1, (held_afterScale k).2]
    exact ⟨rfl, rfl⟩
  case fifoAsleep | lockAsleep | accessWait | cpuWait | resetWait | saveWait =>
    rw [await_next hact]
    exact ⟨rfl, rfl⟩
  case framebufferAsleep | methodBql | scaleFree | puller | pullerStall | method | pulled | access
    | restored | pusher =>
    have hnext := choose_next hact
    simp only [List.mem_cons, List.not_mem_nil, or_false] at hnext
    rcases hnext with rfl | rfl | rfl <;> exact ⟨rfl, rfl⟩
  all_goals cases hact; exact ⟨rfl, rfl⟩

end Act

theorem locks : Threads.Locks code held where
  lock := held_lock
  unlock h := (held_unlock h).2
  owned h := (held_unlock h).1
  act h hact := (held_act h hact).1

section Reached

variable {p next : Pc} {l : Lock}

theorem region_lock (h : code p = .lock l next) : (region next).reachedFrom (region p) = true := by
  cases p <;> cases h
  case pendRelock k => rw [(held_afterPending k).2]; rfl
  all_goals rfl

theorem region_unlock (h : code p = .unlock l next) : (region next).reachedFrom (region p) = true := by
  cases p <;> cases h
  case accessUnlock wait => rw [(held_afterAccess wait).2]; rfl
  case unlockPfifo a => rw [(held_afterUnlock a).2]; rfl
  all_goals rfl

theorem goes_region (h : Threads.Goes code p next) : (region next).reachedFrom (region p) = true := by
  cases h with
  | lock hcode => exact region_lock hcode
  | unlock hcode => exact region_unlock hcode
  | act hcode hact => exact (held_act hcode hact).2

end Reached

end Locking

end XogMobile.Nv2a
