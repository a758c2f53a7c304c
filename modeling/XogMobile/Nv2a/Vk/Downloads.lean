import XogMobile.Nv2a.Threads
import XogMobile.Nv2a.Vk.Surface

/-!
# Downloads for other threads

The CPU and the display want surfaces written back to VRAM, and the PFIFO thread does it. A call marks
the surface with `download_pending`, resets `downloads_complete`, sets `downloads_pending`, kicks the
PFIFO thread and waits for the event. `surface_access_callback` marks under `pgraph.lock`, which the
PFIFO thread holds while it goes through the surfaces. `pgraph_vk_wait_for_surface_download` marks under
`pfifo.lock` only, and the PFIFO thread has given that one up by then.
-/

namespace XogMobile.Nv2a.Vk.Downloads

open Lib Function List Prod

inductive Lock where
  | pfifo
  | pgraph
  deriving DecidableEq

/-- The image of a surface is what its first `drawn` draws made of it, and VRAM has what its first
`saved` draws made of it. -/
structure Store where
  (drawn saved : Nat → Nat)

def Store.writeBack (p : Nat) (x : Store) : Store :=
  { x with saved := update x.saved p (x.drawn p) }

def Store.draw (p : Nat) (x : Store) : Store := { x with drawn := update x.drawn p (x.drawn p + 1) }

theorem Store.saved_writeBack (x : Store) (p q : Nat) :
    (x.writeBack p).saved q = if q = p then x.drawn p else x.saved q :=
  update_apply ..

theorem Store.drawn_draw (x : Store) (p q : Nat) : (x.draw p).drawn q = if q = p then x.drawn p + 1 else x.drawn q :=
  update_apply ..

def host : Host Store where
  tcgEnabled := true
  d24UnormS8Uint := true
  writeBack p _ x := x.writeBack p
  upload _ _ x := x

/-- `fifoCond` is the number of broadcasts to `fifo_cond`. -/
structure Shared where
  r : VkState Store
  (downloadsComplete fifoKick : Bool)
  fifoCond : Nat

structure Sight where
  (surface drawn : Nat)
  deriving DecidableEq

/-- The points of the PFIFO thread, and those of the calls. `force` tells `download_dirty_surfaces` from
`process_pending_downloads`. -/
inductive Pc where
  | threadLock
  | top
  | pendingCheck
  | unlock
  | lockPgraph
  | pendingDownloads
  | scan (force : Bool) (todo : List Nat)
  | download (force : Bool) (p : Nat) (todo : List Nat)
  | clearPending (force : Bool) (p : Nat) (todo : List Nat)
  | clearDirty (force : Bool) (p : Nat) (todo : List Nat)
  | clearDownloads
  | setComplete
  | pendingDirty
  | clearDirtyDownloads
  | unlockPgraph
  | relock
  | pusher
  | drawUnlock (p : Nat)
  | drawLock (p : Nat)
  | draw (p : Nat)
  | drawUnlockPgraph
  | kickCheck
  | sleep (seen : Nat)
  | asleep (seen : Nat)
  /- calls -/
  | free
  | displayRead (p : Nat)
  | displayLock (i : Sight)
  | displayReset (i : Sight)
  | mark (i : Sight)
  | accessLock (addr len : Hwaddr) (write : Bool)
  | accessStart (addr len : Hwaddr) (write : Bool)
  | access (addr len : Hwaddr) (write : Bool) (todo : List Nat) (seen : List Sight)
  | accessUnlock (seen : List Sight)
  | accessFifo (seen : List Sight)
  | accessReset (seen : List Sight)
  | request (seen : List Sight)
  | kick (seen : List Sight)
  | unlockFifo (seen : List Sight)
  | wait (seen : List Sight)
  | returned (seen : List Sight)
  deriving DecidableEq

namespace Shared

variable (x : Shared)

def setSurface (p : Nat) (s : SurfaceBinding) : Shared := { x with r := x.r.set p s }

def sight (p : Nat) : Sight := ⟨p, x.r.store.drawn p⟩

def wanted (force : Bool) (s : SurfaceBinding) : Bool :=
  if force then s.drawDirty else s.downloadPending

/-- The loops over the surfaces, with the test of `download_surface`. -/
def scanNext (force : Bool) : List Nat → Pc
  | [] => if force then .clearDirtyDownloads else .clearDownloads
  | p :: todo =>
    let s := x.r.mem p
    if !wanted force s || s.width == 0 || s.height == 0 then
      .scan force todo
    else .download force p todo

/-- One surface in the loop of `surface_access_callback`. -/
def accessNext (addr len : Hwaddr) (write : Bool) (seen : List Sight) :
    List Nat → Shared × Pc
  | [] => (x, .accessUnlock seen)
  | p :: todo =>
    if checkSurfaceOverlapsRange (x.r.mem p) addr len then
      (x.setSurface p (VkState.markAccess (x.r.mem p) write), .access addr len write todo
        (if (x.r.mem p).drawDirty then x.sight p :: seen else seen))
    else (x, .access addr len write todo seen)

/-- The call a thread makes: a VM save that wants every dirty surface, the display with a surface, or an
access of the CPU. -/
def call (c : Nat) : Shared × Pc :=
  if c % 3 = 0 then ({ x with r := { x.r with downloadDirtySurfacesPending := true } }, .free)
  else if c % 3 = 1 then (x, .displayRead (c / 3))
  else (x, .accessLock (BitVec.ofNat 64 (c / 6 / 2 ^ 64)) (BitVec.ofNat 64 (c / 6)) (c / 3 % 2 == 1))

end Shared

def afterAccess : List Sight → Pc
  | [] => .free
  | i :: seen => .accessFifo (i :: seen)

def code : Pc → Instr Shared Pc Lock
  | .threadLock => .lock .pfifo .top
  | .top => .act fun _ x => some ({ x with fifoKick := false }, .pendingCheck)
  -- 1: a sync or a flush is pending
  | .pendingCheck => .act fun c x => some (x,
      if x.r.downloadsPending || x.r.downloadDirtySurfacesPending || c == 1 then .unlock
      else .pusher)
  | .unlock => .unlock .pfifo .lockPgraph
  | .lockPgraph => .lock .pgraph .pendingDownloads
  | .pendingDownloads => .act fun _ x => some (x,
      if x.r.downloadsPending then .scan false x.r.surfaces else .pendingDirty)
  | .scan force todo => .act fun _ x => some (x, x.scanNext force todo)
  | .download force p todo => .act fun _ x =>
    some ({ x with r := { x.r with store := x.r.store.writeBack p } }, .clearPending force p todo)
  | .clearPending force p todo => .act fun _ x =>
    some (x.setSurface p { x.r.mem p with downloadPending := false }, .clearDirty force p todo)
  | .clearDirty force p todo => .act fun _ x =>
    some (x.setSurface p { x.r.mem p with drawDirty := false, unsaved := false },
      .scan force todo)
  | .clearDownloads => .act fun _ x =>
    some ({ x with r := { x.r with downloadsPending := false } }, .setComplete)
  | .setComplete => .act fun _ x => some ({ x with downloadsComplete := true }, .pendingDirty)
  | .pendingDirty => .act fun _ x => some (x,
      if x.r.downloadDirtySurfacesPending then .scan true x.r.surfaces else .unlockPgraph)
  | .clearDirtyDownloads => .act fun _ x =>
    some ({ x with r := { x.r with downloadDirtySurfacesPending := false } }, .unlockPgraph)
  | .unlockPgraph => .unlock .pgraph .relock
  | .relock => .lock .pfifo .pusher
  -- The pusher draws to some surfaces, each time with `pgraph.lock` for `pfifo.lock`.
  | .pusher => .act fun c x => some (x, if c = 0 then .kickCheck else .drawUnlock (c - 1))
  | .drawUnlock p => .unlock .pfifo (.drawLock p)
  | .drawLock p => .lock .pgraph (.draw p)
  | .draw p => .act fun _ x =>
    some ({ x with r := { x.r.set p { x.r.mem p with drawDirty := true, unsaved := true } with
      store := x.r.store.draw p } }, .drawUnlockPgraph)
  | .drawUnlockPgraph => .unlock .pgraph .relock
  | .kickCheck => .act fun _ x => some (x, if x.fifoKick then .top else .sleep x.fifoCond)
  | .sleep seen => .unlock .pfifo (.asleep seen)
  -- 1: a spurious wake-up
  | .asleep seen => .act fun c x => if seen < x.fifoCond ∨ c = 1 then some (x, .threadLock) else none
  | .free => .act fun c x => some (x.call c)
  | .displayRead p => .act fun _ x =>
    if p ∈ x.r.surfaces then
      some (x, if (x.r.mem p).drawDirty then .displayLock (x.sight p) else .free)
    else none
  | .displayLock i => .lock .pfifo (.displayReset i)
  | .displayReset i => .act fun _ x => some ({ x with downloadsComplete := false }, .mark i)
  | .mark i => .act fun _ x =>
    some (x.setSurface i.surface { x.r.mem i.surface with downloadPending := true }, .request [i])
  | .accessLock addr len write => .lock .pgraph (.accessStart addr len write)
  | .accessStart addr len write => .act fun _ x => some (x, .access addr len write x.r.surfaces [])
  | .access addr len write todo seen => .act fun _ x => some (x.accessNext addr len write seen todo)
  | .accessUnlock seen => .unlock .pgraph (afterAccess seen)
  | .accessFifo seen => .lock .pfifo (.accessReset seen)
  | .accessReset seen => .act fun _ x => some ({ x with downloadsComplete := false }, .request seen)
  | .request seen => .act fun _ x =>
    some ({ x with r := { x.r with downloadsPending := true } }, .kick seen)
  | .kick seen => .act fun _ x =>
    some ({ x with fifoKick := true, fifoCond := x.fifoCond + 1 }, .unlockFifo seen)
  | .unlockFifo seen => .unlock .pfifo (.wait seen)
  | .wait seen => .act fun _ x => if x.downloadsComplete then some (x, .returned seen) else none
  | .returned _ => .act fun _ x => some (x, .free)

def holds (pfifo pgraph : Bool) : Lock → Bool
  | .pfifo => pfifo
  | .pgraph => pgraph

def held : Pc → Lock → Bool
  | .top | .pendingCheck | .unlock | .pusher | .drawUnlock _ | .kickCheck | .sleep _
  | .displayReset _ | .mark _ | .accessReset _ | .request _ | .kick _ | .unlockFifo _ =>
    holds true false
  | .pendingDownloads | .scan _ _ | .download _ _ _ | .clearPending _ _ _ | .clearDirty _ _ _
  | .clearDownloads | .setComplete | .pendingDirty | .clearDirtyDownloads | .unlockPgraph
  | .draw _ | .drawUnlockPgraph | .accessStart _ _ _ | .access _ _ _ _ _ | .accessUnlock _ =>
    holds false true
  | _ => holds false false

def fifoPc : Pc → Bool
  | .free | .displayRead _ | .displayLock _ | .displayReset _ | .mark _ | .accessLock _ _ _
  | .accessStart _ _ _ | .access _ _ _ _ _ | .accessUnlock _ | .accessFifo _ | .accessReset _
  | .request _ | .kick _ | .unlockFifo _ | .wait _ | .returned _ => false
  | _ => true

section Steps

variable {p next : Pc} {l : Lock} {x x' : Shared} {c : Nat}
  {f : Nat → Shared → Option (Shared × Pc)}

theorem scanNext_cases (x : Shared) (force : Bool) (todo : List Nat) :
    (todo = [] ∧ x.scanNext force todo = if force then .clearDirtyDownloads else .clearDownloads) ∨
      ∃ q rest, todo = q :: rest ∧ (x.scanNext force todo = .scan force rest ∧
            (Shared.wanted force (x.r.mem q) = false ∨ (x.r.mem q).width = 0 ∨ (x.r.mem q).height = 0) ∨
          x.scanNext force todo = .download force q rest ∧
            Shared.wanted force (x.r.mem q) = true ∧ (x.r.mem q).width ≠ 0 ∧ (x.r.mem q).height ≠ 0) := by
  cases todo with
  | nil => exact .inl ⟨rfl, rfl⟩
  | cons q rest =>
    refine .inr ⟨q, rest, rfl, ?_⟩
    rw [Shared.scanNext]
    split
    · next h => exact .inl ⟨rfl, by simpa [or_assoc] using h⟩
    · next h => exact .inr ⟨rfl, by simpa [and_assoc] using h⟩

theorem held_act (h : code p = .act f) (hact : f c x = some (x', next)) :
    held next = held p ∧ fifoPc next = fifoPc p := by
  cases p <;> cases h
  case scan force todo =>
    obtain ⟨-, rfl⟩ := mk.inj (Option.some.inj hact)
    obtain ⟨-, heq⟩ | ⟨q, rest, -, ⟨heq, -⟩ | ⟨heq, -⟩⟩ := scanNext_cases x force todo <;> rw [heq]
    · split <;> exact ⟨rfl, rfl⟩
    · exact ⟨rfl, rfl⟩
    · exact ⟨rfl, rfl⟩
  case asleep | wait =>
    dsimp only at hact
    split at hact <;> cases hact
    exact ⟨rfl, rfl⟩
  case displayRead =>
    dsimp only at hact
    split at hact <;> cases hact
    split <;> exact ⟨rfl, rfl⟩
  case free =>
    have hcall : x.call c = (x', next) := Option.some.inj hact
    rw [Shared.call] at hcall
    split at hcall
    · cases hcall
      exact ⟨rfl, rfl⟩
    · split at hcall <;> cases hcall <;> exact ⟨rfl, rfl⟩
  case access addr len write todo seen =>
    have hnext : x.accessNext addr len write seen todo = (x', next) := Option.some.inj hact
    cases todo with
    | nil =>
      cases hnext
      exact ⟨rfl, rfl⟩
    | cons q rest =>
      rw [Shared.accessNext] at hnext
      split at hnext <;> cases hnext <;> exact ⟨rfl, rfl⟩
  case pendingCheck | pendingDownloads | pendingDirty | pusher | kickCheck =>
    obtain ⟨-, rfl⟩ := mk.inj (Option.some.inj hact)
    split <;> exact ⟨rfl, rfl⟩
  all_goals cases hact; exact ⟨rfl, rfl⟩

theorem held_afterAccess (seen : List Sight) :
    held (afterAccess seen) = holds false false ∧ fifoPc (afterAccess seen) = false := by
  cases seen <;> exact ⟨rfl, rfl⟩

theorem fifoPc_goes (h : Threads.Goes code p next) : fifoPc next = fifoPc p := by
  cases h with
  | lock hcode => cases p <;> cases hcode <;> rfl
  | unlock hcode => cases p <;> cases hcode <;> first | rfl | exact (held_afterAccess _).2
  | act hcode hact => exact (held_act hcode hact).2

theorem locks : Threads.Locks code held where
  lock h := by
    rename_i p l next
    funext m
    cases p <;> cases h <;> cases m <;> rfl
  unlock h := by
    rename_i p l next
    funext m
    cases p <;> cases h
    case accessUnlock seen =>
      rw [(held_afterAccess seen).1]
      cases m <;> rfl
    all_goals cases m <;> rfl
  owned h := by
    rename_i p l next
    cases p <;> cases h <;> rfl
  act hcode hact := (held_act hcode hact).1

end Steps

section Alone

variable {ι : Type} [DecidableEq ι] (owner : Lock → Option (Thread ι)) (pc : Thread ι → Pc)

theorem scan_surface (x : Shared) (p : Nat) (todo : List Nat) :
    ∃ n, run (Threads.step code) ⟨x, owner, update pc .pfifo (.scan false (p :: todo))⟩ (List.replicate n ⟨.pfifo, 0⟩) =
      some ⟨{ x with r := x.r.downloadSurface host p false }, owner, update pc .pfifo (.scan false todo)⟩ := by
  by_cases hskip : (!(x.r.mem p).downloadPending || (x.r.mem p).width == 0 || (x.r.mem p).height == 0) = true
  · have hnext : x.scanNext false (p :: todo) = .scan false todo := if_pos hskip
    have hsame : x.r.downloadSurface host p false = x.r := by
      rw [VkState.downloadSurface, Bool.or_false, if_pos hskip]
    refine ⟨1, run_cons_eq_some.mpr ⟨_, Threads.step_at_act rfl rfl, ?_⟩⟩
    rw [hnext, hsame]
    rfl
  · have hnext : x.scanNext false (p :: todo) = .download false p todo := if_neg hskip
    refine ⟨4, run_cons_eq_some.mpr ⟨_, Threads.step_at_act rfl rfl, ?_⟩⟩
    rw [hnext]
    refine run_cons_eq_some.mpr ⟨_, Threads.step_at_act rfl rfl, ?_⟩
    refine run_cons_eq_some.mpr ⟨_, Threads.step_at_act rfl rfl, ?_⟩
    refine run_cons_eq_some.mpr ⟨_, Threads.step_at_act rfl rfl, ?_⟩
    rw [VkState.downloadSurface, Bool.or_false, if_neg hskip]
    simp [Shared.setSurface, VkState.set, host]

/-- With no other thread in between, a scan is `pgraph_vk_process_pending_downloads`. -/
theorem scan_alone (x : Shared) : ∃ n, run (Threads.step code) ⟨x, owner, update pc .pfifo (.scan false x.r.surfaces)⟩
        (List.replicate n ⟨.pfifo, 0⟩) =
      some ⟨{ x with r := x.r.processPendingDownloads host, downloadsComplete := true }, owner,
        update pc .pfifo .pendingDirty⟩ := by
  have hscan : ∀ (todo : List Nat) (x : Shared),
      ∃ n, run (Threads.step code) ⟨x, owner, update pc .pfifo (.scan false todo)⟩
          (replicate n ⟨.pfifo, 0⟩) =
        some ⟨{ x with r := todo.foldl (fun r p => r.downloadSurface host p false) x.r }, owner,
          update pc .pfifo (.scan false [])⟩ := by
    intro todo
    induction todo with
    | nil => exact fun x => ⟨0, rfl⟩
    | cons p todo ih =>
      intro x
      obtain ⟨n, hn⟩ := scan_surface owner pc x p todo
      obtain ⟨m, hm⟩ := ih { x with r := x.r.downloadSurface host p false }
      refine ⟨n + m, ?_⟩
      rw [replicate_add]
      exact run_append_of_eq_some hn hm
  obtain ⟨n, hn⟩ := hscan x.r.surfaces x
  refine ⟨n + 3, ?_⟩
  rw [replicate_add]
  refine run_append_of_eq_some hn ?_
  refine run_cons_eq_some.mpr ⟨_, Threads.step_at_act rfl rfl, ?_⟩
  refine run_cons_eq_some.mpr ⟨_, Threads.step_at_act rfl rfl, ?_⟩
  exact run_cons_eq_some.mpr ⟨_, Threads.step_at_act rfl rfl, rfl⟩

end Alone

def remaining : Pc → Option (List Nat)
  | .scan false todo | .clearPending false _ todo | .clearDirty false _ todo => some todo
  | .download false p todo => some (p :: todo)
  | .clearDownloads | .setComplete => some []
  | _ => none

def ahead (pf : Pc) (p : Nat) : Bool := (remaining pf).all fun todo => decide (p ∈ todo)

theorem ahead_iff {pf : Pc} {p : Nat} : ahead pf p = true ↔ ∀ todo, remaining pf = some todo → p ∈ todo := by
  rw [ahead]
  cases remaining pf <;> simp

namespace Shared

/-- What the call saw is in VRAM. A surface without pixels has nothing to write. -/
def Written (x : Shared) (i : Sight) : Prop :=
  i.drawn ≤ x.r.store.saved i.surface ∨ (x.r.mem i.surface).width = 0 ∨
    (x.r.mem i.surface).height = 0

instance (x : Shared) (i : Sight) : Decidable (x.Written i) := inferInstanceAs (Decidable (_ ∨ _))

/-- The surface is written back, or will be by the pass under way. -/
def Marked (x : Shared) (pf : Pc) (i : Sight) : Prop :=
  x.Written i ∨ (x.r.mem i.surface).downloadPending = true ∧ ahead pf i.surface = true

structure Seen (x : Shared) (i : Sight) : Prop where
  mem : i.surface ∈ x.r.surfaces
  drawn : i.drawn ≤ x.r.store.drawn i.surface

end Shared

def seenAt : Pc → List Sight
  | .displayLock i | .displayReset i | .mark i => [i]
  | .access _ _ _ _ seen | .accessUnlock seen | .accessFifo seen | .accessReset seen
  | .request seen | .kick seen | .unlockFifo seen | .wait seen | .returned seen => seen
  | _ => []

def todoAt : Pc → List Nat
  | .access _ _ _ todo _ => todo
  | _ => []

def marked : Pc → Bool
  | .access _ _ _ _ _ | .accessUnlock _ | .accessFifo _ | .accessReset _ | .request _ | .kick _
  | .unlockFifo _ | .wait _ => true
  | _ => false

def awaits : Pc → Bool
  | .mark _ | .request _ | .kick _ | .unlockFifo _ | .wait _ => true
  | _ => false

theorem marked_of_awaits {p : Pc} (h : awaits p = true) : marked p = true ∨ ∃ i, p = .mark i := by
  cases p <;> first | exact .inl rfl | exact .inr ⟨_, rfl⟩ | cases h

/-- What holds for a call at `p` while the PFIFO thread is at `pf`. -/
structure CallOk (pf : Pc) (x : Shared) (p : Pc) : Prop where
  todo : ∀ q ∈ todoAt p, q ∈ x.r.surfaces
  seen : ∀ i ∈ seenAt p, x.Seen i
  marked : marked p = true → ∀ i ∈ seenAt p, x.Marked pf i
  complete : awaits p = true → x.downloadsComplete = true → ∀ i ∈ seenAt p, x.Written i
  returned : ∀ seen, p = .returned seen → ∀ i ∈ seen, x.Written i

/-- What every step keeps of what a caller has seen. -/
structure Later (pf : Pc) (x : Shared) (pf' : Pc) (x' : Shared) : Prop where
  surfaces : x'.r.surfaces = x.r.surfaces
  drawn : ∀ p, x.r.store.drawn p ≤ x'.r.store.drawn p
  written : ∀ i, x.Seen i → x.Written i → x'.Written i
  marked : ∀ i, x.Seen i → x.Marked pf i → x'.Marked pf' i
  complete : x'.downloadsComplete = true → x.downloadsComplete = true ∨ pf = .setComplete

namespace Later

variable {pf pf' : Pc} {x x' : Shared} {p : Pc}

theorem seen (h : Later pf x pf' x') {i : Sight} (hi : x.Seen i) : x'.Seen i :=
  ⟨h.surfaces ▸ hi.mem, hi.drawn.trans (h.drawn _)⟩

theorem written_of_setComplete {i : Sight} (hi : x.Marked .setComplete i) : x.Written i := by
  obtain hi | ⟨-, hahead⟩ := hi
  · exact hi
  · exact absurd (ahead_iff.mp hahead [] rfl) not_mem_nil

theorem callOk (h : Later pf x pf' x') (hok : CallOk pf x p)
    (hmark : ∀ i, p = .mark i → pf = .setComplete → x.Written i) : CallOk pf' x' p where
  todo := h.surfaces ▸ hok.todo
  seen i hi := h.seen (hok.seen i hi)
  marked hp i hi := h.marked i (hok.seen i hi) (hok.marked hp i hi)
  complete hp hcomplete i hi := by
    apply h.written i (hok.seen i hi)
    obtain hcomplete | rfl := h.complete hcomplete
    · exact hok.complete hp hcomplete i hi
    · obtain hmarked | ⟨j, rfl⟩ := marked_of_awaits hp
      · exact written_of_setComplete (hok.marked hmarked i hi)
      · rw [mem_singleton.mp hi]
        exact hmark j rfl rfl
  returned seen hp i hi := h.written i (hok.seen i (hp ▸ hi)) (hok.returned seen hp i hi)

theorem of_mem (hsurfaces : x'.r.surfaces = x.r.surfaces) (hdrawn : ∀ p, x.r.store.drawn p ≤ x'.r.store.drawn p)
    (hsaved : ∀ p n, n ≤ x.r.store.drawn p → n ≤ x.r.store.saved p → n ≤ x'.r.store.saved p)
    (hsize : ∀ p, (x'.r.mem p).width = (x.r.mem p).width ∧ (x'.r.mem p).height = (x.r.mem p).height)
    (hmarked : ∀ i, x.Seen i → (x.r.mem i.surface).downloadPending = true → ahead pf i.surface = true → x'.Marked pf' i)
    (hcomplete : x'.downloadsComplete = true → x.downloadsComplete = true ∨ pf = .setComplete) :
    Later pf x pf' x' := by
  have hwritten : ∀ i, x.Seen i → x.Written i → x'.Written i := by
    intro i hseen hi
    rw [Shared.Written, (hsize _).1, (hsize _).2]
    exact hi.imp_left (hsaved _ _ hseen.drawn)
  refine ⟨hsurfaces, hdrawn, hwritten, fun i hseen hi => ?_, hcomplete⟩
  obtain hi | ⟨hpending, hahead⟩ := hi
  · exact .inl (hwritten i hseen hi)
  · exact hmarked i hseen hpending hahead

theorem goto (hmem : x'.r.mem = x.r.mem) (hsurfaces : x'.r.surfaces = x.r.surfaces)
    (hstore : x'.r.store = x.r.store) (hevent : x'.downloadsComplete = x.downloadsComplete)
    (hahead : ∀ p ∈ x.r.surfaces, (x.r.mem p).downloadPending = true → ahead pf p = true →
      ahead pf' p = true ∨ (x.r.mem p).width = 0 ∨ (x.r.mem p).height = 0) : Later pf x pf' x' := by
  refine of_mem hsurfaces (fun p => hstore ▸ le_rfl) (fun p n _ h => hstore ▸ h)
    (fun p => hmem ▸ ⟨rfl, rfl⟩) (fun i hseen hpending hi => ?_) (fun h => .inl (hevent ▸ h))
  rw [Shared.Marked, Shared.Written, hmem]
  obtain hi | hempty := hahead i.surface hseen.mem hpending hi
  · exact .inr ⟨hpending, hi⟩
  · exact .inl (.inr hempty)

end Later

section Acts

variable {pf pf' p next : Pc} {x x' : Shared} {c : Nat} {f : Nat → Shared → Option (Shared × Pc)}

def FifoOk (pf : Pc) (x : Shared) : Prop :=
  ∀ force p todo, pf = .clearPending force p todo → x.r.store.saved p = x.r.store.drawn p

variable {q : Nat} {rest : List Nat} {s : SurfaceBinding} {l : Lock}

theorem ahead_cons {p : Nat} (hne : p ≠ q) (h : ahead (.scan false (q :: rest)) p = true) : p ∈ rest :=
  (mem_cons.mp (ahead_iff.mp h _ rfl)).resolve_left hne

theorem scan_later (x : Shared) (force : Bool) (todo : List Nat) :
    Later (.scan force todo) x (x.scanNext force todo) x := by
  refine Later.goto rfl rfl rfl rfl fun p hp hpending hahead => ?_
  obtain ⟨rfl, heq⟩ | ⟨q, rest, rfl, ⟨heq, hskip⟩ | ⟨heq, -⟩⟩ := scanNext_cases x force todo <;>
    rw [heq] <;> cases force
  case inl.false => exact absurd (ahead_iff.mp hahead _ rfl) not_mem_nil
  case inr.inl.false =>
    by_cases hpq : p = q
    · subst hpq
      exact .inr (hskip.resolve_left fun h => Bool.false_ne_true (h.symm.trans hpending))
    · exact .inl (ahead_iff.mpr fun _ h => Option.some.inj h ▸ ahead_cons hpq hahead)
  case inr.inr.false => exact .inl hahead
  all_goals exact .inl rfl

theorem setSurface_mem (x : Shared) (p q : Nat) (s : SurfaceBinding) :
    (x.setSurface p s).r.mem q = if q = p then s else x.r.mem q :=
  update_apply ..

theorem setSurface_size (x : Shared) (p q : Nat) (hs : s.width = (x.r.mem p).width ∧ s.height = (x.r.mem p).height) :
    ((x.setSurface p s).r.mem q).width = (x.r.mem q).width ∧
      ((x.setSurface p s).r.mem q).height = (x.r.mem q).height := by
  rw [setSurface_mem]
  split
  · next h => exact h ▸ hs
  · exact ⟨rfl, rfl⟩

theorem setSurface_pending {x : Shared} {p : Nat} (hs : (x.r.mem p).downloadPending = true → s.downloadPending = true)
    (hq : (x.r.mem q).downloadPending = true) :
    ((x.setSurface p s).r.mem q).downloadPending = true := by
  rw [setSurface_mem]
  split
  · next h => exact hs (h ▸ hq)
  · exact hq

theorem download_later (x : Shared) (force : Bool) (q : Nat) (todo : List Nat) :
    Later (.download force q todo) x (.clearPending force q todo)
      { x with r := { x.r with store := x.r.store.writeBack q } } := by
  have hsaved : ∀ p n, n ≤ x.r.store.drawn p → n ≤ x.r.store.saved p ∨ p = q → n ≤ (x.r.store.writeBack q).saved p := by
    intro p n hdrawn hsaved
    rw [Store.saved_writeBack]
    split
    · next h => exact h ▸ hdrawn
    · next h => exact hsaved.resolve_right h
  refine Later.of_mem rfl (fun _ => le_rfl) (fun p n hdrawn h => hsaved p n hdrawn (.inl h))
    (fun _ => ⟨rfl, rfl⟩) (fun i hseen hpending hahead => ?_) .inl
  by_cases hi : i.surface = q
  · exact .inl (.inl (hsaved _ _ hseen.drawn (.inr hi)))
  · refine .inr ⟨hpending, ?_⟩
    cases force with
    | true => rfl
    | false => exact ahead_iff.mpr fun _ h => Option.some.inj h ▸ ahead_cons hi hahead

theorem clearPending_later {force : Bool} (todo : List Nat) (hsaved : x.r.store.saved q = x.r.store.drawn q) :
    Later (.clearPending force q todo) x (.clearDirty force q todo)
      (x.setSurface q { x.r.mem q with downloadPending := false }) := by
  refine Later.of_mem rfl (fun _ => le_rfl) (fun _ _ _ h => h)
    (fun p => setSurface_size x q p ⟨rfl, rfl⟩) (fun i hseen hpending hahead => ?_) .inl
  by_cases hi : i.surface = q
  · refine .inl (.inl ?_)
    have hdrawn := hseen.drawn
    rw [hi, ← hsaved, ← hi] at hdrawn
    exact hdrawn
  · refine .inr ⟨?_, by cases force <;> exact hahead⟩
    rw [setSurface_mem, if_neg hi]
    exact hpending

theorem clearDirty_later (x : Shared) (force : Bool) (q : Nat) (todo : List Nat) :
    Later (.clearDirty force q todo) x (.scan force todo)
      (x.setSurface q { x.r.mem q with drawDirty := false, unsaved := false }) :=
  Later.of_mem rfl (fun _ => le_rfl) (fun _ _ _ h => h)
    (fun p => setSurface_size x q p ⟨rfl, rfl⟩)
    (fun _ _ hpending hahead => .inr ⟨setSurface_pending id hpending, by cases force <;> exact hahead⟩)
    .inl

theorem draw_later (x : Shared) (q : Nat) : Later (.draw q) x .drawUnlockPgraph
      { x with r := { x.r.set q { x.r.mem q with drawDirty := true, unsaved := true } with
        store := x.r.store.draw q } } := by
  refine Later.of_mem rfl (fun p => ?_) (fun _ _ _ h => h)
    (fun p => setSurface_size x q p ⟨rfl, rfl⟩)
    (fun _ _ hpending _ => .inr ⟨setSurface_pending (x := x) (p := q) id hpending, rfl⟩) .inl
  refine le_of_le_of_eq ?_ (Store.drawn_draw ..).symm
  split
  · next h => exact h ▸ Nat.le_succ _
  · exact le_rfl

theorem fifo_later (h : code pf = .act f) (hact : f c x = some (x', pf')) (hfifo : fifoPc pf = true)
    (hok : FifoOk pf x) : Later pf x pf' x' := by
  cases pf <;> cases h
  case pendingDownloads =>
    obtain ⟨rfl, rfl⟩ := mk.inj (Option.some.inj hact)
    refine Later.goto rfl rfl rfl rfl fun p hp _ _ => .inl ?_
    split
    · exact ahead_iff.mpr fun _ h => Option.some.inj h ▸ hp
    · rfl
  case scan force todo =>
    obtain ⟨rfl, rfl⟩ := mk.inj (Option.some.inj hact)
    exact scan_later x force todo
  case download force q todo =>
    cases hact
    exact download_later x force q todo
  case clearPending force q todo =>
    cases hact
    exact clearPending_later todo (hok force q todo rfl)
  case clearDirty force q todo =>
    cases hact
    exact clearDirty_later x force q todo
  case clearDownloads =>
    cases hact
    exact Later.goto rfl rfl rfl rfl fun _ _ _ h => .inl h
  case setComplete =>
    cases hact
    exact Later.of_mem rfl (fun _ => le_rfl) (fun _ _ _ h => h) (fun _ => ⟨rfl, rfl⟩)
      (fun i _ hpending _ => .inr ⟨hpending, rfl⟩) fun _ => .inr rfl
  case draw q =>
    cases hact
    exact draw_later x q
  case asleep seen =>
    dsimp only at hact
    split at hact <;> cases hact
    exact Later.goto rfl rfl rfl rfl fun _ _ _ _ => .inl rfl
  case pendingCheck | pendingDirty | pusher | kickCheck =>
    obtain ⟨rfl, rfl⟩ := mk.inj (Option.some.inj hact)
    refine Later.goto rfl rfl rfl rfl fun p hp _ _ => .inl ?_
    split <;> rfl
  case top | clearDirtyDownloads =>
    cases hact
    exact Later.goto rfl rfl rfl rfl fun _ _ _ _ => .inl rfl
  all_goals cases hfifo

theorem fifo_ok (h : code pf = .act f) (hact : f c x = some (x', pf')) (hfifo : fifoPc pf = true) : FifoOk pf' x' := by
  intro force p todo hpf
  subst hpf
  cases pf <;> cases h
  case download =>
    cases hact
    rw [Store.saved_writeBack, if_pos rfl]
    rfl
  case scan force' todo' =>
    have hnext : x.scanNext force' todo' = .clearPending force p todo := (mk.inj (Option.some.inj hact)).2
    obtain ⟨-, heq⟩ | ⟨q, rest, -, ⟨heq, -⟩ | ⟨heq, -⟩⟩ := scanNext_cases x force' todo' <;> rw [heq] at hnext
    · cases force' <;> cases hnext
    · cases hnext
    · cases hnext
  case asleep =>
    dsimp only at hact
    split at hact <;> cases hact
  case pendingCheck | pendingDownloads | pendingDirty | pusher | kickCheck =>
    have hnext := (mk.inj (Option.some.inj hact)).2
    split at hnext <;> cases hnext
  all_goals first | cases hfifo; done | cases hact

theorem call_later (h : code p = .act f) (hact : f c x = some (x', next)) (hcall : fifoPc p = false)
    (pf : Pc) : Later pf x pf x' ∧ x'.r.store = x.r.store := by
  have hmark : ∀ {q : Nat} {s : SurfaceBinding}, s.width = (x.r.mem q).width ∧ s.height = (x.r.mem q).height →
      ((x.r.mem q).downloadPending = true → s.downloadPending = true) →
      Later pf x pf (x.setSurface q s) ∧ (x.setSurface q s).r.store = x.r.store := by
    intro q s hsize hpending
    refine ⟨Later.of_mem rfl (fun _ => le_rfl) (fun _ _ _ h => h) (fun p => setSurface_size x q p hsize)
      (fun _ _ h hahead => .inr ⟨setSurface_pending hpending h, hahead⟩) .inl, rfl⟩
  have hsame : Later pf x pf x := Later.goto rfl rfl rfl rfl fun _ _ _ h => .inl h
  cases p <;> cases h
  case free =>
    have hnext : x.call c = (x', next) := Option.some.inj hact
    rw [Shared.call] at hnext
    split at hnext
    · cases hnext
      exact ⟨Later.goto rfl rfl rfl rfl fun _ _ _ h => .inl h, rfl⟩
    · split at hnext <;> cases hnext <;> exact ⟨hsame, rfl⟩
  case displayRead | wait =>
    dsimp only at hact
    split at hact <;> cases hact
    exact ⟨hsame, rfl⟩
  case displayReset | accessReset =>
    cases hact
    exact ⟨Later.of_mem rfl (fun _ => le_rfl) (fun _ _ _ h => h) (fun _ => ⟨rfl, rfl⟩)
      (fun _ _ hpending hahead => .inr ⟨hpending, hahead⟩) nofun, rfl⟩
  case mark i =>
    cases hact
    exact hmark ⟨rfl, rfl⟩ fun _ => rfl
  case access addr len write todo seen =>
    have hnext : x.accessNext addr len write seen todo = (x', next) := Option.some.inj hact
    cases todo with
    | nil =>
      cases hnext
      exact ⟨hsame, rfl⟩
    | cons q rest =>
      rw [Shared.accessNext] at hnext
      split at hnext <;> cases hnext
      · exact hmark ⟨rfl, rfl⟩ fun h => by rw [VkState.markAccess, h]; rfl
      · exact ⟨hsame, rfl⟩
  case request | kick =>
    cases hact
    exact ⟨Later.goto rfl rfl rfl rfl fun _ _ _ h => .inl h, rfl⟩
  case accessStart | returned =>
    cases hact
    exact ⟨hsame, rfl⟩
  all_goals cases hcall

theorem CallOk.of_nil (htodo : ∀ q ∈ todoAt p, q ∈ x.r.surfaces) (hseen : seenAt p = []) : CallOk pf x p where
  todo := htodo
  seen i hi := absurd (hseen ▸ hi) not_mem_nil
  marked _ i hi := absurd (hseen ▸ hi) not_mem_nil
  complete _ _ i hi := absurd (hseen ▸ hi) not_mem_nil
  returned seen hp i hi := by
    have hnil : seen = [] := by rw [hp] at hseen; exact hseen
    exact absurd (hnil ▸ hi) not_mem_nil

theorem CallOk.goto (h : CallOk pf x p) (htodo : ∀ q ∈ todoAt next, q ∈ todoAt p) (hseen : seenAt next = seenAt p)
    (hmarked : Downloads.marked next = Downloads.marked p) (hawaits : awaits next = awaits p)
    (hreturned : ∀ seen, next ≠ .returned seen) : CallOk pf x next :=
  ⟨fun q hq => h.todo q (htodo q hq), hseen ▸ h.seen, hseen ▸ hmarked ▸ h.marked, hseen ▸ hawaits ▸ h.complete,
    fun seen hp => absurd hp (hreturned seen)⟩

theorem access_ok {addr len : Hwaddr} {write : Bool} {seen : List Sight} (hfree : remaining pf = none)
    (hok : CallOk pf (x.setSurface q (VkState.markAccess (x.r.mem q) write))
      (.access addr len write (q :: rest) seen)) :
    CallOk pf (x.setSurface q (VkState.markAccess (x.r.mem q) write)) (.access addr len write rest
      (if (x.r.mem q).drawDirty then x.sight q :: seen else seen)) := by
  split
  · next hdirty =>
    refine ⟨fun p hp => hok.todo p (mem_cons_of_mem _ hp), ?_, fun _ => ?_, nofun, nofun⟩
    · intro i hi
      obtain rfl | hi := mem_cons.mp hi
      · exact ⟨hok.todo q mem_cons_self, le_rfl⟩
      · exact hok.seen i hi
    · intro i hi
      obtain rfl | hi := mem_cons.mp hi
      · refine .inr ⟨?_, by rw [ahead, hfree]; rfl⟩
        change ((x.setSurface q _).r.mem q).downloadPending = true
        rw [setSurface_mem, if_pos rfl, VkState.markAccess, hdirty, Bool.or_true]
      · exact hok.marked rfl i hi
  · exact hok.goto (fun _ => mem_cons_of_mem _) rfl rfl rfl nofun

theorem call_ok (h : code p = .act f) (hact : f c x = some (x', next)) (hcall : fifoPc p = false)
    (hok : CallOk pf x p) (hfree : held p .pgraph = true → remaining pf = none)
    (hmark : ∀ i, p = .mark i → x.Written i ∨ ahead pf i.surface = true) : CallOk pf x' next := by
  have hlater := (call_later h hact hcall pf).1
  have hok' := hlater.callOk hok fun i hp hpf => (hmark i hp).resolve_right fun hahead => by
    subst hpf
    exact not_mem_nil (ahead_iff.mp hahead [] rfl)
  cases p <;> cases h
  case free =>
    have hnext : x.call c = (x', next) := Option.some.inj hact
    rw [Shared.call] at hnext
    split at hnext
    · cases hnext
      exact .of_nil nofun rfl
    · split at hnext <;> cases hnext <;> exact .of_nil nofun rfl
  case displayRead q =>
    dsimp only at hact
    split at hact <;> cases hact
    next hq =>
    split
    · refine ⟨nofun, fun i hi => ?_, nofun, nofun, nofun⟩
      rw [mem_singleton.mp hi]
      exact ⟨hq, le_rfl⟩
    · exact .of_nil nofun rfl
  case displayReset i =>
    cases hact
    exact ⟨nofun, hok'.seen, nofun, nofun, nofun⟩
  case mark i =>
    cases hact
    refine ⟨nofun, hok'.seen, fun _ j hj => ?_, fun _ => hok'.complete rfl, nofun⟩
    rw [mem_singleton.mp hj]
    obtain hwritten | hahead := hmark i rfl
    · exact .inl (hlater.written i (hok.seen i mem_cons_self) hwritten)
    · refine .inr ⟨?_, hahead⟩
      rw [setSurface_mem, if_pos rfl]
  case access addr len write todo seen =>
    have hnext : x.accessNext addr len write seen todo = (x', next) := Option.some.inj hact
    cases todo with
    | nil =>
      cases hnext
      exact hok'.goto nofun rfl rfl rfl nofun
    | cons q rest =>
      rw [Shared.accessNext] at hnext
      split at hnext <;> cases hnext
      · exact access_ok (hfree rfl) hok'
      · exact hok'.goto (fun _ => mem_cons_of_mem _) rfl rfl rfl nofun
  case accessReset seen =>
    cases hact
    exact ⟨nofun, hok'.seen, hok'.marked, nofun, nofun⟩
  case request seen | kick seen =>
    cases hact
    exact hok'.goto nofun rfl rfl rfl nofun
  case wait seen =>
    dsimp only at hact
    split at hact <;> cases hact
    next hcomplete =>
    refine ⟨nofun, hok'.seen, nofun, nofun, fun seen' hp => ?_⟩
    cases hp
    exact hok'.complete rfl hcomplete
  case accessStart =>
    cases hact
    exact .of_nil (fun _ hq => hq) rfl
  case returned =>
    cases hact
    exact .of_nil nofun rfl
  all_goals cases hcall

theorem fifo_lock (h : code pf = .lock l pf') : remaining pf' = none ∧ FifoOk pf' x := by
  cases pf <;> cases h <;> exact ⟨rfl, nofun⟩

theorem fifo_unlock (h : code pf = .unlock l pf') (hfifo : fifoPc pf = true) : remaining pf' = none ∧ FifoOk pf' x := by
  cases pf <;> cases h <;> first | exact ⟨rfl, nofun⟩ | cases hfifo

theorem call_lock (h : code p = .lock l next) (hok : CallOk pf x p) : CallOk pf x next := by
  cases p <;> cases h <;> exact hok.goto nofun rfl rfl rfl nofun

theorem call_unlock (h : code p = .unlock l next) (hok : CallOk pf x p) : CallOk pf x next := by
  cases p <;> cases h
  case accessUnlock seen =>
    cases seen with
    | nil => exact .of_nil nofun rfl
    | cons i seen => exact hok.goto nofun rfl rfl rfl nofun
  all_goals exact hok.goto nofun rfl rfl rfl nofun

theorem held_of_remaining {todo : List Nat} (h : remaining pf = some todo) : held pf .pgraph = true := by
  cases pf <;> first | rfl | cases h

end Acts

abbrev State (ι : Type) := Threads Shared Pc Lock (Thread ι)

def State.init {ι : Type} (r : VkState Store) : State ι where
  shared := ⟨r, false, false, 0⟩
  owner _ := none
  pc
    | .pfifo => .threadLock
    | .other _ => .free

variable {ι : Type}

/-- Where the display is about to mark a surface, a scan under way has not passed it, or VRAM has what the
display saw. -/
def requestSafe (s : State ι) : Bool :=
  match s.owner .pfifo with
  | none => true
  | some t =>
    match s.pc t with
    | .mark i => decide (s.shared.Written i) || ahead (s.pc .pfifo) i.surface
    | _ => true

structure Placed (s : State ι) : Prop where
  owned : Threads.Owned held s
  fifo : fifoPc (s.pc .pfifo) = true
  call : ∀ i, fifoPc (s.pc (.other i)) = false

/-- No mark is lost between a call and the pass. -/
structure Inv (s : State ι) : Prop extends Placed s where
  fifoOk : FifoOk (s.pc .pfifo) s.shared
  callOk : ∀ i, CallOk (s.pc .pfifo) s.shared (s.pc (.other i))

theorem init_placed (r : VkState Store) : Placed (State.init r : State ι) where
  owned l t := by
    refine iff_of_false (Option.some_ne_none t).symm ?_
    cases t <;> cases l <;> exact Bool.false_ne_true
  fifo := rfl
  call _ := rfl

theorem init_inv (r : VkState Store) : Inv (State.init r : State ι) where
  toPlaced := init_placed r
  fifoOk := nofun
  callOk _ := .of_nil nofun rfl

theorem requestSafe_mark {s : State ι} {t : Thread ι} {i : Sight} (howned : Threads.Owned held s)
    (h : requestSafe s = true) (ht : s.pc t = .mark i) :
    s.shared.Written i ∨ ahead (s.pc .pfifo) i.surface = true := by
  have howner : s.owner .pfifo = some t := (howned .pfifo t).mpr (by rw [ht]; rfl)
  simp only [requestSafe, howner, ht, Bool.or_eq_true, decide_eq_true_eq] at h
  exact h

variable [DecidableEq ι] {s s' : State ι} {e : Turn (Thread ι)}

theorem step_placed (h : Placed s) (hstep : Threads.step code s e = some s') : Placed s' := by
  have hmoves := Threads.step_moves hstep
  have hfifoPc : ∀ t, fifoPc (s'.pc t) = fifoPc (s.pc t) := by
    intro t
    by_cases ht : t = e.thread
    · rw [ht]
      exact fifoPc_goes hmoves.goes
    · rw [hmoves.pc_of_ne ht]
  exact ⟨hmoves.owned locks h.owned, (hfifoPc _).trans h.fifo, fun i => (hfifoPc _).trans (h.call i)⟩

theorem step_inv (hinv : Inv s) (hsafe : requestSafe s = true) (hstep : Threads.step code s e = some s') : Inv s' := by
  have hmoves := Threads.step_moves hstep
  have hmark : ∀ {j : ι} {i : Sight}, s.pc (.other j) = .mark i → s.pc .pfifo = .setComplete → s.shared.Written i := by
    intro j i hpc hpf
    refine (requestSafe_mark hinv.owned hsafe hpc).resolve_right fun hahead => ?_
    rw [hpf] at hahead
    exact not_mem_nil (ahead_iff.mp hahead [] rfl)
  suffices h : FifoOk (s'.pc .pfifo) s'.shared ∧ ∀ i, CallOk (s'.pc .pfifo) s'.shared (s'.pc (.other i)) from
    ⟨step_placed hinv.toPlaced hstep, h.1, h.2⟩
  cases hthread : e.thread with
  | pfifo =>
    -- The calls stay where they are.
    suffices h : FifoOk (s'.pc .pfifo) s'.shared ∧ Later (s.pc .pfifo) s.shared (s'.pc .pfifo) s'.shared by
      refine ⟨h.1, fun i => ?_⟩
      rw [hmoves.pc_of_ne (t := .other i) (hthread ▸ nofun)]
      exact h.2.callOk (hinv.callOk i) fun j hpc hpf => hmark hpc hpf
    cases hmoves <;> dsimp only <;> rw [hthread, update_self]
    case lock hcode hfree =>
      obtain ⟨hnone, hok⟩ := fifo_lock (x := s.shared) (hthread ▸ hcode)
      exact ⟨hok, Later.goto rfl rfl rfl rfl fun _ _ _ _ => .inl (by rw [ahead, hnone]; rfl)⟩
    case unlock hcode =>
      obtain ⟨hnone, hok⟩ := fifo_unlock (x := s.shared) (hthread ▸ hcode) hinv.fifo
      exact ⟨hok, Later.goto rfl rfl rfl rfl fun _ _ _ _ => .inl (by rw [ahead, hnone]; rfl)⟩
    case act hcode hact =>
      rw [hthread] at hcode
      exact ⟨fifo_ok hcode hact hinv.fifo, fifo_later hcode hact hinv.fifo hinv.fifoOk⟩
  | other j =>
    rw [hmoves.pc_of_ne (t := .pfifo) (hthread ▸ nofun)]
    -- The thread itself moves, the other calls see what it did.
    suffices h : FifoOk (s.pc .pfifo) s'.shared ∧ Later (s.pc .pfifo) s.shared (s.pc .pfifo) s'.shared ∧
        CallOk (s.pc .pfifo) s'.shared (s'.pc e.thread) by
      refine ⟨h.1, fun i => ?_⟩
      by_cases hi : Thread.other i = e.thread
      · rw [hi]
        exact h.2.2
      · rw [hmoves.pc_of_ne hi]
        exact h.2.1.callOk (hinv.callOk i) fun k hpc hpf => hmark hpc hpf
    have hok : CallOk (s.pc .pfifo) s.shared (s.pc e.thread) := hthread ▸ hinv.callOk j
    have hsame : Later (s.pc .pfifo) s.shared (s.pc .pfifo) s.shared := Later.goto rfl rfl rfl rfl fun _ _ _ h => .inl h
    cases hmoves <;> dsimp only <;> rw [update_self]
    case lock hcode hfree => exact ⟨hinv.fifoOk, hsame, call_lock hcode hok⟩
    case unlock hcode => exact ⟨hinv.fifoOk, hsame, call_unlock hcode hok⟩
    case act hcode hact =>
      have hcall : fifoPc (s.pc e.thread) = false := hthread ▸ hinv.call j
      obtain ⟨hlater, hstore⟩ := call_later hcode hact hcall (s.pc .pfifo)
      refine ⟨fun force p todo hpf => ?_, hlater, call_ok hcode hact hcall hok (fun hheld => ?_)
        fun i hpc => requestSafe_mark hinv.owned hsafe hpc⟩
      · rw [hstore]
        exact hinv.fifoOk force p todo hpf
      · cases hremaining : remaining (s.pc .pfifo) with
        | none => rfl
        | some todo =>
          have heq := hinv.owned.unique (held_of_remaining hremaining) hheld
          exact nomatch heq.trans hthread

end XogMobile.Nv2a.Vk.Downloads
