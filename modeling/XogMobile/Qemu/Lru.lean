import XogMobile.Lib.Run
import XogMobile.Lib.Lists
import Mathlib.Data.BitVec

/-!
# The LRU object list

`include/qemu/lru.h`: every node of the cache sits on one global list, most recently looked up node
first, and every node in use also sits in the bin of its hash. The links are inside the nodes, so a
node is in use when its `next_bin` link is set. Free nodes may stand anywhere on the global list.
-/

namespace XogMobile.Qemu

open Lib Function List

abbrev LruHash := BitVec 64

def lruNumBins : Nat := 1 <<< 16

structure LruNode (V : Type) where
  hash : LruHash
  /-- `next_bin.tqe_circ.tql_prev` is set. -/
  inBin : Bool
  entry : V
  deriving DecidableEq

inductive LruCall (N : Type) where
  | initNode (n : N)
  | postNodeEvict (n : N)
  deriving DecidableEq

structure Lru (N V : Type) where
  global : List N
  bins : Nat → List N
  (numUsed numFree : Int)
  node : N → LruNode V
  calls : List (LruCall N)
  /-- When each node was looked up last. Not a field of the source. -/
  lookedUp : N → Nat
  clock : Nat

/-- The owner's functions on its entries. `initNode` stores the key that `compareNodes` compares; the
pipeline and the texture cache store it in the caller, before the next lookup. -/
structure LruOps (K V : Type) where
  initNode : V → K → V
  compareNodes : V → K → Bool
  postNodeEvict : V → V
  key : V → K
  key_initNode : ∀ v k, key (initNode v k) = k
  compareNodes_eq_false : ∀ v k, compareNodes v k = false ↔ key v = k

variable {N K V : Type} [DecidableEq N]

namespace Lru

variable (ops : LruOps K V) (l : Lru N V)

/-- `lru_init`. The nodes are not on the list yet, their memory is whatever it is. -/
def init (node : N → LruNode V) : Lru N V where
  global := []
  bins := fun _ => []
  numUsed := 0
  numFree := 0
  node := node
  calls := []
  lookedUp := fun _ => 0
  clock := 0

def setNode (n : N) (v : LruNode V) : Lru N V := { l with node := update l.node n v }

def globalInsertHead (n : N) : Lru N V := { l with global := n :: l.global }

def globalInsertTail (n : N) : Lru N V := { l with global := l.global ++ [n] }

def globalRemove (n : N) : Lru N V := { l with global := l.global.erase n }

def binInsertHead (bin : Nat) (n : N) : Lru N V :=
  { l with bins := update l.bins bin (n :: l.bins bin) }.setNode n
    { l.node n with inBin := true }

def binRemove (bin : Nat) (n : N) : Lru N V :=
  { l with bins := update l.bins bin ((l.bins bin).erase n) }.setNode n
    { l.node n with inBin := false }

def addFree (n : N) : Lru N V :=
  let l := (l.setNode n { l.node n with inBin := false }).globalInsertTail n
  { l with numFree := l.numFree + 1 }

def hashToBin (hash : LruHash) : Nat := hash.toNat % lruNumBins

def getNodeBin (n : N) : Nat := hashToBin (l.node n).hash

def isNodeInUse (n : N) : Bool := (l.node n).inBin

def postEvict (n : N) : Lru N V :=
  { l with calls := l.calls ++ [LruCall.postNodeEvict n] }.setNode n
    { l.node n with entry := ops.postNodeEvict (l.node n).entry }

def evictNode (n : N) : Lru N V :=
  if !l.isNodeInUse n then l
  else
    let l := (l.binRemove (l.getNodeBin n) n).postEvict ops n
    { l with numUsed := l.numUsed - 1, numFree := l.numFree + 1 }

variable (preNodeEvict : N → Bool)

/-- `pre_node_evict` answers at most once for a node while the list is scanned, so its answers are a
function of the node. -/
def tryEvictOne : Lru N V × Option N :=
  match l.global.reverse.find? fun n => l.isNodeInUse n && preNodeEvict n with
  | some found => (l.evictNode ops found, some found)
  | none => (l, none)

def evictOne : Option (Lru N V × N) :=
  match l.tryEvictOne ops preNodeEvict with
  | (l, some found) => some (l, found)
  | (_, none) => none

def getOneFree : Option (Lru N V × N) :=
  match l.global.reverse.find? fun n => !l.isNodeInUse n with
  | some found => some (l, found)
  | none => l.evictOne ops preNodeEvict

def containsHash (hash : LruHash) : Bool :=
  (l.bins (hashToBin hash)).any fun n => (l.node n).hash == hash

def findInBin (hash : LruHash) (key : K) : Option N :=
  (l.bins (hashToBin hash)).find? fun n =>
    (l.node n).hash == hash && !ops.compareNodes (l.node n).entry key

def useNode (n : N) (hash : LruHash) (key : K) : Lru N V :=
  let l := l.setNode n
    { l.node n with hash := hash, entry := ops.initNode (l.node n).entry key }
  { l with
    calls := l.calls ++ [.initNode n]
    numUsed := l.numUsed + 1
    numFree := l.numFree - 1 }

def promote (bin : Nat) (n : N) : Lru N V :=
  let l := ((l.globalRemove n).globalInsertHead n).binInsertHead bin n
  { l with lookedUp := update l.lookedUp n l.clock, clock := l.clock + 1 }

def lookup (hash : LruHash) (key : K) (preNodeEvict : N → Bool) : Option (Lru N V × N) :=
  let bin := hashToBin hash
  match l.findInBin ops hash key with
  | some found => some ((l.binRemove bin found).promote bin found, found)
  | none =>
    (l.getOneFree ops preNodeEvict).map fun (l, found) =>
      ((l.useNode ops found hash key).promote bin found, found)

def flushNode (l : Lru N V) (n : N) : Lru N V :=
  if preNodeEvict n then ((l.evictNode ops n).globalRemove n).globalInsertTail n else l

def flushBin (l : Lru N V) (bin : Nat) : Lru N V :=
  (l.bins bin).foldl (flushNode ops preNodeEvict) l

def flush : Lru N V := (List.range lruNumBins).foldl (flushBin ops preNodeEvict) l

/-- Nodes are in one list and the right bin, and the list is in order of use. -/
structure Inv (ops : LruOps K V) (l : Lru N V) : Prop where
  nodup : l.global.Nodup
  numUsed : l.numUsed = l.global.countP l.isNodeInUse
  numFree : l.numFree = l.global.countP fun n => !l.isNodeInUse n
  bin_nodup : ∀ b, (l.bins b).Nodup
  mem_bin : ∀ n b, n ∈ l.bins b ↔ n ∈ l.global ∧ l.isNodeInUse n = true ∧ l.getNodeBin n = b
  distinct : ∀ m ∈ l.global, ∀ n ∈ l.global, l.isNodeInUse m = true → l.isNodeInUse n = true →
    (l.node m).hash = (l.node n).hash → ops.key (l.node m).entry = ops.key (l.node n).entry → m = n
  recent : l.global.Pairwise fun m n =>
    l.isNodeInUse m = true → l.isNodeInUse n = true → l.lookedUp n < l.lookedUp m
  looked : ∀ n ∈ l.global, l.isNodeInUse n = true → l.lookedUp n < l.clock

variable {ops : LruOps K V} {l l' : Lru N V} {n : N} {hash : LruHash} {key : K}

omit [DecidableEq N] in
theorem init_inv (ops : LruOps K V) (node : N → LruNode V) : (init node).Inv ops where
  nodup := .nil
  numUsed := rfl
  numFree := rfl
  bin_nodup _ := .nil
  mem_bin _ _ := iff_of_false not_mem_nil fun h => not_mem_nil h.1
  distinct _ hm := absurd hm not_mem_nil
  recent := .nil
  looked _ hn := absurd hn not_mem_nil

/-- `n` was taken out of its bin. -/
structure Freed (l : Lru N V) (n : N) (l' : Lru N V) : Prop where
  global : l'.global = l.global
  bins : l'.bins = update l.bins (l.getNodeBin n) ((l.bins (l.getNodeBin n)).erase n)
  inBin : (l'.node n).inBin = false
  node : ∀ m, m ≠ n → l'.node m = l.node m
  numUsed : l'.numUsed = l.numUsed - 1
  numFree : l'.numFree = l.numFree + 1
  lookedUp : l'.lookedUp = l.lookedUp
  clock : l'.clock = l.clock

theorem Freed.isNodeInUse (h : Freed l n l') (m : N) : l'.isNodeInUse m = true ↔ m ≠ n ∧ l.isNodeInUse m = true := by
  by_cases hm : m = n
  · rw [Lru.isNodeInUse, hm, h.inBin]
    simp
  · rw [Lru.isNodeInUse, h.node m hm]
    simp [hm, Lru.isNodeInUse]

theorem Freed.inv (h : Freed l n l') (hinv : l.Inv ops) (hn : n ∈ l.global)
    (huse : l.isNodeInUse n = true) : l'.Inv ops := by
  have hfree : l'.isNodeInUse n = false := h.inBin
  have hother : ∀ m, m ≠ n → l.isNodeInUse m = l'.isNodeInUse m := by
    intro m hm
    rw [Lru.isNodeInUse, Lru.isNodeInUse, h.node m hm]
  have hused : l.global.countP l.isNodeInUse = l.global.countP l'.isNodeInUse + 1 :=
    countP_of_joins hinv.nodup hn hfree huse hother
  have hfreed : (l.global.countP fun m => !l'.isNodeInUse m) = (l.global.countP fun m => !l.isNodeInUse m) + 1 :=
    countP_of_joins hinv.nodup hn (by rw [huse]; rfl) (by rw [hfree]; rfl)
      fun m hm => by rw [hother m hm]
  refine ⟨h.global ▸ hinv.nodup, ?_, ?_, ?_, ?_, ?_, ?_, ?_⟩
  · rw [h.numUsed, h.global, hinv.numUsed]
    omega
  · rw [h.numFree, h.global, hinv.numFree]
    omega
  · intro b
    rw [h.bins]
    by_cases hb : b = l.getNodeBin n
    · rw [hb, update_self]
      exact (hinv.bin_nodup _).erase n
    · rw [update_of_ne hb]
      exact hinv.bin_nodup b
  · intro m b
    rw [h.isNodeInUse, h.global, h.bins]
    by_cases hb : b = l.getNodeBin n
    · rw [hb, update_self, (hinv.bin_nodup _).mem_erase_iff, hinv.mem_bin]
      by_cases hm : m = n
      · simp [hm]
      · simp [hm, Lru.getNodeBin, h.node m hm]
    · rw [update_of_ne hb, hinv.mem_bin]
      by_cases hm : m = n
      · have hne : l.getNodeBin n ≠ b := fun heq => hb heq.symm
        simp [hm, hne]
      · simp [hm, Lru.getNodeBin, h.node m hm]
  · intro m hm m' hm' huse huse' hhash hkey
    obtain ⟨hmn, huse⟩ := (h.isNodeInUse m).mp huse
    obtain ⟨hmn', huse'⟩ := (h.isNodeInUse m').mp huse'
    rw [h.node m hmn, h.node m' hmn'] at hhash hkey
    exact hinv.distinct m (h.global ▸ hm) m' (h.global ▸ hm') huse huse' hhash hkey
  · rw [h.global, h.lookedUp]
    exact hinv.recent.imp fun hlt huse huse' => hlt ((h.isNodeInUse _).mp huse).2 ((h.isNodeInUse _).mp huse').2
  · intro m hm huse
    rw [h.lookedUp, h.clock]
    exact hinv.looked m (h.global ▸ hm) ((h.isNodeInUse m).mp huse).2

/-- `n` was put in front for the key. -/
structure Linked (ops : LruOps K V) (l : Lru N V) (n : N) (hash : LruHash) (key : K)
    (l' : Lru N V) : Prop where
  global : l'.global = n :: l.global.erase n
  bins : l'.bins = update l.bins (hashToBin hash) (n :: l.bins (hashToBin hash))
  inBin : (l'.node n).inBin = true
  hash : (l'.node n).hash = hash
  key : ops.key (l'.node n).entry = key
  node : ∀ m, m ≠ n → l'.node m = l.node m
  numUsed : l'.numUsed = l.numUsed + 1
  numFree : l'.numFree = l.numFree - 1
  lookedUp : l'.lookedUp = update l.lookedUp n l.clock
  clock : l'.clock = l.clock + 1

theorem Linked.isNodeInUse_of_ne (h : Linked ops l n hash key l') {m : N} (hm : m ≠ n) :
    l'.isNodeInUse m = l.isNodeInUse m := by
  rw [Lru.isNodeInUse, h.node m hm, Lru.isNodeInUse]

theorem Linked.perm (h : Linked ops l n hash key l') (hn : n ∈ l.global) : l'.global.Perm l.global :=
  h.global ▸ (perm_cons_erase hn).symm

omit [DecidableEq N] in
theorem Inv.not_mem_bin (hinv : l.Inv ops) (hfree : l.isNodeInUse n = false) (b : Nat) : n ∉ l.bins b := by
  intro hb
  have huse := ((hinv.mem_bin n b).mp hb).2.1
  rw [hfree] at huse
  exact absurd huse (by decide)

section

variable (h : Linked ops l n hash key l')
include h

section

variable (hinv : l.Inv ops)
include hinv

theorem Linked.counts (hn : n ∈ l.global) (hfree : l.isNodeInUse n = false) :
    l'.numUsed = l'.global.countP l'.isNodeInUse ∧ l'.numFree = l'.global.countP fun n => !l'.isNodeInUse n := by
  have huse : l'.isNodeInUse n = true := h.inBin
  have hused : l.global.countP l'.isNodeInUse = l.global.countP l.isNodeInUse + 1 :=
    countP_of_joins hinv.nodup hn hfree huse fun m hm => h.isNodeInUse_of_ne hm
  have hfreed : (l.global.countP fun m => !l.isNodeInUse m) = (l.global.countP fun m => !l'.isNodeInUse m) + 1 :=
    countP_of_joins hinv.nodup hn (by rw [huse]; rfl) (by rw [hfree]; rfl)
      fun m hm => by rw [h.isNodeInUse_of_ne hm]
  rw [h.numUsed, h.numFree, (h.perm hn).countP_eq, (h.perm hn).countP_eq, hinv.numUsed, hinv.numFree, hfreed]
  omega

theorem Linked.mem_bin (hn : n ∈ l.global) (hfree : l.isNodeInUse n = false) (m : N) (b : Nat) :
    m ∈ l'.bins b ↔ m ∈ l'.global ∧ l'.isNodeInUse m = true ∧ l'.getNodeBin m = b := by
  rw [(h.perm hn).mem_iff, h.bins]
  by_cases hm : m = n
  · have huse : l'.isNodeInUse n = true := h.inBin
    have hbin : l'.getNodeBin n = hashToBin hash := by rw [Lru.getNodeBin, h.hash]
    subst hm
    simp only [hn, huse, hbin, true_and]
    by_cases hb : b = hashToBin hash
    · simp [hb]
    · rw [update_of_ne hb]
      exact iff_of_false (hinv.not_mem_bin hfree b) fun heq => hb heq.symm
  · have hbin : l'.getNodeBin m = l.getNodeBin m := by
      rw [Lru.getNodeBin, h.node m hm, Lru.getNodeBin]
    rw [h.isNodeInUse_of_ne hm, hbin, ← hinv.mem_bin]
    by_cases hb : b = hashToBin hash
    · simp [hb, hm]
    · rw [update_of_ne hb]

theorem Linked.distinct (habsent : ∀ m ∈ l.global, l.isNodeInUse m = true → (l.node m).hash = hash →
      ops.key (l.node m).entry ≠ key) {m m' : N} (hm : m ∈ l.global) (hm' : m' ∈ l.global)
    (huse : l'.isNodeInUse m = true) (huse' : l'.isNodeInUse m' = true)
    (hhash : (l'.node m).hash = (l'.node m').hash)
    (hkey : ops.key (l'.node m).entry = ops.key (l'.node m').entry) : m = m' := by
  have hlinked : ∀ m ∈ l.global, m ≠ n → l'.isNodeInUse m = true → (l'.node m).hash = hash →
      ops.key (l'.node m).entry ≠ key := by
    intro m hm hne huse
    rw [h.isNodeInUse_of_ne hne] at huse
    rw [h.node m hne]
    exact habsent m hm huse
  by_cases hmn : m = n
  · by_contra hne
    rw [hmn, h.hash] at hhash
    rw [hmn, h.key] at hkey
    exact hlinked m' hm' (fun heq => hne (hmn.trans heq.symm)) huse' hhash.symm hkey.symm
  by_cases hmn' : m' = n
  · rw [hmn', h.hash] at hhash
    rw [hmn', h.key] at hkey
    exact absurd hkey (hlinked m hm hmn huse hhash)
  · rw [h.isNodeInUse_of_ne hmn] at huse
    rw [h.isNodeInUse_of_ne hmn'] at huse'
    rw [h.node m hmn, h.node m' hmn'] at hhash hkey
    exact hinv.distinct m hm m' hm' huse huse' hhash hkey

theorem Linked.recent : l'.global.Pairwise fun m n =>
      l'.isNodeInUse m = true → l'.isNodeInUse n = true → l'.lookedUp n < l'.lookedUp m := by
  have hne : ∀ m ∈ l.global.erase n, m ≠ n := fun m hm => ne_of_mem_of_not_mem hm hinv.nodup.not_mem_erase
  rw [h.global, pairwise_cons, h.lookedUp]
  refine ⟨fun m hm _ huse => ?_, ?_⟩
  · rw [h.isNodeInUse_of_ne (hne m hm)] at huse
    rw [update_self, update_of_ne (hne m hm)]
    exact hinv.looked m (mem_of_mem_erase hm) huse
  · apply (hinv.recent.sublist erase_sublist).imp_of_mem
    intro m m' hm hm' hlt huse huse'
    rw [h.isNodeInUse_of_ne (hne m hm)] at huse
    rw [h.isNodeInUse_of_ne (hne m' hm')] at huse'
    rw [update_of_ne (hne m hm), update_of_ne (hne m' hm')]
    exact hlt huse huse'

theorem Linked.inv (hn : n ∈ l.global) (hfree : l.isNodeInUse n = false)
    (habsent : ∀ m ∈ l.global, l.isNodeInUse m = true → (l.node m).hash = hash →
      ops.key (l.node m).entry ≠ key) : l'.Inv ops where
  nodup := (h.perm hn).nodup_iff.mpr hinv.nodup
  numUsed := (h.counts hinv hn hfree).1
  numFree := (h.counts hinv hn hfree).2
  bin_nodup b := by
    rw [h.bins]
    by_cases hb : b = hashToBin hash
    · rw [hb, update_self]
      exact nodup_cons.mpr ⟨hinv.not_mem_bin hfree _, hinv.bin_nodup _⟩
    · rw [update_of_ne hb]
      exact hinv.bin_nodup b
  mem_bin := h.mem_bin hinv hn hfree
  distinct m hm m' hm' := h.distinct hinv habsent ((h.perm hn).mem_iff.mp hm) ((h.perm hn).mem_iff.mp hm')
  recent := h.recent hinv
  looked m hm huse := by
    rw [h.clock, h.lookedUp]
    by_cases hmn : m = n
    · rw [hmn, update_self]
      omega
    · rw [h.isNodeInUse_of_ne hmn] at huse
      have hlt := hinv.looked m ((h.perm hn).mem_iff.mp hm) huse
      rw [update_of_ne hmn]
      omega

end

end

theorem evictNode_of_free (hfree : l.isNodeInUse n = false) : l.evictNode ops n = l := by
  rw [evictNode, hfree]
  rfl

theorem evictNode_of_used (huse : l.isNodeInUse n = true) : l.evictNode ops n =
      let l := (l.binRemove (l.getNodeBin n) n).postEvict ops n
      { l with numUsed := l.numUsed - 1, numFree := l.numFree + 1 } := by
  rw [evictNode, huse]
  rfl

theorem evictNode_freed (huse : l.isNodeInUse n = true) : Freed l n (l.evictNode ops n) := by
  rw [evictNode_of_used huse]
  refine ⟨rfl, rfl, ?_, ?_, rfl, rfl, rfl, rfl⟩
  · simp [postEvict, binRemove, setNode]
  · intro m hm
    simp [postEvict, binRemove, setNode, hm]

theorem evictNode_global : (l.evictNode ops n).global = l.global := by
  rw [evictNode]
  split <;> rfl

theorem evictNode_isNodeInUse : (l.evictNode ops n).isNodeInUse n = false := by
  by_cases huse : l.isNodeInUse n = true
  · exact (evictNode_freed huse).inBin
  · rw [evictNode_of_free (Bool.eq_false_iff.mpr huse)]
    exact Bool.eq_false_iff.mpr huse

theorem evictNode_inv (hinv : l.Inv ops) (hn : n ∈ l.global) : (l.evictNode ops n).Inv ops := by
  by_cases huse : l.isNodeInUse n = true
  · exact (evictNode_freed huse).inv hinv hn huse
  · rw [evictNode_of_free (Bool.eq_false_iff.mpr huse)]
    exact hinv

theorem addFree_inv (hinv : l.Inv ops) (hn : n ∉ l.global) : (l.addFree n).Inv ops := by
  have hfree : (l.addFree n).isNodeInUse n = false := by
    simp [addFree, setNode, globalInsertTail, isNodeInUse]
  have hnode : ∀ m ∈ l.global, (l.addFree n).node m = l.node m := by
    intro m hm
    simp [addFree, setNode, globalInsertTail, ne_of_mem_of_not_mem hm hn]
  have hold : ∀ m ∈ (l.addFree n).global, (l.addFree n).isNodeInUse m = true →
      m ∈ l.global ∧ l.isNodeInUse m = true := by
    intro m hm huse
    obtain hm | hm := mem_append.mp hm
    · rw [isNodeInUse, hnode m hm] at huse
      exact ⟨hm, huse⟩
    · rw [mem_singleton.mp hm, hfree] at huse
      exact absurd huse (by decide)
  have hglobal : (l.addFree n).global = l.global ++ [n] := rfl
  have hcongr : ∀ m ∈ l.global, (l.addFree n).isNodeInUse m = l.isNodeInUse m := by
    intro m hm
    rw [isNodeInUse, hnode m hm, isNodeInUse]
  refine ⟨?_, ?_, ?_, hinv.bin_nodup, ?_, ?_, ?_, ?_⟩
  · rw [hglobal, nodup_append_comm]
    exact nodup_cons.mpr ⟨hn, hinv.nodup⟩
  · have hcount : l.global.countP (l.addFree n).isNodeInUse = l.global.countP l.isNodeInUse :=
      countP_congr fun m hm => by rw [hcongr m hm]
    rw [hglobal, countP_append, hcount, countP_singleton, hfree]
    exact hinv.numUsed
  · have hcount : (l.global.countP fun m => !(l.addFree n).isNodeInUse m) = l.global.countP fun m => !l.isNodeInUse m :=
      countP_congr fun m hm => by rw [hcongr m hm]
    rw [hglobal, countP_append, hcount, countP_singleton, hfree]
    exact congrArg (· + 1) hinv.numFree
  · intro m b
    constructor
    · intro hm
      obtain ⟨hmem, huse, hbin⟩ := (hinv.mem_bin m b).mp hm
      rw [hcongr m hmem, getNodeBin, hnode m hmem]
      exact ⟨mem_append_left [n] hmem, huse, hbin⟩
    · rintro ⟨hm, huse, hbin⟩
      obtain ⟨hmem, huse⟩ := hold m hm huse
      rw [getNodeBin, hnode m hmem] at hbin
      exact (hinv.mem_bin m b).mpr ⟨hmem, huse, hbin⟩
  · intro m hm m' hm' huse huse' hhash hkey
    obtain ⟨hm, huse⟩ := hold m hm huse
    obtain ⟨hm', huse'⟩ := hold m' hm' huse'
    rw [hnode m hm, hnode m' hm'] at hhash hkey
    exact hinv.distinct m hm m' hm' huse huse' hhash hkey
  · rw [hglobal, pairwise_append]
    refine ⟨hinv.recent.imp_of_mem ?_, pairwise_singleton _ n, ?_⟩
    · intro m m' hm hm' hlt huse huse'
      exact hlt (hcongr m hm ▸ huse) (hcongr m' hm' ▸ huse')
    · intro m _ m' hm' _ huse'
      rw [mem_singleton.mp hm', hfree] at huse'
      exact absurd huse' (by decide)
  · intro m hm huse
    obtain ⟨hm, huse⟩ := hold m hm huse
    exact hinv.looked m hm huse

theorem moveToTail_perm (hn : n ∈ l.global) : ((l.globalRemove n).globalInsertTail n).global.Perm l.global :=
  (perm_append_singleton n (l.global.erase n)).trans (perm_cons_erase hn).symm

theorem moveToTail_inv (hinv : l.Inv ops) (hn : n ∈ l.global) (hfree : l.isNodeInUse n = false) :
    ((l.globalRemove n).globalInsertTail n).Inv ops := by
  have hperm := moveToTail_perm hn
  refine ⟨hperm.nodup_iff.mpr hinv.nodup, ?_, ?_, hinv.bin_nodup, ?_, ?_, ?_, ?_⟩
  · rw [hperm.countP_eq]
    exact hinv.numUsed
  · rw [hperm.countP_eq]
    exact hinv.numFree
  · intro m b
    rw [hperm.mem_iff]
    exact hinv.mem_bin m b
  · intro m hm m' hm'
    exact hinv.distinct m (hperm.mem_iff.mp hm) m' (hperm.mem_iff.mp hm')
  · apply pairwise_append.mpr
    refine ⟨hinv.recent.sublist erase_sublist, pairwise_singleton _ n, ?_⟩
    intro m _ m' hm' _ huse'
    have hfree' : l.isNodeInUse m' = false := mem_singleton.mp hm' ▸ hfree
    exact absurd (hfree'.symm.trans huse') (by decide)
  · intro m hm
    exact hinv.looked m (hperm.mem_iff.mp hm)

section Flush

variable (pre : N → Bool)

theorem flushNode_inv (hinv : l.Inv ops) (hn : n ∈ l.global) :
    (flushNode ops pre l n).Inv ops ∧ (flushNode ops pre l n).global.Perm l.global := by
  rw [flushNode]
  split
  · have hglobal : (l.evictNode ops n).global = l.global := evictNode_global
    have hn' : n ∈ (l.evictNode ops n).global := hglobal ▸ hn
    refine ⟨moveToTail_inv (evictNode_inv hinv hn) hn' evictNode_isNodeInUse, ?_⟩
    exact (moveToTail_perm hn').trans (.of_eq hglobal)
  · exact ⟨hinv, .refl l.global⟩

theorem flushNodes_inv {ns : List N} (hinv : l.Inv ops) (hns : ∀ n ∈ ns, n ∈ l.global) :
    (ns.foldl (flushNode ops pre) l).Inv ops ∧ (ns.foldl (flushNode ops pre) l).global.Perm l.global := by
  induction ns generalizing l with
  | nil => exact ⟨hinv, .refl l.global⟩
  | cons n ns ih =>
    obtain ⟨hinv₁, hperm₁⟩ := flushNode_inv pre hinv (hns n mem_cons_self)
    obtain ⟨hinv₂, hperm₂⟩ := ih hinv₁
      fun m hm => hperm₁.mem_iff.mpr (hns m (mem_cons_of_mem n hm))
    exact ⟨hinv₂, hperm₂.trans hperm₁⟩

theorem flush_inv (hinv : l.Inv ops) : (l.flush ops pre).Inv ops ∧ (l.flush ops pre).global.Perm l.global := by
  rw [flush]
  generalize range lruNumBins = bins
  induction bins generalizing l with
  | nil => exact ⟨hinv, .refl l.global⟩
  | cons bin bins ih =>
    obtain ⟨hinv₁, hperm₁⟩ := flushNodes_inv pre hinv
      fun n hn => ((hinv.mem_bin n bin).mp hn).1
    obtain ⟨hinv₂, hperm₂⟩ := ih hinv₁
    exact ⟨hinv₂, hperm₂.trans hperm₁⟩

end Flush

/-- Node `n` is in use for this key. -/
structure Holds (ops : LruOps K V) (l : Lru N V) (n : N) (hash : LruHash) (key : K) : Prop where
  mem : n ∈ l.global
  inUse : l.isNodeInUse n = true
  hash : (l.node n).hash = hash
  key : ops.key (l.node n).entry = key

omit [DecidableEq N] in
theorem containsHash_iff (hinv : l.Inv ops) : l.containsHash hash = true ↔
      ∃ n ∈ l.global, l.isNodeInUse n = true ∧ (l.node n).hash = hash := by
  rw [containsHash, any_eq_true]
  constructor
  · rintro ⟨n, hn, heq⟩
    obtain ⟨hmem, huse, -⟩ := (hinv.mem_bin n _).mp hn
    exact ⟨n, hmem, huse, beq_iff_eq.mp heq⟩
  · rintro ⟨n, hmem, huse, heq⟩
    refine ⟨n, (hinv.mem_bin n _).mpr ⟨hmem, huse, ?_⟩, beq_iff_eq.mpr heq⟩
    rw [getNodeBin, heq]

omit [DecidableEq N] in
theorem findInBin_eq_some (hinv : l.Inv ops) (h : l.findInBin ops hash key = some n) : l.Holds ops n hash key := by
  have hfound := find?_some h
  obtain ⟨hmem, huse, -⟩ := (hinv.mem_bin n _).mp (mem_of_find?_eq_some h)
  rw [Bool.and_eq_true, beq_iff_eq, Bool.not_eq_true', ops.compareNodes_eq_false] at hfound
  exact ⟨hmem, huse, hfound.1, hfound.2⟩

omit [DecidableEq N] in
theorem findInBin_eq_none (hinv : l.Inv ops) (h : l.findInBin ops hash key = none) (n : N) :
    ¬ l.Holds ops n hash key := by
  intro hn
  have hbin : n ∈ l.bins (hashToBin hash) := (hinv.mem_bin n _).mpr ⟨hn.mem, hn.inUse, by rw [getNodeBin, hn.hash]⟩
  apply find?_eq_none.mp h n hbin
  rw [Bool.and_eq_true, beq_iff_eq, Bool.not_eq_true', ops.compareNodes_eq_false]
  exact ⟨hn.hash, hn.key⟩

omit [DecidableEq N] in
theorem findInBin_of_holds (hinv : l.Inv ops) (hn : l.Holds ops n hash key) : l.findInBin ops hash key = some n := by
  cases hfind : l.findInBin ops hash key with
  | none => exact absurd hn (findInBin_eq_none hinv hfind n)
  | some m =>
    have hm := findInBin_eq_some hinv hfind
    rw [hinv.distinct m hm.mem n hn.mem hm.inUse hn.inUse (hm.hash.trans hn.hash.symm)
      (hm.key.trans hn.key.symm)]

theorem promote_binRemove (hn : l.Holds ops n hash key) : ∃ l₁, Freed l n l₁ ∧
      Linked ops l₁ n hash key ((l.binRemove (hashToBin hash) n).promote (hashToBin hash) n) := by
  have hbin : hashToBin hash = l.getNodeBin n := by rw [getNodeBin, hn.hash]
  refine ⟨{ l.binRemove (l.getNodeBin n) n with
    numUsed := l.numUsed - 1, numFree := l.numFree + 1 }, ?_, ?_⟩
  · refine ⟨rfl, rfl, ?_, ?_, rfl, rfl, rfl, rfl⟩
    · simp [binRemove, setNode]
    · intro m hm
      simp [binRemove, setNode, hm]
  · refine ⟨rfl, by rw [hbin]; rfl, ?_, ?_, ?_, ?_, ?_, ?_, rfl, rfl⟩
    · simp [promote, binInsertHead, setNode]
    · simp [promote, binInsertHead, globalInsertHead, globalRemove, binRemove, setNode, hn.hash]
    · simp [promote, binInsertHead, globalInsertHead, globalRemove, binRemove, setNode, hn.key]
    · intro m hm
      simp [promote, binInsertHead, globalInsertHead, globalRemove, binRemove, setNode, hm]
    · simp [promote, binInsertHead, globalInsertHead, globalRemove, binRemove, setNode]
    · simp [promote, binInsertHead, globalInsertHead, globalRemove, binRemove, setNode]

theorem promote_useNode (ops : LruOps K V) (l : Lru N V) (n : N) (hash : LruHash) (key : K) :
    Linked ops l n hash key ((l.useNode ops n hash key).promote (hashToBin hash) n) := by
  refine ⟨rfl, rfl, ?_, ?_, ?_, ?_, rfl, rfl, rfl, rfl⟩
  · simp [promote, binInsertHead, setNode]
  · simp [promote, binInsertHead, globalInsertHead, globalRemove, useNode, setNode]
  · simp [promote, binInsertHead, globalInsertHead, globalRemove, useNode, setNode, ops.key_initNode]
  · intro m hm
    simp [promote, binInsertHead, globalInsertHead, globalRemove, useNode, setNode, hm]

/-- Of the nodes that may be evicted, the one looked up longest ago. -/
structure LeastRecent (l : Lru N V) (preNodeEvict : N → Bool) (n : N) : Prop where
  mem : n ∈ l.global
  inUse : l.isNodeInUse n = true
  allowed : preNodeEvict n = true
  least : ∀ m ∈ l.global, l.isNodeInUse m = true → preNodeEvict m = true →
    l.lookedUp n ≤ l.lookedUp m

variable {pre : N → Bool}

theorem tryEvictOne_cases (pre : N → Bool) (hinv : l.Inv ops) :
    (∃ n, l.LeastRecent pre n ∧ l.tryEvictOne ops pre = (l.evictNode ops n, some n)) ∨
      l.tryEvictOne ops pre = (l, none) := by
  rw [tryEvictOne]
  cases hfind : l.global.reverse.find? fun n => l.isNodeInUse n && pre n with
  | none => exact .inr rfl
  | some n =>
    have hn := find?_some hfind
    rw [Bool.and_eq_true] at hn
    refine .inl ⟨n, ⟨mem_of_find?_reverse hfind, hn.1, hn.2, ?_⟩, rfl⟩
    intro m hm huse hpre
    obtain rfl | hlt := rel_of_find?_reverse hinv.recent hfind hm (by rw [huse, hpre]; rfl)
    · exact Nat.le_refl _
    · exact Nat.le_of_lt (hlt huse hn.1)

theorem evictOne_eq_some (hinv : l.Inv ops) (h : l.evictOne ops pre = some (l', n)) :
    l.LeastRecent pre n ∧ l' = l.evictNode ops n := by
  rw [evictOne] at h
  obtain ⟨m, hm, heq⟩ | heq := tryEvictOne_cases pre hinv
  · rw [heq] at h
    cases h
    exact ⟨hm, rfl⟩
  · rw [heq] at h
    cases h

theorem getOneFree_eq_some (hinv : l.Inv ops) (h : l.getOneFree ops pre = some (l', n)) :
    (n ∈ l.global ∧ l.isNodeInUse n = false ∧ l' = l) ∨
      ((∀ m ∈ l.global, l.isNodeInUse m = true) ∧ l.LeastRecent pre n ∧ l' = l.evictNode ops n) := by
  rw [getOneFree] at h
  cases hfind : l.global.reverse.find? fun n => !l.isNodeInUse n with rw [hfind] at h
  | some m =>
    cases h
    exact .inl ⟨mem_of_find?_reverse hfind, by simpa using find?_some hfind, rfl⟩
  | none =>
    refine .inr ⟨fun m hm => ?_, evictOne_eq_some hinv h⟩
    simpa using find?_reverse_eq_none.mp hfind m hm

theorem getOneFree_inv (hinv : l.Inv ops) (h : l.getOneFree ops pre = some (l', n)) :
    l'.Inv ops ∧ l'.global = l.global ∧ n ∈ l.global ∧ l'.isNodeInUse n = false := by
  obtain ⟨hn, hfree, rfl⟩ | ⟨-, hleast, rfl⟩ := getOneFree_eq_some hinv h
  · exact ⟨hinv, rfl, hn, hfree⟩
  · exact ⟨evictNode_inv hinv hleast.mem, evictNode_global, hleast.mem, evictNode_isNodeInUse⟩

theorem not_holds_evictNode (habsent : ∀ m, ¬ l.Holds ops m hash key) (m : N) :
    ¬ (l.evictNode ops n).Holds ops m hash key := by
  intro hm
  by_cases huse : l.isNodeInUse n = true
  · have hfreed : Freed l n (l.evictNode ops n) := evictNode_freed huse
    obtain ⟨hne, husem⟩ := (hfreed.isNodeInUse m).mp hm.inUse
    exact habsent m ⟨hfreed.global ▸ hm.mem, husem, hfreed.node m hne ▸ hm.hash, hfreed.node m hne ▸ hm.key⟩
  · rw [evictNode_of_free (Bool.eq_false_iff.mpr huse)] at hm
    exact habsent m hm

theorem lookup_of_holds (hinv : l.Inv ops) (hn : l.Holds ops n hash key) : l.lookup ops hash key pre =
      some ((l.binRemove (hashToBin hash) n).promote (hashToBin hash) n, n) := by
  simp only [lookup, findInBin_of_holds hinv hn]

theorem lookup_of_absent (hinv : l.Inv ops) (habsent : ∀ m, ¬ l.Holds ops m hash key) :
    l.lookup ops hash key pre = (l.getOneFree ops pre).map fun (l, found) =>
      ((l.useNode ops found hash key).promote (hashToBin hash) found, found) := by
  rw [lookup]
  cases hfind : l.findInBin ops hash key with
  | some m => exact absurd (findInBin_eq_some hinv hfind) (habsent m)
  | none => rfl

theorem lookup_inv (hinv : l.Inv ops) (h : l.lookup ops hash key pre = some (l', n)) :
    l'.Inv ops ∧ l'.global.Perm l.global := by
  by_cases hholds : ∃ m, l.Holds ops m hash key
  · obtain ⟨m, hm⟩ := hholds
    rw [lookup_of_holds hinv hm] at h
    cases h
    obtain ⟨l₁, hfreed, hlinked⟩ := promote_binRemove hm
    have hm₁ : n ∈ l₁.global := hfreed.global ▸ hm.mem
    refine ⟨hlinked.inv (hfreed.inv hinv hm.mem hm.inUse) hm₁ hfreed.inBin ?_, ?_⟩
    · intro m' hm' huse hhash hkey
      obtain ⟨hne, huse⟩ := (hfreed.isNodeInUse m').mp huse
      rw [hfreed.node m' hne] at hhash hkey
      exact hne (hinv.distinct m' (hfreed.global ▸ hm') n hm.mem huse hm.inUse
        (hhash.trans hm.hash.symm) (hkey.trans hm.key.symm))
    · exact (hlinked.perm hm₁).trans (.of_eq hfreed.global)
  · have habsent : ∀ m, ¬ l.Holds ops m hash key := not_exists.mp hholds
    rw [lookup_of_absent hinv habsent, Option.map_eq_some_iff] at h
    obtain ⟨⟨l₁, m⟩, hfree, h⟩ := h
    cases h
    obtain ⟨hinv₁, hglobal, hmem, huse⟩ := getOneFree_inv hinv hfree
    have hlinked := promote_useNode ops l₁ n hash key
    refine ⟨hlinked.inv hinv₁ (hglobal ▸ hmem) huse ?_, ?_⟩
    · intro m hm husem hhash hkey
      obtain ⟨-, -, rfl⟩ | ⟨-, -, rfl⟩ := getOneFree_eq_some hinv hfree
      · exact habsent m ⟨hm, husem, hhash, hkey⟩
      · exact not_holds_evictNode habsent m ⟨hm, husem, hhash, hkey⟩
    · exact (hlinked.perm (hglobal ▸ hmem)).trans (.of_eq hglobal)

end Lru

inductive LruEvent (N K : Type) where
  | addFree (n : N)
  | lookup (hash : LruHash) (key : K) (preNodeEvict : N → Bool)
  | flush (preNodeEvict : N → Bool)
  | evictNode (n : N)
  | tryEvictOne (preNodeEvict : N → Bool)
  | evictOne (preNodeEvict : N → Bool)

/-- A node is handed to the cache once, and the owner evicts nodes of the cache only: the links of a
node belong to one list. -/
def Lru.step (ops : LruOps K V) (l : Lru N V) : LruEvent N K → Option (Lru N V)
  | .addFree n => if n ∈ l.global then none else some (l.addFree n)
  | .lookup hash key pre => (l.lookup ops hash key pre).map Prod.fst
  | .flush pre => some (l.flush ops pre)
  | .evictNode n => if n ∈ l.global then some (l.evictNode ops n) else none
  | .tryEvictOne pre => some (l.tryEvictOne ops pre).1
  | .evictOne pre => (l.evictOne ops pre).map Prod.fst

def LruEvent.added : LruEvent N K → List N
  | .addFree n => [n]
  | _ => []

namespace Lru

variable {ops : LruOps K V} {l l' : Lru N V} {e : LruEvent N K}

theorem step_inv (hinv : l.Inv ops) (h : l.step ops e = some l') :
    l'.Inv ops ∧ l'.global.Perm (e.added ++ l.global) := by
  have hevict : ∀ n ∈ l.global, (l.evictNode ops n).Inv ops ∧ (l.evictNode ops n).global.Perm l.global :=
    fun n hn => ⟨evictNode_inv hinv hn, .of_eq evictNode_global⟩
  cases e with
  | addFree n =>
    rw [step] at h
    split at h
    · cases h
    · next hn =>
      cases h
      exact ⟨addFree_inv hinv hn, perm_append_singleton n l.global⟩
  | lookup hash key pre =>
    obtain ⟨⟨l₁, n⟩, hlookup, rfl⟩ := Option.map_eq_some_iff.mp h
    exact lookup_inv hinv hlookup
  | flush pre =>
    obtain rfl := Option.some.inj h
    exact flush_inv pre hinv
  | evictNode n =>
    rw [step] at h
    split at h
    · next hn =>
      cases h
      exact hevict n hn
    · cases h
  | tryEvictOne pre =>
    cases h
    obtain ⟨n, hleast, heq⟩ | heq := tryEvictOne_cases pre hinv
    · rw [heq]
      exact hevict n hleast.mem
    · rw [heq]
      exact ⟨hinv, .refl l.global⟩
  | evictOne pre =>
    obtain ⟨⟨l₁, n⟩, hone, rfl⟩ := Option.map_eq_some_iff.mp h
    obtain ⟨hleast, rfl⟩ := evictOne_eq_some hinv hone
    exact hevict n hleast.mem

variable {es : List (LruEvent N K)}

theorem run_inv (hinv : l.Inv ops) (hrun : run (Lru.step ops) l es = some l') :
    l'.Inv ops ∧ l'.global.Perm (es.flatMap LruEvent.added ++ l.global) := by
  induction es generalizing l with
  | nil =>
    cases hrun
    exact ⟨hinv, .refl l'.global⟩
  | cons e es ih =>
    obtain ⟨l₁, hstep, hrest⟩ := run_cons_eq_some.mp hrun
    obtain ⟨hinv₁, hperm₁⟩ := step_inv hinv hstep
    obtain ⟨hinv', hperm'⟩ := ih hinv₁ hrest
    refine ⟨hinv', hperm'.trans ?_⟩
    rw [flatMap_cons, append_assoc]
    exact (hperm₁.append_left _).trans
      (perm_append_comm_assoc (es.flatMap LruEvent.added) e.added l.global)

omit [DecidableEq N] in
theorem mem_added {n : N} : n ∈ es.flatMap LruEvent.added ↔ LruEvent.addFree n ∈ es := by
  rw [mem_flatMap]
  constructor
  · rintro ⟨e, he, hn⟩
    cases e with
    | addFree m => exact mem_singleton.mp hn ▸ he
    | lookup | flush | evictNode | tryEvictOne | evictOne => exact absurd hn not_mem_nil
  · intro hn
    exact ⟨.addFree n, hn, mem_singleton_self n⟩

/-- After every run from `lru_init`: the invariant holds with every added node on the global list, a
lookup of a present key returns its node and calls neither `init_node` nor `post_node_evict`, and a
lookup of an absent key takes a free node, or evicts the least recently looked up node that
`pre_node_evict` allows when no node is free. -/
theorem lru_inv_lookup {node : N → LruNode V} {es : List (LruEvent N K)}
    (hrun : run (Lru.step ops) (init node) es = some l) :
    l.Inv ops ∧ (∀ n, n ∈ l.global ↔ LruEvent.addFree n ∈ es) ∧
      (∀ n hash key pre, l.Holds ops n hash key →
        ∃ l', l.lookup ops hash key pre = some (l', n) ∧ l'.calls = l.calls ∧ l'.node = l.node) ∧
      ∀ n hash key pre l', (∀ m, ¬ l.Holds ops m hash key) →
        l.lookup ops hash key pre = some (l', n) →
        (n ∈ l.global ∧ l.isNodeInUse n = false ∧ l'.calls = l.calls ++ [.initNode n]) ∨
          ((∀ m ∈ l.global, l.isNodeInUse m = true) ∧ l.LeastRecent pre n ∧
            l'.calls = l.calls ++ [.postNodeEvict n, .initNode n]) := by
  obtain ⟨hinv, hperm⟩ := run_inv (init_inv ops node) hrun
  refine ⟨hinv, ?_, ?_, ?_⟩
  · intro n
    rw [hperm.mem_iff, ← mem_added]
    exact mem_append.trans (or_iff_left not_mem_nil)
  · intro n hash key pre hn
    refine ⟨_, lookup_of_holds hinv hn, rfl, ?_⟩
    funext m
    by_cases hm : m = n
    · have huse : (l.node n).inBin = true := hn.inUse
      simp [promote, binInsertHead, globalInsertHead, globalRemove, binRemove, setNode, ← huse]
    · simp [promote, binInsertHead, globalInsertHead, globalRemove, binRemove, setNode, hm]
  · intro n hash key pre l' habsent h
    rw [lookup_of_absent hinv habsent, Option.map_eq_some_iff] at h
    obtain ⟨⟨l₁, m⟩, hfree, h⟩ := h
    cases h
    obtain ⟨hmem, huse, rfl⟩ | ⟨hall, hleast, rfl⟩ := getOneFree_eq_some hinv hfree
    · exact .inl ⟨hmem, huse, rfl⟩
    · refine .inr ⟨hall, hleast, ?_⟩
      rw [evictNode_of_used hleast.inUse]
      exact append_assoc l.calls [.postNodeEvict n] [.initNode n]

def keyOps : LruOps Nat Nat where
  initNode _ k := k
  compareNodes v k := v != k
  postNodeEvict v := v
  key v := v
  key_initNode _ _ := rfl
  compareNodes_eq_false v k := by simp

def emptyNodes (_ : Nat) : LruNode Nat := ⟨0, false, 0⟩

def collidingLookups : List (LruEvent Nat Nat) :=
  [.addFree 0, .addFree 1, .lookup 7 10 fun _ => true, .lookup 7 11 fun _ => true,
    .lookup 7 10 fun _ => true]

theorem lru_inv_lookup_colliding :
    ∃ l, run (Lru.step keyOps) (init emptyNodes) collidingLookups = some l ∧ l.Inv keyOps ∧
      (∀ n, n ∈ l.global ↔ LruEvent.addFree n ∈ collidingLookups) ∧
      ∃ l', l.lookup keyOps 7 12 (fun _ => true) = some (l', 0) ∧
        l'.calls = l.calls ++ [.postNodeEvict 0, .initNode 0] := by
  have hsome : (run (Lru.step keyOps) (init emptyNodes) collidingLookups).isSome = true := by
    decide
  obtain ⟨l, hrun⟩ := Option.isSome_iff_exists.mp hsome
  obtain ⟨hinv, hglobal, -, -⟩ := lru_inv_lookup hrun
  refine ⟨l, hrun, hinv, hglobal, ?_⟩
  cases hrun
  exact ⟨_, rfl, rfl⟩

/-- After every run, `lru_contains_hash` finds the hashes of the added nodes in use and no others. -/
theorem run_containsHash {node : N → LruNode V} {es : List (LruEvent N K)} {hash : LruHash}
    (hrun : run (Lru.step ops) (init node) es = some l) :
    l.containsHash hash = true ↔
      ∃ n, .addFree n ∈ es ∧ l.isNodeInUse n = true ∧ (l.node n).hash = hash := by
  obtain ⟨hinv, hperm⟩ := run_inv (init_inv ops node) hrun
  rw [containsHash_iff hinv]
  refine exists_congr fun n => and_congr_left' ?_
  rw [hperm.mem_iff, ← mem_added]
  exact mem_append.trans (or_iff_left not_mem_nil)

theorem run_containsHash_colliding :
    ∃ l, run (Lru.step keyOps) (init emptyNodes) collidingLookups = some l ∧
      l.containsHash 7 = true := by
  refine exists_some_of_isSome (by decide) fun l hrun => ?_
  apply (run_containsHash hrun).mpr
  cases hrun
  exact ⟨1, by simp [collidingLookups], by decide⟩

end Lru

end XogMobile.Qemu
