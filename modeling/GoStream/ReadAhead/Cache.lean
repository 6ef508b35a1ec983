import GoStream.Foundations.Buffers
import GoStream.Foundations.Text

/-!
# The read-ahead cache
-/

namespace GoStream.ReadAhead

open Foundations

abbrev Path := Bytes
abbrev Key := Bytes

structure Config where
  readAheadBase : ℤ := 0
  readAheadBudget : ℤ := 0

def Config.chunkSize (cfg : Config) : ℤ :=
  if cfg.readAheadBase > 0 then cfg.readAheadBase else 16 * 1024 * 1024

def Config.globalLimit (cfg : Config) : ℤ :=
  if cfg.readAheadBudget ≤ 0 then 256 * 1024 * 1024 else cfg.readAheadBudget

theorem Config.chunkSize_pos (cfg : Config) : 0 < cfg.chunkSize := by
  unfold Config.chunkSize
  split_ifs with h
  · exact h
  · decide

theorem Config.globalLimit_nonneg (cfg : Config) : 0 ≤ cfg.globalLimit := by
  unfold Config.globalLimit
  split_ifs with h
  · decide
  · exact (not_le.mp h).le

structure RaBuffer where
  start : ℤ
  stop : ℤ
  data : ℕ
  lastAccess : ℤ
  sessionID : ℤ
  responsiveOnly : Bool

structure RaShard where
  buffers : AList fun _ : Key => RaBuffer
  order : List Key
  total : ℤ

structure ReadAheadCache where
  shards : Fin 32 → RaShard
  used : ℤ
  pool : List ℕ
  heap : Heap
  activePath : Path
  currentSessionID : ℤ
  now : ℤ

def keyPrefix (path : Path) : Key := path ++ [58]

def raChunkKey (cfg : Config) (path : Path) (offset : ℤ) : Key :=
  path ++ 58 :: itoa (offset.tdiv cfg.chunkSize)

def staleThreshold : ℤ := 120 * 1000000000
def activeThreshold : ℤ := 60 * 1000000000

namespace ReadAheadCache

def new : ReadAheadCache where
  shards := fun _ => ⟨∅, [], 0⟩
  used := 0
  pool := []
  heap := .empty
  activePath := []
  currentSessionID := 0
  now := 0

variable (cfg : Config) (hash : Path → ℕ) (c : ReadAheadCache)

def getShard (path : Path) : Fin 32 := ⟨hash path % 32, Nat.mod_lt _ (by decide)⟩

def setShard (i : Fin 32) (s : RaShard) : ReadAheadCache :=
  { c with shards := Function.update c.shards i s }

def setOrder (i : Fin 32) (order : List Key) : ReadAheadCache :=
  c.setShard i { c.shards i with order := order }

def entry (i : Fin 32) (key : Key) : Option RaBuffer := (c.shards i).buffers.lookup key

def bytes (b : RaBuffer) : Bytes := c.heap.cells b.data

def recycle (a : ℕ) : ReadAheadCache :=
  if ((c.heap.cells a).length : ℤ) = cfg.chunkSize ∧ c.pool.length < 32 then
    { c with pool := c.pool ++ [a] }
  else c

def dropKey (i : Fin 32) (key : Key) : ReadAheadCache :=
  match c.entry i key with
  | none => c
  | some old =>
    let size : ℤ := (c.bytes old).length
    let s := c.shards i
    { c.setShard i { s with buffers := s.buffers.erase key, total := s.total - size } with
      used := c.used - size }.recycle cfg old.data

def takeBuffer (d : Bytes) : ReadAheadCache × ℕ :=
  match c.pool with
  | [] => ({ c with heap := c.heap.alloc d }, c.heap.next)
  | a :: pool =>
    if (c.heap.cells a).length = d.length then
      ({ c with pool := pool, heap := c.heap.store a (copyInto (c.heap.cells a) d) }, a)
    else ({ c with pool := pool, heap := c.heap.alloc d }, c.heap.next)

def overwrite (i : Fin 32) (key : Key) : ReadAheadCache :=
  match c.entry i key with
  | none => c
  | some _ => (c.dropKey cfg i key).setOrder i ((c.shards i).order.erase key)

def insertChunk (i : Fin 32) (key : Key) (b : RaBuffer) : ReadAheadCache :=
  let size : ℤ := (c.bytes b).length
  let s := c.shards i
  { c.setShard i ⟨s.buffers.insert key b, s.order ++ [key], s.total + size⟩ with
    used := c.used + size }

def evictLocal (i : Fin 32) : List Key → ReadAheadCache → ReadAheadCache
  | v :: w :: rest, c =>
      if c.used > cfg.globalLimit then evictLocal i (w :: rest) (c.dropKey cfg i v)
      else c.setOrder i (v :: w :: rest)
  | order, c => c.setOrder i order

def compact (i : Fin 32) : ReadAheadCache :=
  let s := c.shards i
  if s.order.length > 100 ∧ s.order.length > s.buffers.keys.length * 2 then
    c.setOrder i (s.order.filter fun key => (s.buffers.lookup key).isSome)
  else c

def put (p : Path) (start stop : ℤ) (d : Bytes) (responsive : Bool) : ReadAheadCache :=
  let sessID := if p = c.activePath then c.currentSessionID else 0
  let i := getShard hash p
  let key := raChunkKey cfg p start
  let (c, a) := c.takeBuffer d
  let c := c.overwrite cfg i key
  let c := c.insertChunk i key ⟨start, stop, a, c.now, sessID, responsive⟩
  (evictLocal cfg i (c.shards i).order c).compact i

def evictPathShard (path : Path) (c : ReadAheadCache) (i : Fin 32) : ReadAheadCache :=
  let s := c.shards i
  let toDelete := s.buffers.keys.filter fun key => (keyPrefix path).isPrefixOf key
  let freed : ℤ := (toDelete.map fun key =>
    (((c.entry i key).map fun b => (c.bytes b).length).getD 0 : ℤ)).sum
  if toDelete = [] then c
  else
    { c.setShard i ⟨toDelete.foldl (fun m key => m.erase key) s.buffers,
        s.order.filter fun key => !toDelete.contains key, s.total - freed⟩ with
      used := c.used - freed }

def evictPath (path : Path) : ReadAheadCache := (List.finRange 32).foldl (evictPathShard path) c

def switchContext (newPath : Path) : ReadAheadCache :=
  if newPath = c.activePath then c
  else { c with activePath := newPath, currentSessionID := c.currentSessionID + 1 }

def keeps (activePath : Path) (activeSessionID : ℤ) (key : Key) (b : RaBuffer) : Bool :=
  let mine := (keyPrefix activePath).isPrefixOf key
  if b.sessionID ≠ activeSessionID ∧ !mine then false
  else decide (c.now - b.lastAccess ≤ if mine then activeThreshold else staleThreshold)

def evictStale (activePath : Path) (activeSessionID : ℤ) (i : Fin 32) :
    List Key → List Key → ReadAheadCache → ReadAheadCache
  | [], newOrder, c => c.setOrder i newOrder
  | key :: rest, newOrder, c =>
    match c.entry i key with
    | some b =>
      if c.keeps activePath activeSessionID key b then
        evictStale activePath activeSessionID i rest (newOrder ++ [key]) c
      else evictStale activePath activeSessionID i rest newOrder (c.dropKey cfg i key)
    | none => evictStale activePath activeSessionID i rest (newOrder ++ [key]) c

def evictShard (activePath : Path) (activeSessionID : ℤ) (c : ReadAheadCache) (i : Fin 32) :
    ReadAheadCache :=
  evictStale cfg activePath activeSessionID i (c.shards i).order [] c

def triggerGlobalEviction (activePath : Path) (activeSessionID : ℤ) (skipped : Fin 32 → Bool) :
    ReadAheadCache :=
  if (List.finRange 32).all skipped then c.evictShard cfg activePath activeSessionID 0
  else
    ((List.finRange 32).filter fun i => !skipped i).foldl
      (evictShard cfg activePath activeSessionID) c

def find (p : Path) (off stop : ℤ) : Option (RaBuffer × Option RaBuffer) :=
  let i := getShard hash p
  match c.entry i (raChunkKey cfg p off) with
  | none => none
  | some b =>
    if off ≥ b.start ∧ off ≤ b.stop then
      if stop ≤ b.stop then some (b, none)
      else
        match c.entry i (raChunkKey cfg p stop) with
        | none => none
        | some b2 =>
          if b2.start = b.stop + 1 ∧ b2.stop ≥ stop then some (b, some b2) else none
    else none

def get (p : Path) (off stop : ℤ) : Option Bytes :=
  match c.find cfg hash p off stop with
  | none => none
  | some (b, none) =>
      some (((c.bytes b).drop (off - b.start).toNat).take (stop - off + 1).toNat)
  | some (b, some b2) =>
      let out := List.replicate (stop - off + 1).toNat 0
      let src := (c.bytes b).drop (off - b.start).toNat
      let n1 := min out.length src.length
      let out := copyInto out src
      some (out.take n1 ++
        copyInto (out.drop n1) ((c.bytes b2).take (stop - b2.start + 1).toNat))

def existsChunk (p : Path) (off : ℤ) : Bool :=
  (c.entry (getShard hash p) (raChunkKey cfg p off)).isSome

def copyTo (p : Path) (off stop : ℤ) (dest : Bytes) : ℕ × Bytes :=
  match c.find cfg hash p off stop with
  | none => (0, dest)
  | some (b, none) =>
      let src := ((c.bytes b).drop (off - b.start).toNat).take (stop - off + 1).toNat
      (min dest.length src.length, copyInto dest src)
  | some (b, some b2) =>
      let src := (c.bytes b).drop (off - b.start).toNat
      let n1 := min dest.length src.length
      let dest := copyInto dest src
      let src2 := (c.bytes b2).take (stop - b2.start + 1).toNat
      (n1 + min (dest.length - n1) src2.length, dest.take n1 ++ copyInto (dest.drop n1) src2)

def touchKey (i : Fin 32) (key : Key) : ReadAheadCache :=
  match c.entry i key with
  | none => c
  | some b =>
    c.setShard i
      { c.shards i with buffers := (c.shards i).buffers.insert key { b with lastAccess := c.now } }

def touch (p : Path) (off stop : ℤ) : ReadAheadCache :=
  let i := getShard hash p
  match c.entry i (raChunkKey cfg p off) with
  | none => c
  | some b =>
    if off ≥ b.start ∧ off ≤ b.stop then
      let c' := c.touchKey i (raChunkKey cfg p off)
      match c.find cfg hash p off stop with
      | some (_, some _) => c'.touchKey i (raChunkKey cfg p stop)
      | _ => c'
    else c

inductive Op where
  | tick (nanos : ℕ)
  | put (p : Path) (start stop : ℤ) (d : Bytes) (responsive : Bool)
  | get (p : Path) (off stop : ℤ)
  | copyTo (p : Path) (off stop : ℤ)
  | evictPath (p : Path)
  | switchContext (p : Path)
  | triggerGlobalEviction (activePath : Path) (activeSessionID : ℤ) (skipped : Fin 32 → Bool)

def step (c : ReadAheadCache) : Op → ReadAheadCache
  | .tick nanos => { c with now := c.now + nanos }
  | .put p start stop d responsive => c.put cfg hash p start stop d responsive
  | .get p off stop => c.touch cfg hash p off stop
  | .copyTo p off stop => c.touch cfg hash p off stop
  | .evictPath p => c.evictPath p
  | .switchContext p => c.switchContext p
  | .triggerGlobalEviction activePath activeSessionID skipped =>
      c.triggerGlobalEviction cfg activePath activeSessionID skipped

def stored (p : Path) (start stop : ℤ) (d : Bytes) (responsive : Bool) : ReadAheadCache :=
  let c₁ := (c.takeBuffer d).1.overwrite cfg (getShard hash p) (raChunkKey cfg p start)
  c₁.insertChunk (getShard hash p) (raChunkKey cfg p start) ⟨start, stop, (c.takeBuffer d).2, c₁.now,
    if p = c.activePath then c.currentSessionID else 0, responsive⟩

theorem put_eq (p : Path) (start stop : ℤ) (d : Bytes) (responsive : Bool) :
    c.put cfg hash p start stop d responsive =
      (evictLocal cfg (getShard hash p)
        ((c.stored cfg hash p start stop d responsive).shards (getShard hash p)).order
        (c.stored cfg hash p start stop d responsive)).compact (getShard hash p) := rfl

structure Stable (P : ReadAheadCache → Prop) : Prop where
  dropKey : ∀ {c} i key, P c → P (c.dropKey cfg i key)
  setOrder : ∀ {c} i order, P c → P (c.setOrder i order)
  evictPathShard : ∀ {c} path i, P c → P (c.evictPathShard path i)
  touchKey : ∀ {c} i key, P c → P (c.touchKey i key)
  setContext : ∀ {c} now path session, P c →
    P { c with now := now, activePath := path, currentSessionID := session }

namespace Stable

variable {cfg hash c} {P : ReadAheadCache → Prop}

theorem evictLocal (h : Stable cfg P) (i : Fin 32) : ∀ (order : List Key) {c : ReadAheadCache},
    P c → P (evictLocal cfg i order c)
  | [], _, hc => h.setOrder i _ hc
  | [_], _, hc => h.setOrder i _ hc
  | v :: w :: rest, c, hc => by
    unfold ReadAheadCache.evictLocal
    split_ifs
    · exact h.evictLocal i (w :: rest) (h.dropKey i v hc)
    · exact h.setOrder i _ hc

theorem compact (h : Stable cfg P) (hc : P c) (i : Fin 32) : P (c.compact i) := by
  unfold ReadAheadCache.compact
  dsimp only
  split_ifs
  · exact h.setOrder i _ hc
  · exact hc

theorem overwrite (h : Stable cfg P) (hc : P c) (i : Fin 32) (key : Key) :
    P (c.overwrite cfg i key) := by
  unfold ReadAheadCache.overwrite
  split
  · exact hc
  · exact h.setOrder i _ (h.dropKey i key hc)

theorem evictStale (h : Stable cfg P) (activePath : Path) (activeSessionID : ℤ) (i : Fin 32) :
    ∀ (keys newOrder : List Key) {c : ReadAheadCache}, P c →
      P (evictStale cfg activePath activeSessionID i keys newOrder c)
  | [], _, _, hc => h.setOrder i _ hc
  | key :: rest, newOrder, c, hc => by
    unfold ReadAheadCache.evictStale
    split
    · split_ifs
      · exact h.evictStale activePath activeSessionID i rest _ hc
      · exact h.evictStale activePath activeSessionID i rest _ (h.dropKey i key hc)
    · exact h.evictStale activePath activeSessionID i rest _ hc

theorem triggerGlobalEviction (h : Stable cfg P) (hc : P c) (activePath : Path)
    (activeSessionID : ℤ) (skipped : Fin 32 → Bool) :
    P (c.triggerGlobalEviction cfg activePath activeSessionID skipped) := by
  unfold ReadAheadCache.triggerGlobalEviction
  split_ifs
  · exact h.evictStale activePath activeSessionID 0 _ _ hc
  · generalize (List.finRange 32).filter _ = shards
    induction shards generalizing c with
    | nil => exact hc
    | cons i shards ih => exact ih (h.evictStale activePath activeSessionID i _ _ hc)

theorem evictPath (h : Stable cfg P) (hc : P c) (path : Path) : P (c.evictPath path) := by
  unfold ReadAheadCache.evictPath
  generalize List.finRange 32 = shards
  induction shards generalizing c with
  | nil => exact hc
  | cons i shards ih => exact ih (h.evictPathShard path i hc)

theorem touch (h : Stable cfg P) (hc : P c) (p : Path) (off stop : ℤ) :
    P (c.touch cfg hash p off stop) := by
  unfold ReadAheadCache.touch
  dsimp only
  split
  · exact hc
  · split_ifs
    · split
      · exact h.touchKey _ _ (h.touchKey _ _ hc)
      · exact h.touchKey _ _ hc
    · exact hc

theorem step (h : Stable cfg P) (hc : P c) (op : Op)
    (hput : ∀ p start stop d responsive, op = .put p start stop d responsive →
      P (c.put cfg hash p start stop d responsive)) : P (c.step cfg hash op) := by
  cases op with
  | tick nanos => exact h.setContext (c.now + nanos) c.activePath c.currentSessionID hc
  | put p start stop d responsive => exact hput p start stop d responsive rfl
  | get p off stop | copyTo p off stop => exact h.touch hc p off stop
  | evictPath p => exact h.evictPath hc p
  | switchContext p =>
    simp only [ReadAheadCache.step, switchContext]
    split_ifs
    · exact hc
    · exact h.setContext c.now p (c.currentSessionID + 1) hc
  | triggerGlobalEviction activePath activeSessionID skipped =>
    exact h.triggerGlobalEviction hc activePath activeSessionID skipped

end Stable

end ReadAheadCache

end GoStream.ReadAhead
