import GoStream.Foundations.Disk
import GoStream.Foundations.SliceSort

/-!
# The SSD warmup cache
-/

namespace GoStream.Warmup

open Foundations

inductive WarmupPath where
  | head (hash : String) (fileID : ℤ)
  | tail (hash : String) (fileID : ℤ)
  deriving DecidableEq, Repr

def WarmupPath.hash : WarmupPath → String
  | .head h _ => h
  | .tail h _ => h

def WarmupPath.isHead : WarmupPath → Bool
  | .head _ _ => true
  | .tail _ _ => false

structure WarmupConfig where
  warmupFileSize : ℕ := 64 * 1024 * 1024
  tailWarmupSize : ℕ := 16 * 1024 * 1024
  oversize : ℕ := 16 * 1024 * 1024
  diskWarmupQuotaGB : ℤ := 0

def warmupQuota : ℤ := 32 * 1024 * 1024 * 1024

def writeChCap : ℕ := 32

def sizeTTL : ℕ := 10 * 1000000000

structure SizeEntry where
  size : ℕ
  updatedAt : ℕ
  deriving DecidableEq, Repr

structure WarmupWrite where
  hash : String
  fileID : ℤ
  data : Bytes
  off : ℕ
  deriving DecidableEq, Repr

structure DiskWarmupCache where
  disk : Disk WarmupPath
  totalSize : ℤ
  missing : WarmupPath → Bool
  handles : WarmupPath → Bool
  sizeCache : WarmupPath → Option SizeEntry
  tailCoverage : WarmupPath → Option ℕ
  writeCh : List WarmupWrite
  now : ℕ

structure IoFaults where
  createFails : Bool
  openFails : Bool
  writeStops : Option ℕ
  deriving DecidableEq, Repr

def IoFaults.none : IoFaults := ⟨false, false, Option.none⟩

def IoFaults.written (io : IoFaults) (data : Bytes) : ℕ :=
  match io.writeStops with
  | .none => data.length
  | .some k => min k data.length

theorem IoFaults.written_le (io : IoFaults) (data : Bytes) : io.written data ≤ data.length := by
  unfold IoFaults.written
  split
  · exact le_rfl
  · exact min_le_right _ _

theorem IoFaults.length_take_written (io : IoFaults) (data : Bytes) :
    (data.take (io.written data)).length = io.written data := by
  rw [List.length_take]
  exact min_eq_left (io.written_le data)

namespace DiskWarmupCache

def empty : DiskWarmupCache where
  disk := Disk.empty
  totalSize := 0
  missing := fun _ => false
  handles := fun _ => false
  sizeCache := fun _ => none
  tailCoverage := fun _ => none
  writeCh := []
  now := 0

variable (cfg : WarmupConfig) (S : SliceSort) (s : DiskWarmupCache)

def storeSize (p : WarmupPath) (size : ℕ) : DiskWarmupCache :=
  { s with sizeCache := Function.update s.sizeCache p (some ⟨size, s.now⟩) }

def storeMissing (p : WarmupPath) : DiskWarmupCache :=
  { s with missing := Function.update s.missing p true }

def closeHandle (p : WarmupPath) : DiskWarmupCache :=
  { s with handles := Function.update s.handles p false }

def getHandle (p : WarmupPath) (openFails : Bool) : Option DiskWarmupCache :=
  if s.handles p then some s
  else if openFails || (s.disk.content p).isNone then none
  else some { s with handles := Function.update s.handles p true }

def evict (p : WarmupPath) : DiskWarmupCache :=
  { s.closeHandle p with
    sizeCache := Function.update s.sizeCache p none
    tailCoverage := Function.update s.tailCoverage p none
    disk := s.disk.remove p }

structure WFile where
  path : WarmupPath
  size : ℕ
  modTime : ℕ

def listing : List WFile :=
  s.disk.files.entries.map fun e => ⟨e.1, e.2.data.length, e.2.modTime / 1000000000⟩

def quota : ℤ :=
  if cfg.diskWarmupQuotaGB > 0 then cfg.diskWarmupQuotaGB * 1024 * 1024 * 1024 else warmupQuota

def evictOldest (limit needed : ℤ) : List WFile → ℤ → DiskWarmupCache → DiskWarmupCache
  | [], diskTotal, s => { s with totalSize := diskTotal }
  | f :: fs, diskTotal, s =>
      if diskTotal + needed ≤ limit then { s with totalSize := diskTotal }
      else evictOldest limit needed fs (diskTotal - f.size) (s.evict f.path)

def enforceQuotaLocked (needed : ℤ) : DiskWarmupCache :=
  if s.totalSize + needed ≤ quota cfg then s
  else
    let files := s.listing
    let diskTotal : ℤ := (files.map fun f => (f.size : ℤ)).sum
    if diskTotal + needed ≤ quota cfg then { s with totalSize := diskTotal }
    else
      evictOldest (quota cfg) needed (S.sort (fun a b => decide (a.modTime < b.modTime)) files)
        diskTotal s

def writeChunk (hash : String) (fileID : ℤ) (data : Bytes) (off : ℕ) : DiskWarmupCache :=
  if off > cfg.warmupFileSize then s
  else if s.writeCh.length < writeChCap then
    { s with writeCh := s.writeCh ++ [⟨hash, fileID, data, off⟩] }
  else s

def headData (data : Bytes) (off : ℕ) : Bytes :=
  if off < cfg.warmupFileSize ∧ off + data.length > cfg.warmupFileSize then
    data.take (cfg.warmupFileSize - off)
  else data

def headComplete (p : WarmupPath) : Option DiskWarmupCache :=
  match s.sizeCache p with
  | some e => if e.size > cfg.warmupFileSize then some s else none
  | none =>
    match s.disk.size p with
    | some n => if n > cfg.warmupFileSize then some (s.storeSize p n) else none
    | none => none

def createFile (p : WarmupPath) : DiskWarmupCache :=
  { s with
    missing := Function.update s.missing p false
    handles := Function.update s.handles p true
    disk := s.disk.create p s.now }

def prevSize (p : WarmupPath) : ℕ :=
  match s.sizeCache p with
  | some e => e.size
  | none => (s.disk.size p).getD 0

def writeHead (p : WarmupPath) (data : Bytes) (off : ℕ) (io : IoFaults) : DiskWarmupCache :=
  let n := io.written data
  let s' := { s with disk := s.disk.write p off (data.take n) s.now }
  if n < data.length then s'
  else
    let currentSize := off + n
    let total := if currentSize > s.prevSize p then
        s'.totalSize + (currentSize - s.prevSize p : ℤ) else s'.totalSize
    { s' with totalSize := total }.storeSize p currentSize

def openHead (p : WarmupPath) (io : IoFaults) : DiskWarmupCache × Bool :=
  if (s.disk.content p).isNone then
    let s := s.enforceQuotaLocked cfg S cfg.warmupFileSize
    if io.createFails then ({ s with missing := Function.update s.missing p false }, false)
    else (s.createFile p, true)
  else
    match s.getHandle p io.openFails with
    | none => (s, false)
    | some s' => (s', true)

def processWrite (hash : String) (fileID : ℤ) (data : Bytes) (off : ℕ) (io : IoFaults) :
    DiskWarmupCache :=
  if off > cfg.warmupFileSize then s
  else
    let p := WarmupPath.head hash fileID
    match s.headComplete cfg p with
    | some s' => s'
    | none =>
      match s.openHead cfg S p io with
      | (s', false) => s'
      | (s', true) => s'.writeHead p (headData cfg data off) off io

def writeWorker (io : IoFaults) : DiskWarmupCache :=
  match s.writeCh with
  | [] => s
  | w :: ws => { s with writeCh := ws }.processWrite cfg S w.hash w.fileID w.data w.off io

def dropOversize (p : WarmupPath) : DiskWarmupCache :=
  { s.closeHandle p with
    sizeCache := Function.update s.sizeCache p none
    disk := s.disk.remove p
    missing := Function.update s.missing p true }

def getAvailableRange (hash : String) (fileID : ℤ) : DiskWarmupCache × ℕ :=
  let p := WarmupPath.head hash fileID
  if s.missing p then (s, 0)
  else
    let fresh := (s.sizeCache p).filter fun e => decide (s.now - e.updatedAt < sizeTTL)
    match fresh with
    | some e => (s, e.size)
    | none =>
      match s.disk.size p with
      | none => (s.storeMissing p, 0)
      | some n =>
        if n > cfg.warmupFileSize + cfg.oversize then (s.dropOversize p, 0)
        else (s.storeSize p n, n)

def readAt (hash : String) (fileID : ℤ) (len off : ℕ) (openFails : Bool) :
    DiskWarmupCache × Bytes :=
  if off > cfg.warmupFileSize then (s, [])
  else
    let p := WarmupPath.head hash fileID
    match s.getHandle p openFails with
    | none => (s, [])
    | some s' =>
      let (s'', availSize) := s'.getAvailableRange cfg hash fileID
      if off ≥ availSize then (s'', [])
      else (s'', pread ((s''.disk.content p).getD []) off (min len (availSize - off)))

def tailStart (fileSize : ℕ) : ℕ := fileSize - cfg.tailWarmupSize

def tailComplete (p : WarmupPath) : Option DiskWarmupCache :=
  match s.tailCoverage p with
  | some hw => if hw ≥ cfg.tailWarmupSize then some s else none
  | none =>
    match s.disk.size p with
    | some n =>
      if n ≥ cfg.tailWarmupSize then
        some { s with tailCoverage := Function.update s.tailCoverage p (some n) }
      else none
    | none => none

def writeTailAt (p : WarmupPath) (data : Bytes) (relOffset : ℕ) (io : IoFaults) :
    DiskWarmupCache :=
  let n := io.written data
  let endOff := relOffset + n
  let hw := match s.tailCoverage p with
    | some hw => max hw endOff
    | none => endOff
  { s.storeSize p endOff with
    disk := s.disk.write p relOffset (data.take n) s.now
    tailCoverage := Function.update s.tailCoverage p (some hw) }

def openTail (p : WarmupPath) (io : IoFaults) : DiskWarmupCache × Bool :=
  if (s.disk.content p).isNone then
    if io.createFails then ({ s with missing := Function.update s.missing p false }, false)
    else (s.createFile p, true)
  else
    match s.getHandle p io.openFails with
    | none => (s, false)
    | some s' => (s', true)

def tailData (data : Bytes) (relOffset : ℕ) : Bytes := data.take (cfg.tailWarmupSize - relOffset)

def writeTail (hash : String) (fileID : ℤ) (data : Bytes) (absoluteOffset fileSize : ℕ)
    (io : IoFaults) : DiskWarmupCache :=
  let p := WarmupPath.tail hash fileID
  if absoluteOffset < tailStart cfg fileSize then s
  else
    let relOffset := absoluteOffset - tailStart cfg fileSize
    if tailData cfg data relOffset = [] then s
    else
      match s.tailComplete cfg p with
      | some s' => s'
      | none =>
        match s.openTail p io with
        | (s', false) => s'
        | (s', true) => s'.writeTailAt p (tailData cfg data relOffset) relOffset io

def tailHit (p : WarmupPath) (readEnd : ℕ) : Bool :=
  let onDisk := (s.disk.size p).any fun n => decide (readEnd ≤ n)
  match s.tailCoverage p with
  | some hw => decide (readEnd ≤ hw) || onDisk
  | none => onDisk

def noteCoverage (p : WarmupPath) : DiskWarmupCache :=
  match s.tailCoverage p with
  | some _ => s
  | none => { s with tailCoverage := Function.update s.tailCoverage p (s.disk.size p) }

def readTail (hash : String) (fileID : ℤ) (len absoluteOffset fileSize : ℕ) (openFails : Bool) :
    DiskWarmupCache × Bytes :=
  if absoluteOffset < tailStart cfg fileSize then (s, [])
  else
    let relOffset := absoluteOffset - tailStart cfg fileSize
    let p := WarmupPath.tail hash fileID
    if !s.tailHit p (relOffset + len) then (s, [])
    else
      match (s.noteCoverage p).getHandle p openFails with
      | none => (s.noteCoverage p, [])
      | some s' => (s', pread ((s'.disk.content p).getD []) relOffset len)

def getTailRange (hash : String) (fileID : ℤ) : DiskWarmupCache × ℕ :=
  let p := WarmupPath.tail hash fileID
  if s.missing p then (s, 0)
  else
    let fresh := (s.sizeCache p).filter fun e => decide (s.now - e.updatedAt < sizeTTL)
    match fresh with
    | some e => (s, e.size)
    | none =>
      match s.disk.size p with
      | none => (s.storeMissing p, 0)
      | some n => (s.storeSize p n, n)

def removeHash (hash : String) : DiskWarmupCache :=
  let mine := s.disk.paths.filter fun p => p.hash = hash
  let victims := mine.filter (fun p => p.isHead) ++ mine.filter fun p => !p.isHead
  victims.foldl (fun s p =>
    { s with totalSize := s.totalSize - ((s.disk.size p).getD 0 : ℤ) }.evict p) s

def handleReaper (idle : WarmupPath → Bool) : DiskWarmupCache :=
  { s with handles := fun p => s.handles p && !idle p }

def initDiskWarmup : DiskWarmupCache :=
  { empty with disk := s.disk, totalSize := s.disk.totalBytes, now := s.now }

inductive Op where
  | tick (nanos : ℕ)
  | writeChunk (hash : String) (fileID : ℤ) (data : Bytes) (off : ℕ)
  | writeWorker (io : IoFaults)
  | processWrite (hash : String) (fileID : ℤ) (data : Bytes) (off : ℕ) (io : IoFaults)
  | getAvailableRange (hash : String) (fileID : ℤ)
  | readAt (hash : String) (fileID : ℤ) (len off : ℕ) (openFails : Bool)
  | writeTail (hash : String) (fileID : ℤ) (data : Bytes) (absoluteOffset fileSize : ℕ)
      (io : IoFaults)
  | readTail (hash : String) (fileID : ℤ) (len absoluteOffset fileSize : ℕ) (openFails : Bool)
  | getTailRange (hash : String) (fileID : ℤ)
  | removeHash (hash : String)
  | handleReaper (idle : WarmupPath → Bool)
  | initDiskWarmup

def step (s : DiskWarmupCache) : Op → DiskWarmupCache
  | .tick nanos => { s with now := s.now + nanos }
  | .writeChunk hash fileID data off => s.writeChunk cfg hash fileID data off
  | .writeWorker io => s.writeWorker cfg S io
  | .processWrite hash fileID data off io => s.processWrite cfg S hash fileID data off io
  | .getAvailableRange hash fileID => (s.getAvailableRange cfg hash fileID).1
  | .readAt hash fileID len off openFails => (s.readAt cfg hash fileID len off openFails).1
  | .writeTail hash fileID data absoluteOffset fileSize io =>
      s.writeTail cfg hash fileID data absoluteOffset fileSize io
  | .readTail hash fileID len absoluteOffset fileSize openFails =>
      (s.readTail cfg hash fileID len absoluteOffset fileSize openFails).1
  | .getTailRange hash fileID => (s.getTailRange hash fileID).1
  | .removeHash hash => s.removeHash hash
  | .handleReaper idle => s.handleReaper idle
  | .initDiskWarmup => s.initDiskWarmup

structure PathView where
  isOpen : Bool
  missing : Bool
  size : Option SizeEntry
  coverage : Option ℕ
  content : Option Bytes

def view (p : WarmupPath) : PathView where
  isOpen := s.handles p
  missing := s.missing p
  size := s.sizeCache p
  coverage := s.tailCoverage p
  content := s.disk.content p

section Views

variable (p q : WarmupPath)

theorem view_storeSize (n : ℕ) : (s.storeSize p n).view q =
    if q = p then { s.view q with size := some ⟨n, s.now⟩ } else s.view q := by
  by_cases h : q = p
  · subst h; simp [view, storeSize]
  · simp [view, storeSize, h]

theorem view_storeMissing : (s.storeMissing p).view q =
    if q = p then { s.view q with missing := true } else s.view q := by
  by_cases h : q = p
  · subst h; simp [view, storeMissing]
  · simp [view, storeMissing, h]

theorem view_clearMissing : { s with missing := Function.update s.missing p false }.view q =
    if q = p then { s.view q with missing := false } else s.view q := by
  by_cases h : q = p
  · subst h; simp [view]
  · simp [view, h]

theorem view_dropOversize : (s.dropOversize p).view q =
    if q = p then ⟨false, true, none, (s.view q).coverage, none⟩ else s.view q := by
  by_cases h : q = p
  · subst h; simp [view, dropOversize, closeHandle]
  · simp [view, dropOversize, closeHandle, h]

theorem view_evict : (s.evict p).view q =
    if q = p then ⟨false, (s.view q).missing, none, none, none⟩ else s.view q := by
  by_cases h : q = p
  · subst h; simp [view, evict, closeHandle]
  · simp [view, evict, closeHandle, h]

theorem view_writeHead (data : Bytes) (off : ℕ) (io : IoFaults) :
    (s.writeHead p data off io).view q =
      if q = p then
        { s.view q with
          size := if io.written data < data.length then (s.view q).size
            else some ⟨off + io.written data, s.now⟩
          content := (s.view q).content.map fun f => pwrite f off (data.take (io.written data)) }
      else s.view q := by
  by_cases h : q = p
  · subst h
    by_cases hn : io.written data < data.length <;> simp [view, writeHead, storeSize, hn]
  · by_cases hn : io.written data < data.length <;> simp [view, writeHead, storeSize, hn, h]

theorem disk_writeHead (data : Bytes) (off : ℕ) (io : IoFaults) :
    (s.writeHead p data off io).disk = s.disk.write p off (data.take (io.written data)) s.now := by
  unfold writeHead
  dsimp only
  split_ifs <;> rfl

theorem view_createFile : (s.createFile p).view q =
    if q = p then { s.view q with isOpen := true, missing := false, content := some [] }
    else s.view q := by
  by_cases h : q = p
  · subst h; simp [view, createFile]
  · simp [view, createFile, h]

theorem view_writeTailAt (data : Bytes) (relOffset : ℕ) (io : IoFaults) :
    (s.writeTailAt p data relOffset io).view q =
      if q = p then
        { s.view q with
          size := some ⟨relOffset + io.written data, s.now⟩
          coverage := some (max ((s.view q).coverage.getD 0) (relOffset + io.written data))
          content := (s.view q).content.map fun f =>
            pwrite f relOffset (data.take (io.written data)) }
      else s.view q := by
  by_cases h : q = p
  · subst h
    cases hc : s.tailCoverage q <;> simp [view, writeTailAt, storeSize, hc]
  · simp [view, writeTailAt, storeSize, h]

theorem view_setCoverage (c : Option ℕ) :
    { s with tailCoverage := Function.update s.tailCoverage p c }.view q =
      if q = p then { s.view q with coverage := c } else s.view q := by
  by_cases h : q = p
  · subst h; simp [view]
  · simp [view, h]

def canOpen (io : IoFaults) : Bool :=
  if (s.disk.content p).isNone then !io.createFails else s.handles p || !io.openFails

theorem getHandle_eq_some {s' : DiskWarmupCache} {openFails : Bool}
    (h : s.getHandle p openFails = some s') :
    s' = { s with handles := Function.update s.handles p true } := by
  unfold getHandle at h
  split_ifs at h with hopen hno
  · obtain rfl := Option.some.inj h
    rw [← hopen, Function.update_eq_self]
  · exact (Option.some.inj h).symm

theorem view_openHandle : { s with handles := Function.update s.handles p true }.view q =
    if q = p then { s.view q with isOpen := true } else s.view q := by
  by_cases h : q = p
  · subst h; simp [view]
  · simp [view, h]

end Views

section Eviction

variable {P : DiskWarmupCache → Prop} (total : ∀ s t, P s → P { s with totalSize := t })
  (evict : ∀ s p, P s → P (s.evict p))
include total evict

theorem evictOldest_keeps (limit needed : ℤ) : ∀ (fs : List WFile) (diskTotal : ℤ)
    {s : DiskWarmupCache}, P s → P (evictOldest limit needed fs diskTotal s)
  | [], _, _, h => total _ _ h
  | f :: fs, diskTotal, s, h => by
    unfold evictOldest
    split_ifs
    · exact total _ _ h
    · exact evictOldest_keeps limit needed fs _ (evict s f.path h)

theorem enforceQuotaLocked_keeps {s : DiskWarmupCache} (h : P s) (needed : ℤ) :
    P (s.enforceQuotaLocked cfg S needed) := by
  unfold enforceQuotaLocked
  dsimp only
  split_ifs
  · exact h
  · exact total _ _ h
  · exact evictOldest_keeps total evict _ _ _ _ h

theorem removeHash_keeps {s : DiskWarmupCache} (h : P s) (hash : String) :
    P (s.removeHash hash) := by
  unfold removeHash
  dsimp only
  -- both globs together are one list of victims
  generalize List.filter _ (List.filter _ s.disk.paths) ++ _ = victims
  induction victims generalizing s with
  | nil => exact h
  | cons p ps ih => exact ih (evict _ p (total _ _ h))

end Eviction

theorem enforceQuotaLocked_absent {p : WarmupPath} (h : s.disk.content p = none) (needed : ℤ) :
    (s.enforceQuotaLocked cfg S needed).disk.content p = none := by
  apply enforceQuotaLocked_keeps cfg S (P := fun s => s.disk.content p = none)
  · exact fun _ _ h => h
  · intro s q hs
    simp [evict, hs]
  · exact h

end DiskWarmupCache

end GoStream.Warmup
