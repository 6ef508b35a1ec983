import GoStream.Bridge.Reader
import GoStream.ReadAhead.Content

/-!
# Filling the caches from the streaming reader
-/

namespace GoStream.Bridge

open Foundations ReadAhead

structure PumpParams where
  cache : Config
  hash : Path → ℕ
  maxSize : ℤ
  warmupFileSize : ℕ
  path : Path
  size : ℕ
  hasHash : Bool

structure ChunkEnv where
  diskWarmup : Bool
  stateWarmup : Bool
  warmupCoverage : ℤ
  responsive : Bool
  read : ReadEnv

structure Pump where
  reader : NativeReader
  raCache : ReadAheadCache
  puts : List (ℕ × Bytes)
  writeChunks : List (ℕ × Bytes)
  fetched : List (ℕ × Bytes)

namespace Pump

def start : Pump := ⟨.new, .new, [], [], []⟩

variable (params : PumpParams) (content : Path → Bytes) (s : Pump)

def put (off : ℕ) (bytes : Bytes) (responsive : Bool) : ReadAheadCache :=
  s.raCache.put params.cache params.hash params.path off (off + bytes.length - 1) bytes responsive

def writeChunk (off : ℕ) (bytes : Bytes) (env : ChunkEnv) : List (ℕ × Bytes) :=
  if env.diskWarmup && params.hasHash && decide (off ≤ params.warmupFileSize) then
    (off, bytes) :: s.writeChunks
  else s.writeChunks

def readChunk (offset chunkSize : ℕ) (env : ChunkEnv) : Pump × Bool × ℕ :=
  let stop := min (offset + chunkSize) params.size
  let (reader, bytes, err) :=
    s.reader.readAt params.maxSize (content params.path) (stop - offset) offset env.read
  let s := { s with reader := reader }
  let s := if bytes.length > 0 then
      { s with
        raCache := s.put params offset bytes env.responsive
        puts := (offset, bytes) :: s.puts
        writeChunks := s.writeChunk params offset bytes env }
    else s
  (s, err.isSome, offset + bytes.length)

def nativePumpChunk (offset chunkSize : ℕ) (playerOff : ℤ) (env : ChunkEnv) : Pump × Bool × ℕ :=
  if offset ≥ params.size then (s, true, offset)
  else if (offset : ℤ) - playerOff > params.cache.readAheadBudget then (s, false, offset)
  else
    let touched := s.raCache.touch params.cache params.hash params.path offset offset
    match s.raCache.get params.cache params.hash params.path offset offset with
    | some data =>
        ({ s with raCache := touched, writeChunks := s.writeChunk params offset data env }, false,
          offset + chunkSize)
    | none =>
      let s := { s with raCache := touched }
      if env.diskWarmup && params.hasHash && env.stateWarmup &&
          decide (env.warmupCoverage ≥ offset + chunkSize) then
        (s, false, offset + chunkSize)
      else s.readChunk params content offset chunkSize env

def fetch (len off : ℕ) (env : Option StreamEnv) (timeout : Option ℕ) (responsive : Bool) : Pump :=
  match fetchBlock params.maxSize (content params.path) len off env timeout with
  | (bytes, none) =>
    { s with
      raCache := if bytes.length > 0 then s.put params off bytes responsive else s.raCache
      fetched := (off, bytes) :: s.fetched }
  | (_, some _) => s

inductive Op where
  | chunk (offset chunkSize : ℕ) (playerOff : ℤ) (env : ChunkEnv)
  | fetch (len off : ℕ) (env : Option StreamEnv) (timeout : Option ℕ) (responsive : Bool)
  | interrupt
  | close
  | cache (op : ReadAheadCache.Op)

def step (s : Pump) : Op → Pump
  | .chunk offset chunkSize playerOff env =>
      (s.nativePumpChunk params content offset chunkSize playerOff env).1
  | .fetch len off env timeout responsive => s.fetch params content len off env timeout responsive
  | .interrupt => { s with reader := s.reader.interrupt }
  | .close => { s with reader := s.reader.close }
  | .cache op => { s with raCache := s.raCache.step params.cache params.hash op }

def LogOk (file : Bytes) (log : List (ℕ × Bytes)) : Prop := ∀ e ∈ log, e.2 <+: file.drop e.1

instance (file : Bytes) (log : List (ℕ × Bytes)) : Decidable (LogOk file log) :=
  inferInstanceAs (Decidable (∀ e ∈ log, _))

def OnlyContent (file : Bytes) (s : Pump) : Prop :=
  LogOk file s.puts ∧ LogOk file s.writeChunks ∧ LogOk file s.fetched

def StreamsAnswer (_ : Pump) : Op → Prop
  | .chunk offset _ _ env =>
      ∀ e ∈ env.read.stream, Answers params.maxSize (content params.path) e offset
  | .fetch _ off env _ _ => ∀ e ∈ env, Answers params.maxSize (content params.path) e off
  | .cache op => ReadAheadCache.TruePut content op
  | _ => True

structure Inv (s : Pump) : Prop where
  reader : s.reader.Positioned (content params.path)
  raCache : ReadAheadCache.Inv content s.raCache none
  logs : OnlyContent (content params.path) s

variable {params content s} {off : ℕ} {bytes : Bytes}

theorem LogOk.cons {file : Bytes} {log : List (ℕ × Bytes)} (h : LogOk file log)
    (hb : bytes <+: file.drop off) : LogOk file ((off, bytes) :: log) := by
  intro e he
  rcases List.mem_cons.mp he with rfl | he
  · exact hb
  · exact h e he

theorem eq_byteRange_of_isPrefixOf_drop {file : Bytes} (h : bytes <+: file.drop off) :
    bytes = byteRange file off (off + bytes.length - 1) := by
  have hlen : ((off : ℤ) + bytes.length - 1 - off + 1).toNat = bytes.length := by omega
  rw [byteRange, hlen]
  exact List.prefix_iff_eq_take.mp h

theorem Inv.put (h : Inv params content s) (hb : bytes <+: (content params.path).drop off)
    (hpos : bytes.length > 0) (responsive : Bool) :
    ReadAheadCache.Inv content (s.put params off bytes responsive) none := by
  have hle := hb.length_le
  rw [List.length_drop] at hle
  exact h.raCache.put (by omega) (by omega) (by omega) (eq_byteRange_of_isPrefixOf_drop hb)

theorem Inv.writeChunk (h : Inv params content s) (hb : bytes <+: (content params.path).drop off)
    (env : ChunkEnv) : LogOk (content params.path) (s.writeChunk params off bytes env) := by
  unfold Pump.writeChunk
  split_ifs
  · exact h.logs.2.1.cons hb
  · exact h.logs.2.1

theorem Inv.readChunk (h : Inv params content s) {offset chunkSize : ℕ} {env : ChunkEnv}
    (hanswers : ∀ e ∈ env.read.stream, Answers params.maxSize (content params.path) e offset) :
    Inv params content (s.readChunk params content offset chunkSize env).1 := by
  obtain ⟨hreader, hbytes⟩ :=
    h.reader.readAt (min (offset + chunkSize) params.size - offset) fun e he =>
      stream_prefix (hanswers e he) nofun
  unfold Pump.readChunk
  dsimp only
  split_ifs with hpos
  · exact ⟨hreader, h.put hbytes hpos env.responsive, h.logs.1.cons hbytes,
      h.writeChunk hbytes env, h.logs.2.2⟩
  · exact ⟨hreader, h.raCache, h.logs⟩

theorem Inv.touch (h : Inv params content s) (p : Path) (lo hi : ℤ) :
    Inv params content
      { s with raCache := s.raCache.touch params.cache params.hash p lo hi } :=
  ⟨h.reader, (ReadAheadCache.stable_inv none).touch h.raCache p lo hi, h.logs⟩

theorem Inv.chunk (h : Inv params content s) {offset chunkSize : ℕ} {playerOff : ℤ} {env : ChunkEnv}
    (hanswers : ∀ e ∈ env.read.stream, Answers params.maxSize (content params.path) e offset) :
    Inv params content (s.nativePumpChunk params content offset chunkSize playerOff env).1 := by
  have htouch := h.touch params.path offset offset
  unfold Pump.nativePumpChunk
  by_cases hsize : offset ≥ params.size
  · rw [if_pos hsize]
    exact h
  rw [if_neg hsize]
  by_cases hbudget : (offset : ℤ) - playerOff > params.cache.readAheadBudget
  · rw [if_pos hbudget]
    exact h
  rw [if_neg hbudget]
  dsimp only
  cases hget : s.raCache.get params.cache params.hash params.path offset offset with
  | some data =>
    obtain ⟨-, -, hrange⟩ := h.raCache.getsContent params.path offset offset data le_rfl hget
    refine ⟨h.reader, htouch.raCache, h.logs.1, h.writeChunk ?_ env, h.logs.2.2⟩
    rw [hrange]
    exact List.take_prefix _ _
  | none =>
    dsimp only
    split_ifs
    · exact htouch
    · exact htouch.readChunk hanswers

theorem Inv.fetch (h : Inv params content s) {len : ℕ} {env : Option StreamEnv}
    {timeout : Option ℕ} {responsive : Bool}
    (hanswers : ∀ e ∈ env, Answers params.maxSize (content params.path) e off) :
    Inv params content (s.fetch params content len off env timeout responsive) := by
  have hbytes := fetchBlock_prefix len timeout hanswers
  unfold Pump.fetch
  split
  · next bytes hb =>
    rw [hb] at hbytes
    refine ⟨h.reader, ?_, h.logs.1, h.logs.2.1, h.logs.2.2.cons hbytes⟩
    dsimp only
    split_ifs with hpos
    · exact h.put hbytes hpos responsive
    · exact h.raCache
  · exact h

theorem inv_step (s : Pump) (op : Op) (h : Inv params content s)
    (hok : StreamsAnswer params content s op) : Inv params content (s.step params content op) := by
  cases op with
  | chunk offset chunkSize playerOff env => exact h.chunk hok
  | fetch len off env timeout responsive => exact h.fetch hok
  | interrupt => exact ⟨h.reader.interrupt, h.raCache, h.logs⟩
  | close => exact ⟨nofun, h.raCache, h.logs⟩
  | cache op => exact ⟨h.reader, ReadAheadCache.inv_step s.raCache op h.raCache hok, h.logs⟩

theorem inv_start : Inv params content start :=
  ⟨nofun, ReadAheadCache.inv_new, by simp [OnlyContent, LogOk, start]⟩

/-- Only torrent bytes enter the caches. -/
theorem onlyContent (params : PumpParams) (content : Path → Bytes) (ops : List Op)
    (h : Meets (StreamsAnswer params content) (step params content) start ops) :
    ∀ pre, pre <+: ops →
      OnlyContent (content params.path) (run (step params content) start pre) :=
  Meets.good inv_step (fun _ hs => hs.logs) ops inv_start h

def smallFile : PumpParams where
  cache := { readAheadBase := 4, readAheadBudget := 100 }
  hash := fun _ => 0
  maxSize := 0
  warmupFileSize := 64
  path := [97]
  size := 32
  hasHash := true

def smallContent : Path → Bytes := fun _ => [1, 2, 3, 4, 5, 6, 7, 8]

def chunkFrom (env : StreamEnv) (offset chunkSize : ℕ) : Op :=
  .chunk offset chunkSize 0 ⟨true, false, 0, true, .quiet (some env)⟩

theorem onlyContent_chunk :
    let s := run (step smallFile smallContent) start [chunkFrom .good 2 4]
    s.puts = [(2, [3, 4, 5, 6])] ∧ OnlyContent (smallContent smallFile.path) s := by
  have hmeets : Meets (StreamsAnswer smallFile smallContent) (step smallFile smallContent) start
      [chunkFrom .good 2 4] := by
    refine ⟨?_, trivial⟩
    rintro e ⟨⟩
    decide
  exact ⟨by decide, onlyContent smallFile smallContent _ hmeets _ (List.prefix_refl _)⟩

theorem onlyContent_fails : ¬ ∀ (params : PumpParams) (content : Path → Bytes) (ops : List Op),
    OnlyContent (content params.path) (run (step params content) start ops) := by
  intro h
  have hputs := (h smallFile smallContent [chunkFrom { StreamEnv.good with gotInfo := false } 0 32]).1
  exact absurd hputs (by decide)

end Pump

end GoStream.Bridge
