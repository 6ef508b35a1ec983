import GoStream.Bridge.Pump

/-!
# The loop of the pump
-/

namespace GoStream.Bridge

open Foundations ReadAhead

def PumpParams.chunkSize (params : PumpParams) : ℕ :=
  if params.cache.readAheadBase = 0 then 8 * 1024 * 1024 else params.cache.readAheadBase.toNat

structure TurnEnv where
  done : Bool
  idle : ℤ
  playing : Bool
  healthy : Bool
  playerOff : ℤ
  chunk : ChunkEnv

structure PumpLoop where
  pump : Pump
  offset : ℕ
  pumpedBytes : ℤ
  running : Bool
  otherPuts : List (ℤ × ℤ)

namespace PumpLoop

variable (params : PumpParams) (content : Path → Bytes) (s : PumpLoop)

def start (startOffset : ℕ) (raCache : ReadAheadCache) : PumpLoop where
  pump := { Pump.start with raCache := raCache }
  offset := startOffset / params.chunkSize * params.chunkSize
  pumpedBytes := 0
  running := true
  otherPuts := []

def timeoutLimit (playing : Bool) : ℤ :=
  if playing then 2 * 60 * 60 * 1000000000 else 45 * 1000000000

def active (env : TurnEnv) : Bool :=
  s.running && !env.done && decide (env.idle ≤ timeoutLimit env.playing)

def jumps (env : TurnEnv) : Bool := env.playerOff > s.offset + params.cache.readAheadBudget

def jumpTo (playerOff : ℤ) : ℕ := (playerOff.tdiv params.chunkSize * params.chunkSize).toNat

def limitSleep (offset : ℕ) (playerOff : ℤ) : ℕ :=
  let budget := params.cache.readAheadBudget
  let diff := offset - playerOff
  let soft := (budget * 7).tdiv 10
  if offset ≥ params.size then 0
  else if diff > budget then 100
  else if diff > soft then (min ((diff - soft).tdiv (1024 * 1024)) 50).toNat
  else 0

def throttle (pumpedBytes : ℤ) (healthy : Bool) : ℕ :=
  if pumpedBytes > 64 * 1024 * 1024 ∧ healthy = false then 150 else 0

def turn (env : TurnEnv) : PumpLoop × ℕ :=
  if !s.active env then ({ s with running := false }, 0)
  else
    let offset := if s.jumps params env then jumpTo params env.playerOff else s.offset
    let pumpedBytes := if s.jumps params env then 0 else s.pumpedBytes
    let sleep := throttle pumpedBytes env.healthy + limitSleep params offset env.playerOff
    match s.pump.nativePumpChunk params content offset params.chunkSize env.playerOff env.chunk with
    | (pump, true, _) =>
      if offset < params.size then
        ({ s with pump := pump, offset := offset, pumpedBytes := pumpedBytes }, sleep + 200)
      else
        ({ s with pump := pump, offset := offset, pumpedBytes := pumpedBytes, running := false }, sleep)
    | (pump, false, nextOffset) =>
      ({ s with
          pump := pump
          offset := nextOffset
          pumpedBytes := pumpedBytes + (nextOffset - offset) }, sleep)

inductive Op where
  | turn (env : TurnEnv)
  | fetch (len off : ℕ) (env : Option StreamEnv) (timeout : Option ℕ) (responsive : Bool)
  | interrupt
  | close
  | cache (op : ReadAheadCache.Op)

def putRanges : ReadAheadCache.Op → List (ℤ × ℤ)
  | .put p start stop _ _ => if p = params.path then [(start, stop)] else []
  | _ => []

def step (s : PumpLoop) : Op → PumpLoop
  | .turn env => (s.turn params content env).1
  | .fetch len off env timeout responsive =>
      { s with pump := s.pump.fetch params content len off env timeout responsive }
  | .interrupt => { s with pump := { s.pump with reader := s.pump.reader.interrupt } }
  | .close => { s with pump := { s.pump with reader := s.pump.reader.close } }
  | .cache op =>
    { s with
      pump := { s.pump with raCache := s.pump.raCache.step params.cache params.hash op }
      otherPuts := putRanges params op ++ s.otherPuts }

end PumpLoop

def NativeReader.EndedAt (r : NativeReader) (off : ℕ) : Prop :=
  ∃ P, r.pipe = some P ∧ P.ending = .eof ∧ r.offset + P.pending.length = off ∧
    P.pending.length < 2 * 1024 * 1024

def Progresses (result : NativeReader × Bytes × Option ReadError) : Prop :=
  result.2.1 ≠ [] ∨ result.2.2 ≠ none

instance (result : NativeReader × Bytes × Option ReadError) : Decidable (Progresses result) :=
  inferInstanceAs (Decidable (_ ∨ _))

section Progress

variable {maxSize : ℤ} {content : Bytes} {r : NativeReader} {len off : ℕ}
  {stream : Option StreamEnv}

theorem Pipe.readFull_empty_iff (P : Pipe) (hlen : 0 < len) :
    (P.readFull len).2.1 = [] ∧ NativeReader.benign (P.readFull len).2.2 = true ↔
      P.pending = [] ∧ P.ending = .eof := by
  by_cases hfull : len ≤ P.pending.length
  · have hne : P.pending ≠ [] := by
      rintro hnil
      rw [hnil, List.length_nil] at hfull
      omega
    have htake : P.pending.take len ≠ [] := by simp [hne, hlen.ne']
    simp [Pipe.readFull, hfull, htake, hne]
  · by_cases hnil : P.pending = []
    · cases hend : P.ending <;> simp [Pipe.readFull, hnil, hend, NativeReader.benign, hlen.ne']
    · simp [Pipe.readFull, hfull, hnil]

theorem Pipe.readFull_error (P : Pipe) (hlen : 0 < len) (h : (P.readFull len).2.1 = []) :
    ∃ e, e ≠ .unexpectedEOF ∧ (P.readFull len).2.2 = some e := by
  have hnil : P.pending = [] := by
    rw [P.readFull_bytes] at h
    simpa [hlen.ne'] using h
  cases hend : P.ending <;> simp [Pipe.readFull, hnil, hend, hlen.ne']

namespace NativeReader

theorem hardSeek_progresses (r : NativeReader) (hlen : 0 < len) :
    Progresses (r.hardSeek maxSize content len off (.quiet stream)) := by
  unfold hardSeek Progresses
  cases stream with
  | none => simp [ReadEnv.quiet, Interference.none]
  | some env =>
    simp only [ReadEnv.quiet, Interference.none, Bool.false_eq_true, if_false, Pipe.cutAt]
    generalize openPipe maxSize content env off none = P
    by_cases hbytes : (P.readFull len).2.1 = []
    · -- the clean end of a new stream is an error
      obtain ⟨e, hne, he⟩ := P.readFull_error hlen hbytes
      right
      simp [he, hne]
    · exact .inl hbytes

section Sections

variable {r₁ r₂ : NativeReader} {result : Bytes × Option ReadError} (hclosed : r.closed = false)
  (hinterrupted : r.interrupted = false)

include hclosed hinterrupted

theorem readAt_of_sequential (hseq : r.sequential len off (.quiet stream) = (r₁, some result)) :
    r.readAt maxSize content len off (.quiet stream) = (r₁, result) := by
  have hstart : (ReadEnv.quiet stream).start.flag = false := rfl
  simp [readAt, hclosed, hinterrupted, hstart, hseq]

theorem readAt_of_smartSeek (hseq : r.sequential len off (.quiet stream) = (r₁, none))
    (hsmart : r₁.smartSeek len off (.quiet stream) = (r₂, some result)) :
    r.readAt maxSize content len off (.quiet stream) = (r₂, result) := by
  have hstart : (ReadEnv.quiet stream).start.flag = false := rfl
  simp [readAt, hclosed, hinterrupted, hstart, hseq, hsmart]

theorem readAt_of_hardSeek (hseq : r.sequential len off (.quiet stream) = (r₁, none))
    (hsmart : r₁.smartSeek len off (.quiet stream) = (r₂, none)) :
    r.readAt maxSize content len off (.quiet stream) =
      r₂.hardSeek maxSize content len off (.quiet stream) := by
  have hstart : (ReadEnv.quiet stream).start.flag = false := rfl
  simp [readAt, hclosed, hinterrupted, hstart, hseq, hsmart]

end Sections

theorem smartSeek_far {env : ReadEnv} (h : ¬ (off > r.offset ∧ off - r.offset < 2 * 1024 * 1024)) :
    r.smartSeek len off env = (r, none) := by
  unfold smartSeek
  split
  · rfl
  · rw [if_neg h]

def after (r : NativeReader) (P : Pipe) (len off : ℕ) : NativeReader :=
  { r with pipe := some (P.readFull len).1, offset := off + (P.readFull len).2.1.length }

theorem sequential_quiet {P : Pipe} (hpipe : r.pipe = some P) (hoff : off = r.offset) :
    r.sequential len off (.quiet stream) = (r.after P len off,
      if benign (P.readFull len).2.2 then some ((P.readFull len).2.1, none) else none) := by
  simp only [sequential, hpipe, ReadEnv.quiet, Interference.none, Pipe.cutAt, after, ← hoff]
  split_ifs <;> simp_all

theorem smartSeek_quiet {P : Pipe} (hinterrupted : r.interrupted = false) (hpipe : r.pipe = some P)
    (hnear : off > r.offset ∧ off - r.offset < 2 * 1024 * 1024)
    (hskip : off - r.offset ≤ P.pending.length) :
    let Q : Pipe := ⟨P.pending.drop (off - r.offset), P.ending⟩
    r.smartSeek len off (.quiet stream) = (r.after Q len off,
      if benign (Q.readFull len).2.2 then some ((Q.readFull len).2.1, none) else none) := by
  intro Q
  simp only [smartSeek, hpipe, if_pos hnear, ReadEnv.quiet, Interference.none, Pipe.cutAt, after]
  split_ifs <;> simp_all [Q]

theorem readAt_quiet_cases (hclosed : r.closed = false) (hinterrupted : r.interrupted = false)
    (hlen : 0 < len) :
    (¬ r.EndedAt off ∧ ∃ r' : NativeReader, r.readAt maxSize content len off (.quiet stream) =
      r'.hardSeek maxSize content len off (.quiet stream)) ∨
    ∃ (Q : Pipe) (r' : NativeReader), (r.EndedAt off ↔ Q.pending = [] ∧ Q.ending = .eof) ∧
      benign (Q.readFull len).2.2 = true ∧
      r.readAt maxSize content len off (.quiet stream) = (r', (Q.readFull len).2.1, none) := by
  cases hpipe : r.pipe with
  | none =>
    have hseq : r.sequential len off (.quiet stream) = (r, none) := by simp [sequential, hpipe]
    have hsmart : r.smartSeek len off (.quiet stream) = (r, none) := by simp [smartSeek, hpipe]
    refine .inl ⟨?_, r, readAt_of_hardSeek hclosed hinterrupted hseq hsmart⟩
    rintro ⟨P, hP, -⟩
    simp [hpipe] at hP
  | some P =>
    have hended : r.EndedAt off ↔ P.ending = .eof ∧ r.offset + P.pending.length = off ∧
        P.pending.length < 2 * 1024 * 1024 := by
      simp [EndedAt, hpipe]
    by_cases hoff : off = r.offset
    · -- the sequential match
      have hempty : r.EndedAt off ↔ P.pending = [] ∧ P.ending = .eof := by
        rw [hended, hoff, ← List.length_eq_zero_iff]
        constructor
        · rintro ⟨hend, hreached, -⟩
          exact ⟨by omega, hend⟩
        · rintro ⟨hnil, hend⟩
          exact ⟨hend, by omega, by omega⟩
      have hseq : r.sequential len off (.quiet stream) = _ := sequential_quiet hpipe hoff
      by_cases hbenign : benign (P.readFull len).2.2 = true
      · rw [if_pos hbenign] at hseq
        exact .inr ⟨P, _, hempty, hbenign, readAt_of_sequential hclosed hinterrupted hseq⟩
      · rw [if_neg hbenign] at hseq
        refine .inl ⟨?_, _, readAt_of_hardSeek hclosed hinterrupted hseq (smartSeek_far ?_)⟩
        · rw [hempty, ← P.readFull_empty_iff hlen]
          exact fun h => hbenign h.2
        · simp [after]
    · have hseq : r.sequential len off (.quiet stream) = (r, none) := by
        simp [sequential, hpipe, hoff]
      by_cases hnear : off > r.offset ∧ off - r.offset < 2 * 1024 * 1024
      · by_cases hskip : off - r.offset ≤ P.pending.length
        · -- the smart seek reaches the offset
          have hsmart : r.smartSeek len off (.quiet stream) = _ :=
            smartSeek_quiet hinterrupted hpipe hnear hskip
          set Q : Pipe := ⟨P.pending.drop (off - r.offset), P.ending⟩ with hQ
          have hempty : r.EndedAt off ↔ Q.pending = [] ∧ Q.ending = .eof := by
            rw [hended, hQ, List.drop_eq_nil_iff]
            constructor
            · rintro ⟨hend, hreached, -⟩
              exact ⟨by omega, hend⟩
            · rintro ⟨hnil, hend⟩
              exact ⟨hend, by omega, by omega⟩
          by_cases hbenign : benign (Q.readFull len).2.2 = true
          · rw [if_pos hbenign] at hsmart
            exact .inr ⟨Q, _, hempty, hbenign,
              readAt_of_smartSeek hclosed hinterrupted hseq hsmart⟩
          · rw [if_neg hbenign] at hsmart
            refine .inl ⟨?_, _, readAt_of_hardSeek hclosed hinterrupted hseq hsmart⟩
            rw [hempty, ← Q.readFull_empty_iff hlen]
            exact fun h => hbenign h.2
        · refine .inl ⟨?_, { r with pipe := some { P with pending := [] } },
            readAt_of_hardSeek hclosed hinterrupted hseq ?_⟩
          · rw [hended]
            rintro ⟨-, hreached, -⟩
            omega
          · simp [smartSeek, hpipe, hnear, hskip, ReadEnv.quiet, Interference.none, Pipe.cutAt]
      · refine .inl ⟨?_, r, readAt_of_hardSeek hclosed hinterrupted hseq (smartSeek_far hnear)⟩
        rw [hended]
        rintro ⟨-, hreached, hshort⟩
        omega

theorem readAt_progresses_iff (hclosed : r.closed = false) (hinterrupted : r.interrupted = false)
    (hlen : 0 < len) :
    Progresses (r.readAt maxSize content len off (.quiet stream)) ↔ ¬ r.EndedAt off := by
  rcases readAt_quiet_cases hclosed hinterrupted hlen with ⟨hnot, r', hseek⟩ | ⟨Q, r', hended, hbenign, hread⟩
  · rw [hseek]
    exact iff_of_true (hardSeek_progresses r' hlen) hnot
  · rw [hread, hended, ← Q.readFull_empty_iff hlen]
    simp [Progresses, hbenign]

end NativeReader

end Progress

namespace PumpLoop

section Turns

variable {params : PumpParams} {content : Path → Bytes} {s : PumpLoop} {env : TurnEnv}
  {stream : Option StreamEnv}

theorem turn_of_not_active (h : s.active env = false) :
    s.turn params content env = ({ s with running := false }, 0) := by
  simp [turn, h]

theorem chunk_progress (hread : env.chunk.read = .quiet stream) (hclosed : s.pump.reader.closed = false)
    (hinterrupted : s.pump.reader.interrupted = false) (hchunk : 0 < params.chunkSize)
    (hended : ¬ s.pump.reader.EndedAt s.offset) :
    let r := s.pump.nativePumpChunk params content s.offset params.chunkSize env.playerOff env.chunk
    r.2.1 = true ∨ s.offset < r.2.2 ∨ s.offset < params.size ∧
      (s.offset : ℤ) - env.playerOff > params.cache.readAheadBudget := by
  intro r
  by_cases hsize : s.offset ≥ params.size
  · left
    simp only [r, Pump.nativePumpChunk, if_pos hsize]
  by_cases hbudget : (s.offset : ℤ) - env.playerOff > params.cache.readAheadBudget
  · exact .inr (.inr ⟨not_le.mp hsize, hbudget⟩)
  simp only [r, Pump.nativePumpChunk, if_neg hsize, if_neg hbudget]
  cases s.pump.raCache.get params.cache params.hash params.path s.offset s.offset with
  | some data => exact .inr (.inl (by dsimp only; omega))
  | none =>
    dsimp only
    split_ifs
    · exact .inr (.inl (by dsimp only; omega))
    · have hlen : 0 < min (s.offset + params.chunkSize) params.size - s.offset := by omega
      have hprogress : Progresses (s.pump.reader.readAt params.maxSize (content params.path)
          (min (s.offset + params.chunkSize) params.size - s.offset) s.offset (.quiet stream)) :=
        (NativeReader.readAt_progresses_iff hclosed hinterrupted hlen).mpr hended
      rw [← hread] at hprogress
      unfold Pump.readChunk
      rcases hprogress with hbytes | herr
      · exact .inr (.inl (Nat.lt_add_of_pos_right (List.length_pos_iff.mpr hbytes)))
      · exact .inl (Option.isSome_iff_ne_none.mpr herr)

theorem turn_progress (hread : env.chunk.read = .quiet stream) (hclosed : s.pump.reader.closed = false)
    (hinterrupted : s.pump.reader.interrupted = false) (hchunk : 0 < params.chunkSize)
    (hjump : s.jumps params env = false) (hended : ¬ s.pump.reader.EndedAt s.offset) :
    let s' := (s.turn params content env).1
    s'.running = false ∨ s.offset < s'.offset ∨ 0 < (s.turn params content env).2 := by
  intro s'
  by_cases hactive : s.active env = true
  · have hprogress := @chunk_progress params content s env stream hread hclosed hinterrupted hchunk hended
    simp only [s', turn, hactive, hjump, Bool.not_true, Bool.false_eq_true, if_false]
    split
    · split_ifs
      · exact .inr (.inr (by dsimp only; omega))
      · exact .inl rfl
    · next pump next hr =>
      simp only [hr, Bool.false_eq_true, false_or] at hprogress
      rcases hprogress with hnext | ⟨hsize, hbudget⟩
      · exact .inr (.inl hnext)
      · right; right
        simp only [limitSleep, ge_iff_le, not_le.mpr hsize, if_false, hbudget, if_true]
        omega
  · rw [Bool.not_eq_true] at hactive
    exact .inl (by simp only [s', turn_of_not_active hactive])

theorem touch_of_get_none {cfg : Config} {hash : Path → ℕ} {c : ReadAheadCache} {p : Path} {off : ℤ}
    (h : c.get cfg hash p off off = none) : c.touch cfg hash p off off = c := by
  unfold ReadAheadCache.touch
  dsimp only
  split
  · rfl
  · next b hb =>
    rw [if_neg]
    intro hin
    simp [ReadAheadCache.get, ReadAheadCache.find, hb, hin.1, hin.2] at h

theorem readAt_at_end {maxSize : ℤ} {file : Bytes} {r : NativeReader} {len : ℕ}
    (hclosed : r.closed = false) (hinterrupted : r.interrupted = false)
    (hpipe : r.pipe = some ⟨[], .eof⟩) (hlen : 0 < len) :
    r.readAt maxSize file len r.offset (.quiet stream) = (r, [], none) := by
  have hfull : (⟨[], .eof⟩ : Pipe).readFull len = (⟨[], .eof⟩, [], some .eof) := by
    simp [Pipe.readFull, hlen.ne']
  have hafter : r.after ⟨[], .eof⟩ len r.offset = r := by
    simp [NativeReader.after, hfull, ← hpipe]
  have hseq : r.sequential len r.offset (.quiet stream) = (r, some ([], none)) := by
    rw [NativeReader.sequential_quiet hpipe rfl, hafter, hfull]
    rfl
  exact NativeReader.readAt_of_sequential hclosed hinterrupted hseq

theorem turn_in_place (hactive : s.active env = true) (hjump : s.jumps params env = false)
    (hread : env.chunk.read = .quiet stream) (hclosed : s.pump.reader.closed = false)
    (hinterrupted : s.pump.reader.interrupted = false)
    (hpipe : s.pump.reader.pipe = some ⟨[], .eof⟩) (hoff : s.pump.reader.offset = s.offset)
    (hchunk : 0 < params.chunkSize) (hsize : s.offset < params.size)
    (hbudget : (s.offset : ℤ) - env.playerOff ≤ params.cache.readAheadBudget)
    (hmiss : s.pump.raCache.get params.cache params.hash params.path s.offset s.offset = none)
    (hwarm : env.chunk.stateWarmup = false) :
    s.turn params content env =
      (s, throttle s.pumpedBytes env.healthy + limitSleep params s.offset env.playerOff) := by
  have hlen : 0 < min (s.offset + params.chunkSize) params.size - s.offset := by omega
  have hempty : s.pump.reader.readAt params.maxSize (content params.path)
      (min (s.offset + params.chunkSize) params.size - s.offset) s.offset env.chunk.read =
        (s.pump.reader, [], none) := by
    rw [hread, ← hoff]
    exact readAt_at_end hclosed hinterrupted hpipe (hoff ▸ hlen)
  have hstay : s.pump.nativePumpChunk params content s.offset params.chunkSize env.playerOff
      env.chunk = (s.pump, false, s.offset) := by
    simp [Pump.nativePumpChunk, hsize, not_lt.mpr hbudget, hmiss, hwarm, touch_of_get_none hmiss,
      Pump.readChunk, hempty]
  simp [turn, hactive, hjump, hstay]

/-- When `ReadAt` brings bytes or an error. -/
theorem progress_iff (params : PumpParams) (content : Path → Bytes) :
    (∀ (r : NativeReader) (len off : ℕ) (stream : Option StreamEnv), r.closed = false →
      r.interrupted = false → 0 < len →
      (Progresses (r.readAt params.maxSize (content params.path) len off (.quiet stream)) ↔
        ¬ r.EndedAt off)) ∧
    ∀ (s : PumpLoop) (env : TurnEnv) (stream : Option StreamEnv),
      env.chunk.read = .quiet stream → s.pump.reader.closed = false →
      s.pump.reader.interrupted = false → 0 < params.chunkSize → s.jumps params env = false →
      ¬ s.pump.reader.EndedAt s.offset →
      (s.turn params content env).1.running = false ∨
        s.offset < (s.turn params content env).1.offset ∨ 0 < (s.turn params content env).2 :=
  ⟨fun _ _ _ _ hclosed hinterrupted hlen =>
      NativeReader.readAt_progresses_iff hclosed hinterrupted hlen,
    fun _ _ _ hread hclosed hinterrupted hchunk hjump hended =>
      turn_progress hread hclosed hinterrupted hchunk hjump hended⟩

def smallLoop : PumpParams where
  cache := { readAheadBase := 4, readAheadBudget := 100 }
  hash := fun _ => 0
  maxSize := 0
  warmupFileSize := 0
  path := [97]
  size := 8
  hasHash := false

def plainTurn (env : StreamEnv) : TurnEnv where
  done := false
  idle := 0
  playing := false
  healthy := true
  playerOff := 0
  chunk := ⟨false, false, 0, true, .quiet (some env)⟩

theorem progress_iff_start :
    (Progresses (NativeReader.new.readAt 0 (Pump.smallContent [97]) 4 0 (.quiet (some .good))) ↔
      ¬ NativeReader.new.EndedAt 0) ∧
    let s := start smallLoop 0 .new
    let t := s.turn smallLoop Pump.smallContent (plainTurn .good)
    t.1.running = false ∨ s.offset < t.1.offset ∨ 0 < t.2 := by
  obtain ⟨hreader, hpump⟩ := progress_iff smallLoop Pump.smallContent
  refine ⟨hreader .new 4 0 (some .good) rfl rfl (by decide), ?_⟩
  refine hpump (start smallLoop 0 .new) (plainTurn .good) (some .good) rfl rfl rfl (by decide)
    (by decide) ?_
  rintro ⟨P, hP, -⟩
  cases hP

theorem pump_spins :
    let s := run (step smallLoop Pump.smallContent) (start smallLoop 0 .new)
      [.turn (plainTurn { StreamEnv.good with cut := some 2 })]
    s.pump.reader.closed = false ∧ s.pump.reader.interrupted = false ∧ s.offset = 2 ∧
      ¬ Progresses (s.pump.reader.readAt 0 (Pump.smallContent [97]) 4 2 (.quiet (some .good))) ∧
      ∀ n, s.turn smallLoop Pump.smallContent (plainTurn .good) = (s, 0) ∧
        run (step smallLoop Pump.smallContent) s (.replicate n (.turn (plainTurn .good))) = s := by
  intro s
  have hturn : s.turn smallLoop Pump.smallContent (plainTurn .good) = (s, 0) :=
    @turn_in_place smallLoop Pump.smallContent s (plainTurn .good) (some .good) (by decide +kernel) (by decide +kernel) rfl
      (by decide +kernel) (by decide +kernel) (by decide +kernel) (by decide +kernel) (by decide)
      (by decide +kernel) (by decide +kernel) (by decide +kernel) rfl
  refine ⟨by decide +kernel, by decide +kernel, by decide +kernel, by decide +kernel,
    fun n => ⟨hturn, ?_⟩⟩
  induction n with
  | zero => rfl
  | succ n ih =>
    rw [List.replicate_succ, run_cons, step, hturn]
    exact ih

end Turns

variable (params : PumpParams) (content : Path → Bytes) (s : PumpLoop)

def Held (x : ℕ) : Prop :=
  (s.pump.raCache.get params.cache params.hash params.path x x).isSome = true

instance (x : ℕ) : Decidable (s.Held params x) := inferInstanceAs (Decidable (_ = true))

def Stored (x : ℕ) : Prop :=
  (∃ e ∈ s.pump.puts ++ s.pump.fetched, e.1 ≤ x ∧ x < e.1 + e.2.length) ∨
    ∃ e ∈ s.otherPuts, e.1 ≤ (x : ℤ) ∧ (x : ℤ) ≤ e.2

instance (x : ℕ) : Decidable (s.Stored x) := inferInstanceAs (Decidable (_ ∨ _))

def Covered (env : TurnEnv) (x : ℕ) : Prop :=
  ¬ s.Held params s.offset ∧ env.chunk.diskWarmup = true ∧ params.hasHash = true ∧
    env.chunk.stateWarmup = true ∧ (x : ℤ) < env.chunk.warmupCoverage

instance (env : TurnEnv) (x : ℕ) : Decidable (s.Covered params env x) :=
  inferInstanceAs (Decidable (_ ∧ _))

def NoHole (env : TurnEnv) : Prop :=
  s.jumps params env = false →
    ∀ x, s.offset ≤ x → x < min (s.turn params content env).1.offset params.size →
      (s.turn params content env).1.Stored x ∨ s.Held params x ∨ s.Covered params env x

def skips (env : TurnEnv) : Bool :=
  s.active env && !s.jumps params env && decide (s.offset < params.size) &&
    decide ((s.offset : ℤ) - env.playerOff ≤ params.cache.readAheadBudget) &&
    decide (s.Held params s.offset)

def SkipsWhole (s : PumpLoop) : Op → Prop
  | .turn env => s.skips params env = true →
      ∀ x, s.offset ≤ x → x < min (s.offset + params.chunkSize) params.size →
        s.Stored x ∨ s.Held params x
  | _ => True

variable {params content s} {env : TurnEnv}

theorem chunk_of_not_held {pump : Pump} {offset chunkSize : ℕ} {playerOff : ℤ} {chunk : ChunkEnv}
    (h : offset < params.size → (offset : ℤ) - playerOff ≤ params.cache.readAheadBudget →
      pump.raCache.get params.cache params.hash params.path offset offset = none) {x : ℕ}
    (hlo : offset ≤ x)
    (hhi : x < (pump.nativePumpChunk params content offset chunkSize playerOff chunk).2.2) :
    (∃ e ∈ (pump.nativePumpChunk params content offset chunkSize playerOff chunk).1.puts,
      e.1 ≤ x ∧ x < e.1 + e.2.length) ∨
      pump.raCache.get params.cache params.hash params.path offset offset = none ∧
        chunk.diskWarmup = true ∧ params.hasHash = true ∧ chunk.stateWarmup = true ∧
        (x : ℤ) < chunk.warmupCoverage := by
  unfold Pump.nativePumpChunk at hhi ⊢
  by_cases hsize : offset ≥ params.size
  · rw [if_pos hsize] at hhi
    exact absurd hhi (not_lt.mpr hlo)
  by_cases hbudget : (offset : ℤ) - playerOff > params.cache.readAheadBudget
  · rw [if_neg hsize, if_pos hbudget] at hhi
    exact absurd hhi (not_lt.mpr hlo)
  have hnone := h (not_le.mp hsize) (not_lt.mp hbudget)
  simp only [if_neg hsize, if_neg hbudget, hnone] at hhi ⊢
  split_ifs at hhi ⊢ with hcover
  · right
    simp only [Bool.and_eq_true, decide_eq_true_eq] at hcover
    obtain ⟨⟨⟨hdisk, hhash⟩, hstate⟩, hcoverage⟩ := hcover
    refine ⟨trivial, hdisk, hhash, hstate, ?_⟩
    have hx : (x : ℤ) < offset + chunkSize := by exact_mod_cast hhi
    omega
  · left
    unfold Pump.readChunk at hhi ⊢
    dsimp only at hhi ⊢
    split_ifs with hpos
    · exact ⟨_, List.mem_cons_self, hlo, hhi⟩
    · omega

theorem chunk_of_held {pump : Pump} {offset chunkSize : ℕ} {playerOff : ℤ} {chunk : ChunkEnv}
    (hsize : offset < params.size)
    (hbudget : (offset : ℤ) - playerOff ≤ params.cache.readAheadBudget)
    (hget : (pump.raCache.get params.cache params.hash params.path offset offset).isSome = true) :
    let r := pump.nativePumpChunk params content offset chunkSize playerOff chunk
    r.1.puts = pump.puts ∧ r.1.fetched = pump.fetched ∧ r.2 = (false, offset + chunkSize) := by
  obtain ⟨data, hdata⟩ := Option.isSome_iff_exists.mp hget
  unfold Pump.nativePumpChunk
  simp only [ge_iff_le, if_neg (not_le.mpr hsize), gt_iff_lt, if_neg (not_lt.mpr hbudget), hdata,
    and_self]

theorem turn_of_active (h : s.active env = true) (hjump : s.jumps params env = false) :
    let r := s.pump.nativePumpChunk params content s.offset params.chunkSize env.playerOff env.chunk
    let s' := (s.turn params content env).1
    s'.pump = r.1 ∧ s'.otherPuts = s.otherPuts ∧ s'.offset = if r.2.1 then s.offset else r.2.2 := by
  dsimp only
  unfold turn
  simp only [h, hjump, Bool.not_true, Bool.false_eq_true, if_false]
  split
  · next pump next hr =>
    by_cases hsize : s.offset < params.size <;> simp [hr, hsize]
  · next pump next hr => simp [hr]

theorem noHole_iff (params : PumpParams) (content : Path → Bytes) (s : PumpLoop) (env : TurnEnv) :
    s.NoHole params content env ↔ s.SkipsWhole params (.turn env) := by
  unfold NoHole SkipsWhole
  by_cases hactive : s.active env = true
  · by_cases hjump : s.jumps params env = true
    · simp [hjump, skips]
    rw [Bool.not_eq_true] at hjump
    have hturn := @turn_of_active params content s env hactive hjump
    obtain ⟨hpump, hother, hoffset⟩ := hturn
    by_cases hskip : s.skips params env = true
    · obtain ⟨⟨hsize, hbudget⟩, hheld⟩ : (s.offset < params.size ∧
          (s.offset : ℤ) - env.playerOff ≤ params.cache.readAheadBudget) ∧ s.Held params s.offset := by
        simpa [skips, hactive, hjump] using hskip
      obtain ⟨hputs, hfetched, hres⟩ := @chunk_of_held params content s.pump s.offset
        params.chunkSize env.playerOff env.chunk hsize hbudget hheld
      have hstored : ∀ x, (s.turn params content env).1.Stored x ↔ s.Stored x := by
        intro x
        rw [Stored, Stored, hother, hpump, hputs, hfetched]
      have hnext : (s.turn params content env).1.offset = s.offset + params.chunkSize := by
        rw [hoffset, hres]
        rfl
      simp only [hjump, hskip, hstored, hnext, forall_const]
      refine forall₃_congr fun x _ _ => ?_
      have hcovered : ¬ s.Covered params env x := fun h => h.1 hheld
      simp only [hcovered, or_false]
    · refine iff_of_true (fun _ x hlo hhi => ?_) fun h => absurd h hskip
      have hnone : s.offset < params.size →
          (s.offset : ℤ) - env.playerOff ≤ params.cache.readAheadBudget →
          s.pump.raCache.get params.cache params.hash params.path s.offset s.offset = none := by
        intro hsize hbudget
        by_contra hget
        apply hskip
        have hheld : s.Held params s.offset := Option.ne_none_iff_isSome.mp hget
        simp [skips, hactive, hjump, hsize, hbudget, hheld]
      rw [hoffset] at hhi
      have hx := (lt_min_iff.mp hhi).1
      split_ifs at hx with hstop
      · exact absurd hx (not_lt.mpr hlo)
      · rcases chunk_of_not_held hnone hlo hx with ⟨e, he, hrange⟩ | ⟨hget, hcover⟩
        · refine .inl (.inl ⟨e, List.mem_append_left _ ?_, hrange⟩)
          rwa [hpump]
        · exact .inr (.inr ⟨by simp [Held, hget], hcover⟩)
  · rw [Bool.not_eq_true] at hactive
    have hturn : s.turn params content env = ({ s with running := false }, 0) :=
      turn_of_not_active hactive
    refine iff_of_true (fun _ x hlo hhi => ?_) fun h => ?_
    · rw [hturn] at hhi
      exact absurd (lt_min_iff.mp hhi).1 (not_lt.mpr hlo)
    · simp [skips, hactive] at h

/-- When the pump leaves no holes. -/
theorem no_holes_iff (params : PumpParams) (content : Path → Bytes) (startOffset : ℕ)
    (raCache : ReadAheadCache) (ops : List Op) :
    (∀ pre env, pre ++ [.turn env] <+: ops →
      (run (step params content) (start params startOffset raCache) pre).NoHole params content env) ↔
      Meets (SkipsWhole params) (step params content) (start params startOffset raCache) ops := by
  rw [meets_iff_forall_step]
  constructor
  · intro h pre op hpre
    cases op with
    | turn env => exact (noHole_iff params content _ env).mp (h pre env hpre)
    | _ => trivial
  · exact fun h pre env hpre => (noHole_iff params content _ env).mpr (h pre (.turn env) hpre)

theorem hole_after_failed_read : ¬ ∀ (params : PumpParams) (content : Path → Bytes)
    (startOffset : ℕ) (raCache : ReadAheadCache) (ops : List Op) (pre : List Op) (env : TurnEnv),
    pre ++ [.turn env] <+: ops →
      (run (step params content) (start params startOffset raCache) pre).NoHole params content env := by
  intro h
  have hhole := h smallLoop Pump.smallContent 0 .new
    [.turn (plainTurn { StreamEnv.good with cut := some 2, panics := true }), .turn (plainTurn .good)]
    [.turn (plainTurn { StreamEnv.good with cut := some 2, panics := true })] (plainTurn .good)
    (List.prefix_refl _) (by decide +kernel) 2 (by decide +kernel) (by decide +kernel)
  exact absurd hhole (by decide +kernel)

end PumpLoop

end GoStream.Bridge
