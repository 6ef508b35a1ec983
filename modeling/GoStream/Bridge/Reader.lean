import GoStream.Bridge.Stream
import GoStream.Foundations.Run

/-!
# The streaming reader
-/

namespace GoStream.Bridge

open Foundations

inductive PipeEnd where
  | eof
  | failed
  | closed
  deriving DecidableEq, Repr

structure Pipe where
  pending : Bytes
  ending : PipeEnd
  deriving DecidableEq, Repr

inductive ReadError where
  | eof
  | unexpectedEOF
  | stream
  | closedPipe
  | interrupted
  | torrentNotFound
  deriving DecidableEq, Repr

def Pipe.cutAt (P : Pipe) : Option (ℕ × PipeEnd) → Pipe
  | none => P
  | some (n, ending) => ⟨P.pending.take n, ending⟩

def Pipe.readFull (P : Pipe) (k : ℕ) : Pipe × Bytes × Option ReadError :=
  if k ≤ P.pending.length then ({ P with pending := P.pending.drop k }, P.pending.take k, none)
  else
    ({ P with pending := [] }, P.pending,
      some (match P.ending with
        | .eof => if P.pending = [] then .eof else .unexpectedEOF
        | .failed => .stream
        | .closed => .closedPipe))

def openPipe (maxSize : ℤ) (content : Bytes) (env : StreamEnv) (off : ℕ) (last : Option ℤ) : Pipe :=
  let sent := stream maxSize content env off last
  ⟨sent.bytes, if sent.failed then .failed else .eof⟩

structure Interference where
  cut : Option (ℕ × PipeEnd)
  flag : Bool
  deriving DecidableEq, Repr

def Interference.none : Interference := ⟨.none, false⟩

structure ReadEnv where
  start : Interference
  sequential : Interference
  skip : Interference
  smart : Interference
  hard : Interference
  stream : Option StreamEnv
  deriving DecidableEq, Repr

def ReadEnv.quiet (stream : Option StreamEnv) : ReadEnv :=
  ⟨.none, .none, .none, .none, .none, stream⟩

structure NativeReader where
  offset : ℕ
  pipe : Option Pipe
  closed : Bool
  interrupted : Bool
  deriving DecidableEq, Repr

namespace NativeReader

def new : NativeReader := ⟨0, none, false, false⟩

variable (maxSize : ℤ) (content : Bytes) (r : NativeReader)

def closeStream : NativeReader := { r with pipe := none }

def interrupt : NativeReader :=
  { r with interrupted := true, pipe := r.pipe.map fun P => P.cutAt (some (0, .closed)) }

def close : NativeReader := { r.closeStream with closed := true }

def benign : Option ReadError → Bool
  | none | some .eof | some .unexpectedEOF => true
  | _ => false

abbrev Outcome := Option (Bytes × Option ReadError)

def sequential (len off : ℕ) (env : ReadEnv) : NativeReader × Outcome :=
  match r.pipe with
  | none => (r, none)
  | some P =>
    if off = r.offset then
      let (P', bytes, err) := (P.cutAt env.sequential.cut).readFull len
      let r' := { r with pipe := some P', offset := r.offset + bytes.length }
      if env.sequential.flag then (r'.closeStream, some ([], some .interrupted))
      else if benign err then (r', some (bytes, none))
      else (r', none)
    else (r, none)

def smartSeek (len off : ℕ) (env : ReadEnv) : NativeReader × Outcome :=
  match r.pipe with
  | none => (r, none)
  | some P =>
    if off > r.offset ∧ off - r.offset < 2 * 1024 * 1024 then
      let skip := off - r.offset
      let P := P.cutAt env.skip.cut
      let failed (r' : NativeReader) : NativeReader × Outcome :=
        if env.smart.flag then (r'.closeStream, some ([], some .interrupted)) else (r', none)
      if skip ≤ P.pending.length then
        let P := { P with pending := P.pending.drop skip }.cutAt env.smart.cut
        let (P', bytes, err) := P.readFull len
        let r' := { r with pipe := some P', offset := off + bytes.length }
        if benign err then ({ r' with interrupted := env.smart.flag }, some (bytes, none))
        else failed r'
      else failed { r with pipe := some { P with pending := [] } }
    else (r, none)

def hardSeek (len off : ℕ) (env : ReadEnv) : NativeReader × Bytes × Option ReadError :=
  if env.hard.flag then (r.closeStream, [], some .interrupted)
  else
    match env.stream with
    | none => (r.closeStream, [], some .torrentNotFound)
    | some streamEnv =>
      let P := (openPipe maxSize content streamEnv off none).cutAt env.hard.cut
      let (P', bytes, err) := P.readFull len
      ({ r with pipe := some P', offset := off + bytes.length }, bytes,
        if err = some .unexpectedEOF then none else err)

def readAt (len off : ℕ) (env : ReadEnv) : NativeReader × Bytes × Option ReadError :=
  if r.closed then (r, [], some .closedPipe)
  else if r.interrupted || env.start.flag then
    ({ r.closeStream with interrupted := false }, [], some .interrupted)
  else
    match r.sequential len off env with
    | (r, some result) => (r, result)
    | (r, none) =>
      match r.smartSeek len off env with
      | (r, some result) => (r, result)
      | (r, none) => r.hardSeek maxSize content len off env

end NativeReader

def fetchBlock (maxSize : ℤ) (content : Bytes) (len off : ℕ) (env : Option StreamEnv)
    (timeout : Option ℕ) : Bytes × Option ReadError :=
  match env with
  | none => ([], some .torrentNotFound)
  | some env =>
    let P := openPipe maxSize content env off (some (off + len - 1))
    let (_, bytes, err) := (P.cutAt (timeout.map fun n => (n, .closed))).readFull len
    if err = some .unexpectedEOF then (bytes, none) else (bytes, err)

section Positions

variable {maxSize : ℤ} {content : Bytes} {off : ℕ}

theorem Pipe.cutAt_prefix (P : Pipe) (cut : Option (ℕ × PipeEnd)) :
    (P.cutAt cut).pending <+: P.pending := by
  cases cut with
  | none => exact List.prefix_refl _
  | some c => exact List.take_prefix _ _

theorem Pipe.readFull_bytes (P : Pipe) (k : ℕ) : (P.readFull k).2.1 = P.pending.take k := by
  by_cases h : k ≤ P.pending.length
  · simp [Pipe.readFull, h]
  · simp [Pipe.readFull, h, List.take_of_length_le (not_le.mp h).le]

theorem Pipe.readFull_pending (P : Pipe) (k : ℕ) :
    (P.readFull k).1.pending = P.pending.drop (P.readFull k).2.1.length := by
  by_cases h : k ≤ P.pending.length
  · simp [Pipe.readFull, h]
  · simp [Pipe.readFull, h]

theorem Pipe.readFull_spec {P : Pipe} (h : P.pending <+: content.drop off) (k : ℕ) :
    (P.readFull k).2.1 <+: content.drop off ∧
      (P.readFull k).1.pending <+: content.drop (off + (P.readFull k).2.1.length) := by
  constructor
  · rw [P.readFull_bytes]
    exact (List.take_prefix k _).trans h
  · rw [P.readFull_pending, ← List.drop_drop]
    exact h.drop _

theorem openPipe_prefix {env : StreamEnv} (h : Answers maxSize content env off) (last : Option ℤ)
    (hlast : ∀ l ∈ last, (off : ℤ) ≤ l) :
    (openPipe maxSize content env off last).pending <+: content.drop off :=
  stream_prefix h hlast

namespace NativeReader

variable {r : NativeReader}

variable (content) in
def Positioned (r : NativeReader) : Prop :=
  ∀ P, r.pipe = some P → P.pending <+: content.drop r.offset

def Delivers (content : Bytes) (off : ℕ) (x : NativeReader × Outcome) : Prop :=
  Positioned content x.1 ∧ ∀ bytes err, x.2 = some (bytes, err) → bytes <+: content.drop off

theorem positioned_closeStream (r : NativeReader) : Positioned content r.closeStream := nofun

theorem delivers_none (h : Positioned content r) : Delivers content off (r, none) := ⟨h, nofun⟩

theorem delivers_interrupted (r : NativeReader) :
    Delivers content off (r.closeStream, some ([], some .interrupted)) := by
  refine ⟨positioned_closeStream r, ?_⟩
  rintro bytes err ⟨⟩
  exact List.nil_prefix

theorem delivers_some (h : Positioned content r) {bytes : Bytes} (hb : bytes <+: content.drop off)
    (err : Option ReadError) : Delivers content off (r, some (bytes, err)) := by
  refine ⟨h, ?_⟩
  rintro bytes err ⟨⟩
  exact hb

theorem positioned_mk {n : ℕ} {P : Pipe} {closed interrupted : Bool}
    (h : P.pending <+: content.drop n) :
    Positioned content ⟨n, some P, closed, interrupted⟩ := by
  rintro _ ⟨⟩
  exact h

theorem Positioned.interrupt (h : Positioned content r) : Positioned content r.interrupt := by
  intro P hP
  obtain ⟨Q, hQ, rfl⟩ := Option.map_eq_some_iff.mp hP
  exact (Q.cutAt_prefix _).trans (h Q hQ)

theorem Positioned.sequential (h : Positioned content r) (len off : ℕ) (env : ReadEnv) :
    Delivers content off (r.sequential len off env) := by
  unfold NativeReader.sequential
  split
  · exact delivers_none h
  next P hP =>
  by_cases hoff : off = r.offset
  · obtain ⟨hbytes, hpending⟩ :=
      Pipe.readFull_spec ((P.cutAt_prefix env.sequential.cut).trans (h P hP)) len
    rw [if_pos hoff]
    dsimp only
    split_ifs
    · exact delivers_interrupted _
    · exact delivers_some (positioned_mk hpending) (hoff ▸ hbytes) none
    · exact delivers_none (positioned_mk hpending)
  · rw [if_neg hoff]
    exact delivers_none h

theorem Positioned.smartSeek (h : Positioned content r) (len off : ℕ) (env : ReadEnv) :
    Delivers content off (r.smartSeek len off env) := by
  unfold NativeReader.smartSeek
  split
  · exact delivers_none h
  next P hP =>
  have hcut := (P.cutAt_prefix env.skip.cut).trans (h P hP)
  by_cases hnear : off > r.offset ∧ off - r.offset < 2 * 1024 * 1024
  · rw [if_pos hnear]
    dsimp only
    by_cases hskip : off - r.offset ≤ (P.cutAt env.skip.cut).pending.length
    · rw [if_pos hskip]
      set P₁ : Pipe :=
        ⟨(P.cutAt env.skip.cut).pending.drop (off - r.offset), (P.cutAt env.skip.cut).ending⟩
      have hat : P₁.pending <+: content.drop off := by
        have hdrop := hcut.drop (off - r.offset)
        rwa [List.drop_drop, Nat.add_sub_cancel' hnear.1.le] at hdrop
      obtain ⟨hbytes, hpending⟩ :=
        Pipe.readFull_spec ((P₁.cutAt_prefix env.smart.cut).trans hat) len
      split_ifs
      · exact delivers_some (positioned_mk hpending) hbytes none
      · exact delivers_interrupted _
      · exact delivers_none (positioned_mk hpending)
    · rw [if_neg hskip]
      split_ifs
      · exact delivers_interrupted _
      · exact delivers_none (positioned_mk List.nil_prefix)
  · rw [if_neg hnear]
    exact delivers_none h

theorem hardSeek_spec (r : NativeReader) (len : ℕ) {env : ReadEnv}
    (hstream : ∀ e ∈ env.stream, (stream maxSize content e off none).bytes <+: content.drop off) :
    Positioned content (r.hardSeek maxSize content len off env).1 ∧
      (r.hardSeek maxSize content len off env).2.1 <+: content.drop off := by
  unfold NativeReader.hardSeek
  split_ifs
  · exact ⟨positioned_closeStream r, List.nil_prefix⟩
  split
  · exact ⟨positioned_closeStream r, List.nil_prefix⟩
  next e he =>
  have hpipe : (openPipe maxSize content e off none).pending <+: content.drop off := hstream e he
  obtain ⟨hbytes, hpending⟩ :=
    Pipe.readFull_spec ((Pipe.cutAt_prefix _ env.hard.cut).trans hpipe) len
  exact ⟨positioned_mk hpending, hbytes⟩

theorem Positioned.readAt (h : Positioned content r) (len : ℕ) {env : ReadEnv}
    (hstream : ∀ e ∈ env.stream, (stream maxSize content e off none).bytes <+: content.drop off) :
    Positioned content (r.readAt maxSize content len off env).1 ∧
      (r.readAt maxSize content len off env).2.1 <+: content.drop off := by
  unfold NativeReader.readAt
  split_ifs
  · exact ⟨h, List.nil_prefix⟩
  · exact ⟨nofun, List.nil_prefix⟩
  have hseq := h.sequential len off env
  split
  · next r₁ bytes err hr₁ =>
    rw [hr₁] at hseq
    exact ⟨hseq.1, hseq.2 _ _ rfl⟩
  next r₁ hr₁ =>
  rw [hr₁] at hseq
  have hsmart := hseq.1.smartSeek len off env
  split
  · next r₂ bytes err hr₂ =>
    rw [hr₂] at hsmart
    exact ⟨hsmart.1, hsmart.2 _ _ rfl⟩
  next r₂ hr₂ => exact hardSeek_spec r₂ len hstream

end NativeReader

theorem fetchBlock_prefix {env : Option StreamEnv} (len : ℕ) (timeout : Option ℕ)
    (hanswers : ∀ e ∈ env, Answers maxSize content e off) :
    (fetchBlock maxSize content len off env timeout).1 <+: content.drop off := by
  unfold fetchBlock
  split
  · exact List.nil_prefix
  next env =>
  set P := (openPipe maxSize content env off (some (off + len - 1))).cutAt
    (timeout.map fun n => (n, .closed)) with hP
  have hbytes : (P.readFull len).2.1 <+: content.drop off := by
    rcases Nat.eq_zero_or_pos len with rfl | hlen
    · -- nothing is read of the answer to an empty range
      rw [P.readFull_bytes, List.take_zero]
      exact List.nil_prefix
    · have hpipe := openPipe_prefix (hanswers env rfl) (some (off + len - 1)) (by
        rintro l ⟨⟩
        omega)
      exact (Pipe.readFull_spec ((Pipe.cutAt_prefix _ _).trans hpipe) len).1
  dsimp only
  split_ifs <;> exact hbytes

end Positions

inductive Call where
  | readAt (len off : ℕ) (env : ReadEnv)
  | interrupt
  | close

structure Session where
  reader : NativeReader
  reads : List (ℕ × Bytes)

namespace Session

def start : Session := ⟨.new, []⟩

variable (maxSize : ℤ) (content : Bytes)

def step (s : Session) : Call → Session
  | .readAt len off env =>
    let (reader, bytes, _) := s.reader.readAt maxSize content len off env
    ⟨reader, (off, bytes) :: s.reads⟩
  | .interrupt => { s with reader := s.reader.interrupt }
  | .close => { s with reader := s.reader.close }

def WritesContent : Call → Prop
  | .readAt _ off env =>
      ∀ e ∈ env.stream, (stream maxSize content e off none).bytes <+: content.drop off
  | _ => True

structure Inv (s : Session) : Prop where
  positioned : s.reader.Positioned content
  reads : ∀ read ∈ s.reads, read.2 <+: content.drop read.1

variable {maxSize content}

theorem inv_step (s : Session) (call : Call) (h : Inv content s)
    (hcall : WritesContent maxSize content call) : Inv content (s.step maxSize content call) := by
  cases call with
  | readAt len off env =>
    obtain ⟨hreader, hbytes⟩ := h.positioned.readAt len hcall
    refine ⟨hreader, fun read hread => ?_⟩
    rcases List.mem_cons.mp hread with rfl | hread
    · exact hbytes
    · exact h.reads read hread
  | interrupt => exact ⟨h.positioned.interrupt, h.reads⟩
  | close => exact ⟨NativeReader.positioned_closeStream s.reader, h.reads⟩

theorem inv_start : Inv content start :=
  ⟨NativeReader.positioned_closeStream .new, by simp [start]⟩

/-- `ReadAt` returns bytes of the file at its offset. -/
theorem reads_content (maxSize : ℤ) (content : Bytes) (calls : List Call)
    (h : ∀ call ∈ calls, WritesContent maxSize content call) :
    ∀ read ∈ (run (step maxSize content) start calls).reads,
      read.2 = (content.drop read.1).take read.2.length := by
  have hinv : Inv content (run (step maxSize content) start calls) :=
    run_invariant inv_step calls inv_start h
  exact fun read hread => List.prefix_iff_eq_take.mp (hinv.reads read hread)

theorem reads_content_reconnect :
    let content : Bytes := [1, 2, 3, 4, 5, 6, 7, 8]
    let calls : List Call :=
      [.readAt 4 0 (.quiet (some { StreamEnv.good with cut := some 2, panics := true })),
        .readAt 3 2 (.quiet (some .good)), .readAt 2 6 (.quiet none)]
    let s := run (step 0 content) start calls
    s.reads = [(6, [7, 8]), (2, [3, 4, 5]), (0, [1, 2])] ∧
      ∀ read ∈ s.reads, read.2 = (content.drop read.1).take read.2.length := by
  intro content calls s
  refine ⟨by decide, reads_content 0 content calls fun call hcall => ?_⟩
  simp only [calls, List.mem_cons, List.not_mem_nil, or_false] at hcall
  rcases hcall with rfl | rfl | rfl <;> rintro e ⟨⟩ <;> decide

end Session

end GoStream.Bridge
