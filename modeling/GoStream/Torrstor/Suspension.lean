import GoStream.Foundations.Run
import GoStream.Torrstor.Reader

/-!
# Suspending a reader while it is used
-/

namespace GoStream.Torrstor

open Foundations

inductive Obs where
  | read (bytes : Bytes)
  | seek (offset : ℤ) (whence : Whence) (n : ℤ)
  | closed
  deriving DecidableEq, Repr

def logicalOffset : List Obs → ℤ
  | [] => 0
  | .read bytes :: log => logicalOffset log + bytes.length
  | .seek _ _ n :: _ => n
  | .closed :: log => logicalOffset log

def Transparent (content : Bytes) : List Obs → Prop
  | [] => True
  | .read bytes :: log =>
      bytes = slice content (logicalOffset log) bytes.length ∧ Transparent content log
  | .seek offset whence n :: log =>
      n = (seekTarget content.length (logicalOffset log) offset whence).getD 0 ∧
        Transparent content log
  | .closed :: log => Transparent content log

inductive Pc where
  | idle
  | readOpen (len : ℕ)
  | readReady (len : ℕ)
  | readOn (len : ℕ)
  | readDone (bytes : Bytes)
  | seekSet (offset : ℤ) (whence : Whence)
  | seekOn (offset : ℤ) (whence : Whence)
  | seekDone (offset : ℤ) (whence : Whence) (n : ℤ)
  deriving DecidableEq, Repr

inductive Check where
  | loaded (accessTime : ℤ)
  | decided (off : Bool)
  deriving DecidableEq, Repr

structure Session where
  reader : Reader
  pc : Pc
  checks : List Check
  now : ℤ
  readers : ℕ
  log : List Obs

inductive Session.Op where
  | tick (seconds : ℕ)
  | setReaders (readers : ℕ)
  | read (len : ℕ)
  | seek (offset : ℤ) (whence : Whence)
  | advance (info : Bool) (avail : ℕ)
  | checkBegin
  | checkDecide (i : ℕ)
  | checkAct (i : ℕ)

namespace Session

variable (content : Bytes) (s : Session)

def start (fileOffset now : ℤ) (readers : ℕ) : Session where
  reader := newReader ⟨fileOffset, content.length⟩
  pc := .idle
  checks := []
  now := now
  readers := readers
  log := []

def read (len : ℕ) : Session :=
  if s.reader.isClosed then { s with log := .closed :: s.log } else { s with pc := .readOpen len }

def seek (offset : ℤ) (whence : Whence) : Session :=
  if s.reader.isClosed then { s with log := .closed :: s.log }
  else { s with reader := s.reader.seekBegin offset whence, pc := .seekSet offset whence }

def advance (info : Bool) (avail : ℕ) : Session :=
  match s.pc with
  | .idle => s
  | .readOpen len =>
      if info then { s with pc := .readReady len } else { s with pc := .idle, log := .read [] :: s.log }
  | .readReady len => { s with reader := s.reader.readerOn.1, pc := .readOn len }
  | .readOn len =>
      let (engine, bytes) := s.reader.engine.read content (min len avail)
      { s with reader := { s.reader with engine := engine }, pc := .readDone bytes }
  | .readDone bytes =>
      { s with
        reader := s.reader.readEnd bytes.length s.now
        pc := .idle
        log := .read bytes :: s.log }
  | .seekSet offset whence => { s with reader := s.reader.readerOn.1, pc := .seekOn offset whence }
  | .seekOn offset whence =>
      let (engine, n) := s.reader.engine.seek s.reader.file.length offset whence
      { s with reader := { s.reader with engine := engine }, pc := .seekDone offset whence n }
  | .seekDone offset whence n =>
      { s with
        reader := s.reader.seekEnd n s.now
        pc := .idle
        log := .seek offset whence n :: s.log }

def checkDecide (i : ℕ) : Session :=
  match s.checks[i]? with
  | some (.loaded accessTime) =>
      { s with checks := s.checks.set i (.decided (Reader.expired accessTime s.now s.readers)) }
  | _ => s

def checkAct (i : ℕ) : Session :=
  match s.checks[i]? with
  | some (.decided true) =>
      { s with reader := s.reader.readerOff.1, checks := s.checks.eraseIdx i }
  | some (.decided false) =>
      { s with reader := s.reader.readerOn.1, checks := s.checks.eraseIdx i }
  | _ => s

def step (s : Session) : Op → Session
  | .tick seconds => { s with now := s.now + seconds }
  | .setReaders readers => { s with readers := readers }
  | .read len => if s.pc = .idle then s.read len else s
  | .seek offset whence => if s.pc = .idle then s.seek offset whence else s
  | .advance info avail => s.advance content info avail
  | .checkBegin => { s with checks := s.checks ++ [.loaded s.reader.lastAccess] }
  | .checkDecide i => s.checkDecide i
  | .checkAct i => s.checkAct i

def offsetCurrent : Pc → Bool
  | .readDone bytes => bytes.isEmpty
  | .seekSet offset .current => offset == 0
  | .seekOn offset .current => offset == 0
  | _ => true

def undisturbed (s : Session) : Op → Bool
  | .seek _ whence => whence != .other
  | .advance _ _ =>
      match s.pc with
      | .readOn _ => !s.reader.rewound || s.reader.offset == 0
      | .seekSet _ _ => !s.reader.rewound || offsetCurrent s.pc
      | .seekOn offset .current => !s.reader.rewound || s.reader.offset == offset
      | _ => true
  | .checkAct i =>
      s.checks[i]? != some (.decided false) || !s.reader.rewound || offsetCurrent s.pc
  | _ => true

def Aligned (o : ℤ) (r : Reader) : Pc → Prop
  | .idle => r.offset = o ∧ r.Placed o
  | .readOpen _ => r.offset = o ∧ r.Placed o
  | .readReady _ => r.offset = o ∧ r.Placed o
  | .readOn _ => r.offset = o ∧ r.Placed o
  | .readDone bytes =>
      r.offset = o ∧ bytes = slice content o bytes.length ∧ r.Placed (o + bytes.length)
  | .seekSet offset whence =>
      seekTarget content.length o offset whence = some r.offset ∧ (whence = .current → r.Placed o)
  | .seekOn offset whence =>
      seekTarget content.length o offset whence = some r.offset ∧ (whence = .current → r.Placed o)
  | .seekDone offset whence n =>
      seekTarget content.length o offset whence = some n ∧ r.offset = n ∧ r.Placed n

structure Inv (s : Session) : Prop where
  length : s.reader.file.length = content.length
  aligned : Aligned content (logicalOffset s.log) s.reader s.pc
  transparent : Transparent content s.log

variable {content} {s} {o : ℤ} {r : Reader} {pc : Pc}

theorem inv_start (fileOffset now : ℤ) (readers : ℕ) :
    Inv content (start content fileOffset now readers) :=
  ⟨rfl, ⟨rfl, .inl rfl⟩, trivial⟩

theorem slice_length_self (pos : ℤ) (n : ℕ) :
    slice content pos (slice content pos n).length = slice content pos n := by
  unfold slice
  split_ifs
  · rfl
  · rw [pread, pread, List.length_take, List.take_eq_take_min, min_assoc, min_self,
      ← List.take_eq_take_min]

theorem Aligned.readerOff (h : Aligned content o r pc) : Aligned content o r.readerOff.1 pc := by
  cases pc with
  | readDone bytes => exact ⟨r.offset_readerOff.trans h.1, h.2.1, h.2.2.readerOff⟩
  | seekSet offset whence | seekOn offset whence =>
    exact ⟨h.1.trans (by rw [r.offset_readerOff]), fun hw => (h.2 hw).readerOff⟩
  | seekDone offset whence n => exact ⟨h.1, r.offset_readerOff.trans h.2.1, h.2.2.readerOff⟩
  | _ => exact ⟨r.offset_readerOff.trans h.1, h.2.readerOff⟩

theorem Aligned.readerOn (h : Aligned content o r pc)
    (hcur : r.rewound = true → offsetCurrent pc = true) : Aligned content o r.readerOn.1 pc := by
  have hoff := r.offset_readerOn
  cases pc with
  | readDone bytes =>
    refine ⟨hoff.trans h.1, h.2.1, .inl (h.2.2.readerOn fun hr => ?_)⟩
    have hnil : bytes = [] := by simpa [offsetCurrent] using hcur hr
    simp [h.1, hnil]
  | seekSet offset whence | seekOn offset whence =>
    refine ⟨h.1.trans (by rw [hoff]), fun hw => .inl ((h.2 hw).readerOn fun hr => ?_)⟩
    subst hw
    have hzero : offset = 0 := by simpa [offsetCurrent] using hcur hr
    simpa [seekTarget, hzero] using h.1.symm
  | seekDone offset whence n =>
    exact ⟨h.1, hoff.trans h.2.1, .inl (h.2.2.readerOn fun _ => h.2.1)⟩
  | _ => exact ⟨hoff.trans h.1, .inl (h.2.readerOn fun _ => h.1)⟩

theorem Aligned.engineRead {len n : ℕ} (h : Aligned content o r (.readOn len))
    (hin : r.rewound = true → r.offset = 0) :
    Aligned content o { r with engine := (r.engine.read content n).1 }
      (.readDone (r.engine.read content n).2) := by
  have hpos : r.engine.pos = o := by
    rcases h.2 with hpos | hr
    · exact hpos
    · rw [Reader.pos_eq_zero_of_rewound hr, ← hin hr, h.1]
  refine ⟨h.1, ?_, .inl ?_⟩
  · simp only [EngineReader.read, hpos, slice_length_self]
  · simp only [EngineReader.read, hpos]

theorem Aligned.engineSeek {offset : ℤ} {whence : Whence}
    (h : Aligned content o r (.seekOn offset whence)) (hlen : r.file.length = content.length)
    (hin : whence = .current → r.rewound = true → r.offset = offset) :
    Aligned content o { r with engine := (r.engine.seek r.file.length offset whence).1 }
      (.seekDone offset whence (r.engine.seek r.file.length offset whence).2) := by
  obtain ⟨htarget, hplaced⟩ := h
  have hengine : seekTarget r.file.length r.engine.pos offset whence = some r.offset := by
    rw [hlen, ← htarget]
    cases whence with
    | current =>
      rcases hplaced rfl with hpos | hr
      · rw [hpos]
      · have ho : o + offset = r.offset := Option.some.inj htarget
        have : o = 0 := by linarith [hin rfl hr]
        rw [Reader.pos_eq_zero_of_rewound hr, this]
    | _ => rfl
  simp only [EngineReader.seek, hengine]
  exact ⟨htarget, rfl, .inl rfl⟩

theorem Inv.advance (h : Inv content s) {info : Bool} {avail : ℕ}
    (hok : undisturbed s (.advance info avail) = true) :
    Inv content (s.advance content info avail) := by
  obtain ⟨reader, pc, checks, now, readers, log⟩ := s
  obtain ⟨hlen, hal, htr⟩ := h
  simp only [undisturbed] at hok
  have hlenOn : reader.readerOn.1.file.length = content.length := by
    rw [reader.file_readerOn]
    exact hlen
  cases pc with
  | idle => exact ⟨hlen, hal, htr⟩
  | readOpen len =>
    unfold Session.advance
    dsimp only
    split_ifs
    · exact ⟨hlen, hal, htr⟩
    · refine ⟨hlen, ?_, ?_, htr⟩
      · simpa [logicalOffset, Aligned] using hal
      · simp [slice, pread]
  | readReady len =>
    have hal : Aligned content _ reader (.readReady len) := hal
    exact ⟨hlenOn, hal.readerOn fun _ => rfl, htr⟩
  | readOn len =>
    refine ⟨hlen, hal.engineRead fun hr => ?_, htr⟩
    simpa [hr] using hok
  | readDone bytes =>
    refine ⟨hlen, ⟨?_, ?_⟩, hal.2.1, htr⟩
    · exact congrArg (· + (bytes.length : ℤ)) hal.1
    · exact hal.2.2
  | seekSet offset whence =>
    have hal : Aligned content _ reader (.seekSet offset whence) := hal
    refine ⟨hlenOn, hal.readerOn fun hr => ?_, htr⟩
    simpa [hr] using hok
  | seekOn offset whence =>
    refine ⟨hlen, hal.engineSeek hlen fun hw hr => ?_, htr⟩
    subst hw
    simpa [hr] using hok
  | seekDone offset whence n =>
    refine ⟨hlen, ⟨rfl, hal.2.2⟩, ?_, htr⟩
    rw [hal.1, Option.getD_some]

theorem Inv.checkAct (h : Inv content s) {i : ℕ} (hok : undisturbed s (.checkAct i) = true) :
    Inv content (s.checkAct i) := by
  obtain ⟨hlen, hal, htr⟩ := h
  unfold Session.checkAct
  split
  · exact ⟨by simpa using hlen, hal.readerOff, htr⟩
  · next hi =>
    refine ⟨by simpa using hlen, hal.readerOn fun hr => ?_, htr⟩
    simpa [undisturbed, hi, hr] using hok
  · exact ⟨hlen, hal, htr⟩

theorem Inv.read (h : Inv content s) (hidle : s.pc = .idle) (len : ℕ) : Inv content (s.read len) := by
  obtain ⟨hlen, hal, htr⟩ := h
  rw [hidle] at hal
  unfold Session.read
  split_ifs
  · exact ⟨hlen, by rw [hidle]; exact hal, htr⟩
  · exact ⟨hlen, hal, htr⟩

theorem Inv.seek (h : Inv content s) (hidle : s.pc = .idle) {offset : ℤ} {whence : Whence}
    (hw : whence ≠ .other) : Inv content (s.seek offset whence) := by
  obtain ⟨hlen, hal, htr⟩ := h
  rw [hidle] at hal
  unfold Session.seek
  split_ifs
  · exact ⟨hlen, by rw [hidle]; exact hal, htr⟩
  · refine ⟨hlen, ⟨?_, fun _ => hal.2⟩, htr⟩
    unfold Reader.seekBegin
    rw [hlen, hal.1]
    cases whence with
    | other => exact absurd rfl hw
    | _ => rfl

theorem inv_step (s : Session) (op : Op) (h : Inv content s) (hok : undisturbed s op = true) :
    Inv content (s.step content op) := by
  cases op with
  | tick seconds | setReaders readers | checkBegin => exact ⟨h.length, h.aligned, h.transparent⟩
  | read len =>
    unfold Session.step
    dsimp only
    split_ifs with hidle
    · exact h.read hidle len
    · exact h
  | seek offset whence =>
    unfold Session.step
    dsimp only
    split_ifs with hidle
    · exact h.seek hidle (by simpa [undisturbed] using hok)
    · exact h
  | advance info avail => exact h.advance hok
  | checkDecide i =>
    simp only [Session.step, Session.checkDecide]
    split <;> exact ⟨h.length, h.aligned, h.transparent⟩
  | checkAct i => exact h.checkAct hok

/-- Suspension is transparent in undisturbed runs. -/
theorem log_transparent (content : Bytes) (fileOffset now : ℤ) (readers : ℕ) (ops : List Op)
    (h : Meets (fun s op => undisturbed s op = true) (step content)
      (start content fileOffset now readers) ops) :
    ∀ pre, pre <+: ops →
      Transparent content (run (step content) (start content fileOffset now readers) pre).log :=
  Meets.good inv_step (fun _ hs => hs.transparent) ops (inv_start fileOffset now readers) h

def Unsuspended : Op → Prop
  | .seek _ whence => whence ≠ .other
  | .checkAct _ => False
  | _ => True

theorem isUse_advance (h : s.reader.isUse = true) (info : Bool) (avail : ℕ) :
    (s.advance content info avail).reader.isUse = true := by
  have hon : s.reader.readerOn.1.isUse = true := by simp [Reader.readerOn, h]
  unfold Session.advance
  split
  · exact h
  · split_ifs <;> exact h
  · exact hon
  · exact h
  · exact h
  · exact hon
  · exact h
  · exact h

theorem isUse_step (s : Session) (op : Op) (h : s.reader.isUse = true) (hop : Unsuspended op) :
    (s.step content op).reader.isUse = true := by
  cases op with
  | read len =>
    simp only [Session.step, Session.read]
    split_ifs <;> exact h
  | seek offset whence =>
    simp only [Session.step, Session.seek]
    split_ifs <;> exact h
  | advance info avail => exact isUse_advance h info avail
  | checkDecide i =>
    simp only [Session.step, Session.checkDecide]
    split <;> exact h
  | checkAct i => exact hop.elim
  | _ => exact h

theorem undisturbed_of_isUse (s : Session) (op : Op) (h : s.reader.isUse = true)
    (hop : Unsuspended op) : undisturbed s op = true := by
  have hr : s.reader.rewound = false := by simp [Reader.rewound, h]
  cases op with
  | seek offset whence => simpa [undisturbed, Unsuspended] using hop
  | advance info avail =>
    unfold undisturbed
    dsimp only
    split <;> simp [hr]
  | checkAct i => exact hop.elim
  | _ => rfl

def checkReader : List Op := [.checkBegin, .checkDecide 0, .checkAct 0]

theorem log_transparent_resumed :
    let ops : List Op := [.seek 1 .start, .advance true 9, .advance true 9, .advance true 9,
      .tick 120] ++ checkReader ++
      [.read 1, .advance true 9, .advance true 9, .advance true 9, .advance true 9]
    (run (step [10, 20, 30]) (start [10, 20, 30] 0 0 2) ops).log =
        [.read [20], .seek 1 .start 1] ∧
      Transparent [10, 20, 30] (run (step [10, 20, 30]) (start [10, 20, 30] 0 0 2) ops).log :=
  ⟨by decide, log_transparent _ 0 0 2 _ (by decide) _ (List.prefix_refl _)⟩

theorem log_not_transparent :
    ¬ ∀ (content : Bytes) (fileOffset now : ℤ) (readers : ℕ) (ops : List Op),
      Transparent content (run (step content) (start content fileOffset now readers) ops).log := by
  intro h
  have hlog := h [10, 20, 30] 0 120 2
    (checkReader ++ [.seek 1 .current, .advance true 9, .advance true 9, .advance true 9])
  exact absurd hlog.1 (by decide)

end Session

end GoStream.Torrstor
