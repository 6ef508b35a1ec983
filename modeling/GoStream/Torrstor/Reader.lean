import GoStream.Foundations.Disk

/-!
# The torrent reader
-/

namespace GoStream.Torrstor

open Foundations

structure TorrentFile where
  offset : ℤ
  length : ℤ
  deriving DecidableEq, Repr

inductive Whence where
  | start
  | current
  | fromEnd
  | other
  deriving DecidableEq, Repr

structure EngineReader where
  pos : ℤ
  readahead : ℤ
  deriving DecidableEq, Repr

def seekTarget (length pos offset : ℤ) : Whence → Option ℤ
  | .start => some offset
  | .current => some (pos + offset)
  | .fromEnd => some (length + offset)
  | .other => none

def EngineReader.seek (r : EngineReader) (length offset : ℤ) (whence : Whence) :
    EngineReader × ℤ :=
  match seekTarget length r.pos offset whence with
  | some newPos => ({ r with pos := newPos }, newPos)
  | none => (r, 0)

def slice (content : Bytes) (pos : ℤ) (n : ℕ) : Bytes :=
  if pos < 0 then [] else pread content pos.toNat n

def EngineReader.read (r : EngineReader) (content : Bytes) (n : ℕ) : EngineReader × Bytes :=
  let bytes := slice content r.pos n
  ({ r with pos := r.pos + bytes.length }, bytes)

structure Reader where
  engine : EngineReader
  offset : ℤ
  readahead : ℤ
  file : TorrentFile
  isClosed : Bool
  lastAccess : ℤ
  isUse : Bool
  deriving DecidableEq, Repr

def newReader (file : TorrentFile) : Reader where
  engine := ⟨0, 0⟩
  offset := 0
  readahead := 0
  file := file
  isClosed := false
  lastAccess := 0
  isUse := true

namespace Reader

variable (r : Reader)

def setReadahead (length : ℤ) : Reader :=
  { r with
    engine := if r.isUse then { r.engine with readahead := length } else r.engine
    readahead := length }

def readerOn : Reader × ℤ :=
  if r.isUse then (r, 0)
  else
    let r' := if r.engine.pos = 0 then
        { r with engine := (r.engine.seek r.file.length r.offset .start).1 } else r
    ({ r'.setReadahead r'.readahead with isUse := true }, 1)

def readerOff : Reader × ℤ :=
  if r.isUse then
    let r' := { r.setReadahead 0 with isUse := false }
    if r.offset > 0 then
      ({ r' with engine := (r'.engine.seek r.file.length 0 .start).1 }, -1)
    else (r', -1)
  else (r, 0)

def seekBegin (offset : ℤ) (whence : Whence) : Reader :=
  { r with offset := (seekTarget r.file.length r.offset offset whence).getD r.offset }

def seekEnd (n now : ℤ) : Reader := { r with offset := n, lastAccess := now }

def readEnd (n : ℕ) (now : ℤ) : Reader := { r with offset := r.offset + n, lastAccess := now }

def expired (accessTime now : ℤ) (readers : ℕ) : Bool :=
  decide (now > accessTime + 60) && decide (readers > 1)

def rewound : Bool := !r.isUse && r.engine.pos == 0

@[simp] theorem offset_readerOn : r.readerOn.1.offset = r.offset := by
  unfold readerOn
  split_ifs <;> rfl

@[simp] theorem offset_readerOff : r.readerOff.1.offset = r.offset := by
  unfold readerOff
  split_ifs <;> rfl

@[simp] theorem file_readerOn : r.readerOn.1.file = r.file := by
  unfold readerOn
  split_ifs <;> rfl

@[simp] theorem file_readerOff : r.readerOff.1.file = r.file := by
  unfold readerOff
  split_ifs <;> rfl

theorem pos_readerOn : r.readerOn.1.engine.pos = if r.rewound then r.offset else r.engine.pos := by
  cases huse : r.isUse
  · by_cases hpos : r.engine.pos = 0 <;>
      simp [readerOn, rewound, huse, hpos, EngineReader.seek, seekTarget, setReadahead]
  · simp [readerOn, rewound, huse]

def Placed (o : ℤ) : Prop := r.engine.pos = o ∨ r.rewound = true

variable {r} {o : ℤ}

theorem pos_eq_zero_of_rewound (h : r.rewound = true) : r.engine.pos = 0 := by
  unfold rewound at h
  simp only [Bool.and_eq_true, beq_iff_eq] at h
  exact h.2

theorem Placed.readerOff (h : r.Placed o) : r.readerOff.1.Placed o := by
  unfold Reader.readerOff
  split_ifs with huse hoff
  · exact .inr (by simp [rewound, EngineReader.seek, seekTarget])
  · rcases h with h | h
    · exact .inl (by simpa [setReadahead, huse] using h)
    · simp [rewound, huse] at h
  · exact h

theorem Placed.readerOn (h : r.Placed o) (hoff : r.rewound = true → r.offset = o) :
    r.readerOn.1.engine.pos = o := by
  rw [pos_readerOn]
  split_ifs with hr
  · exact hoff hr
  · exact h.resolve_right hr

end Reader

end GoStream.Torrstor
