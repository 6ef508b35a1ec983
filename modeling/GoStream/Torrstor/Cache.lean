import GoStream.Torrstor.Ranges

/-!
# The piece cache of a torrent
-/

namespace GoStream.Torrstor

open Foundations

structure Layout where
  pieceLength : ℤ
  pieceCount : ℕ
  pos : 0 < pieceLength

structure BTSets where
  readerReadAHead : ℤ
  connectionsLimit : ℤ
  share : ℤ → ℤ → ℤ
  eighty : ℤ → ℤ

inductive PiecePriority where
  | none
  | normal
  | high
  | readahead
  | next
  | now
  deriving DecidableEq, Repr

structure Piece where
  size : ℤ
  complete : Bool
  accessed : ℤ
  deriving DecidableEq, Repr

structure Cache (L : Layout) where
  capacity : ℤ
  filled : ℤ
  pieces : Fin L.pieceCount → Piece
  readers : List (ℕ × Reader)
  activeReaders : ℤ
  isClosed : Bool
  isAggressive : Bool
  masterLimit : ℤ
  hasTorrent : Bool
  localPriority : Fin L.pieceCount → Option PiecePriority
  priority : Fin L.pieceCount → PiecePriority
  pieceInRange : Fin L.pieceCount → Bool

namespace Reader

variable (L : Layout) (B : BTSets) (r : Reader)

def getPieceNum (offset : ℤ) : ℤ := (offset + r.file.offset).tdiv L.pieceLength

def getOffsetRange (capacity useReaders : ℤ) : ℤ × ℤ :=
  let readers := if useReaders = 0 then 1 else useReaders
  let beginOffset := r.offset - B.share (capacity.tdiv readers) (100 - B.readerReadAHead)
  let endOffset := r.offset + B.share (capacity.tdiv readers) B.readerReadAHead
  (if beginOffset < 0 then 0 else beginOffset,
    if endOffset > r.file.length then r.file.length else endOffset)

def getPiecesRange (capacity useReaders : ℤ) : Range :=
  let offsets := r.getOffsetRange B capacity useReaders
  ⟨r.getPieceNum L offsets.1, r.getPieceNum L offsets.2, r.file⟩

def getReaderPiece : ℤ := r.getPieceNum L r.offset

def getReaderRAHPiece : ℤ := r.getPieceNum L (r.offset + r.readahead)

def checkReader (now : ℤ) (readers : ℕ) : Reader × ℤ :=
  if expired r.lastAccess now readers then r.readerOff else r.readerOn

end Reader

section Files

variable (L : Layout)

def fileRangeNotDelete : ℤ := if L.pieceLength < 8388608 then 8388608 else L.pieceLength

def inFileBE (file : TorrentFile) (id : ℤ) : Bool :=
  let ss := file.offset.tdiv L.pieceLength
  let se := (file.offset + fileRangeNotDelete L).tdiv L.pieceLength
  let es := (file.offset + file.length - fileRangeNotDelete L).tdiv L.pieceLength
  let ee := (file.offset + file.length).tdiv L.pieceLength
  decide (id ≥ ss ∧ id < se ∨ id > es ∧ id ≤ ee)

def isIdInFileBE (ranges : List Range) (id : ℤ) : Bool := ranges.any fun rng => inFileBE L rng.file id

def mark (start stop : ℤ) (bitmap : Fin L.pieceCount → Bool) : Fin L.pieceCount → Bool :=
  fun i => bitmap i || decide (start ≤ (i : ℤ) ∧ (i : ℤ) ≤ stop)

def markFile (bitmap : Fin L.pieceCount → Bool) (rng : Range) : Fin L.pieceCount → Bool :=
  let start := rng.file.offset.tdiv L.pieceLength
  let stop : ℤ := (rng.file.offset + rng.file.length).tdiv L.pieceLength
  let stop := if stop ≥ (L.pieceCount : ℤ) then (L.pieceCount : ℤ) - 1 else stop
  mark L start stop bitmap

def rebuildBitmap (ranges : List Range) : Fin L.pieceCount → Bool :=
  ranges.foldl (markFile L) fun _ => false

end Files

namespace Cache

variable {L : Layout} (B : BTSets) (c : Cache L)

def checkReaders (clock : ℕ → ℤ) : List (ℕ × Reader) → ℤ → List (ℕ × Reader) × ℤ × List Range
  | [], active => ([], active, [])
  | (key, r) :: rest, active =>
    let checked := r.checkReader (clock key) c.readers.length
    let active := active + checked.2
    let tail := checkReaders clock rest active
    ((key, checked.1) :: tail.1, tail.2.1,
      if checked.1.isUse then checked.1.getPiecesRange L B c.capacity active :: tail.2.2
      else tail.2.2)

def useRanges (order : MapOrder) (clock : ℕ → ℤ) : Cache L × List Range :=
  let s := c.checkReaders B clock (order.arrange c.readers) c.activeReaders
  ({ c with readers := s.1, activeReaders := s.2.1 }, s.2.2)

def highPriorityWindow : ℤ :=
  let w := (c.capacity.tdiv L.pieceLength).tdiv 10
  if w < 5 then 5 else w

def loadCount : ℤ :=
  let numReaders : ℤ := if c.readers.length = 0 then 1 else c.readers.length
  let effectiveLimit := if c.masterLimit > 0 then c.masterLimit else B.connectionsLimit
  let count := effectiveLimit.tdiv numReaders
  let count :=
    if c.isAggressive then
      let count := if c.filled > c.capacity then 1 else B.eighty effectiveLimit
      if count < 1 then 1 else count
    else count
  if count < 1 then 1 else count

def priorityFor (readerPos readerRAHPos window i : ℤ) (marked : PiecePriority) : PiecePriority :=
  if i = readerPos then .now
  else if i = readerPos + 1 then .next
  else if i > readerPos ∧ i ≤ readerRAHPos then .readahead
  else if i > readerRAHPos ∧ i ≤ readerRAHPos + window then
    if marked ≠ .high then .high else .none
  else if i > readerRAHPos + window then
    if marked ≠ .normal then .normal else .none
  else .none

abbrev Marks (L : Layout) :=
  (Fin L.pieceCount → Option PiecePriority) × (Fin L.pieceCount → Option PiecePriority)

def loadFrom (readerPos readerRAHPos count : ℤ) : ℕ → ℤ → ℤ → Marks L → Marks L
  | 0, _, _, s => s
  | turns + 1, i, limit, s =>
    if limit < count then
      if h : 0 ≤ i ∧ i < L.pieceCount then
        let id : Fin L.pieceCount := ⟨i.toNat, by omega⟩
        if (c.pieces id).complete then loadFrom readerPos readerRAHPos count turns (i + 1) limit s
        else
          let prio := priorityFor readerPos readerRAHPos c.highPriorityWindow i
            ((s.1 id).getD .none)
          let s := if prio = .none then s
            else (Function.update s.1 id (some prio), Function.update s.2 id (some prio))
          loadFrom readerPos readerRAHPos count turns (i + 1) (limit + 1) s
      else s
    else s

def loadReader (ranges : List Range) (r : Reader) : Cache L :=
  if !r.isUse || isIdInFileBE L ranges (r.getReaderPiece L) then c
  else
    let readerPos := r.getReaderPiece L
    let stop := (r.getPiecesRange L B c.capacity c.activeReaders).stop
    let s := c.loadFrom readerPos (r.getReaderRAHPiece L) (c.loadCount B) (stop - readerPos).toNat
      readerPos 0 (c.localPriority, fun _ => none)
    { c with
      localPriority := s.1
      priority := fun id => (s.2 id).getD (c.priority id) }

def setLoadPriority (order : MapOrder) (ranges : List Range) : Cache L :=
  if c.hasTorrent then
    (order.arrange c.readers).foldl (fun c r => c.loadReader B ranges r.2) c
  else c

def clearPriority (S : SliceSort) (order : MapOrder) (clock : ℕ → ℤ) : Cache L :=
  if !c.hasTorrent || c.isClosed then c
  else
    let used := c.useRanges B order clock
    let ranges := mergeRange S used.2
    let drop : Fin L.pieceCount → Bool := fun id =>
      (c.localPriority id).isSome && (ranges.isEmpty || !inRanges ranges id)
    { used.1 with
      localPriority := fun id => if drop id then none else c.localPriority id
      priority := fun id => if drop id then .none else c.priority id }

structure Scan where
  readers : MapOrder
  pieces : MapOrder
  clearReaders : MapOrder
  loadReaders : MapOrder
  clock : ℕ → ℤ
  clearClock : ℕ → ℤ

def getRemPieces (S : SliceSort) (e : Scan) : Cache L × List (Fin L.pieceCount) :=
  if c.isClosed then (c, [])
  else
    let used := c.useRanges B e.readers e.clock
    let ranges := mergeRange S used.2
    let pieceInRange := rebuildBitmap L ranges
    let ids := e.pieces.arrange (List.finRange L.pieceCount)
    let fill := (ids.map fun id => if (c.pieces id).size > 0 then (c.pieces id).size else 0).sum
    let piecesRemove := ids.filter fun id =>
      !pieceInRange id && (decide ((c.pieces id).size > 0) && !isIdInFileBE L ranges id)
    let cleared := { used.1 with pieceInRange := pieceInRange }.clearPriority B S e.clearReaders
      e.clearClock
    let loaded := cleared.setLoadPriority B e.loadReaders ranges
    ({ loaded with filled := fill },
      S.sort (fun i j => decide ((c.pieces i).accessed < (c.pieces j).accessed)) piecesRemove)

end Cache

end GoStream.Torrstor
