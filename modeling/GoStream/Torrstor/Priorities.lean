import GoStream.Foundations.Run
import GoStream.Torrstor.CleanPieces
import GoStream.Torrstor.Coverage

/-!
# The record of the priorities
-/

namespace GoStream.Torrstor

open Foundations

namespace Cache

variable {L : Layout} {B : BTSets} {S : SliceSort} {c : Cache L}

def markOf : PiecePriority → Option PiecePriority
  | .none => none
  | prio => some prio

def Exact (c : Cache L) : Prop := ∀ id, c.localPriority id = markOf (c.priority id)

theorem markOf_of_ne {prio : PiecePriority} (h : prio ≠ .none) : markOf prio = some prio := by
  cases prio <;> first | rfl | exact absurd rfl h

def Batched (old : Fin L.pieceCount → Option PiecePriority) (s : Marks L) : Prop :=
  ∀ id, match s.2 id with
    | none => s.1 id = old id
    | some prio => s.1 id = some prio ∧ prio ≠ .none

theorem batched_loadFrom {old : Fin L.pieceCount → Option PiecePriority}
    (readerPos readerRAHPos count : ℤ) (turns : ℕ) (i limit : ℤ) {s : Marks L}
    (h : Batched old s) :
    Batched old (c.loadFrom readerPos readerRAHPos count turns i limit s) := by
  fun_induction loadFrom c readerPos readerRAHPos count turns i limit s with
  | case1 | case4 | case5 => exact h
  | case2 turns i limit s hlimit hi id hcomplete ih => exact ih h
  | case3 turns i limit s hlimit hi id hcomplete prio s' ih =>
    apply ih
    intro j
    by_cases hprio : prio = .none
    · simpa [s', hprio] using h j
    · by_cases hj : j = id
      · subst hj
        simp [s', hprio]
      · simpa [s', hprio, Function.update_of_ne hj] using h j

theorem exact_loadReader (h : c.Exact) (ranges : List Range) (r : Reader) :
    (c.loadReader B ranges r).Exact := by
  unfold loadReader
  split_ifs
  · exact h
  · intro id
    have hbatch : Batched c.localPriority (c.loadFrom (r.getReaderPiece L) (r.getReaderRAHPiece L)
        (c.loadCount B) ((r.getPiecesRange L B c.capacity c.activeReaders).stop -
          r.getReaderPiece L).toNat (r.getReaderPiece L) 0 (c.localPriority, fun _ => none)) :=
      batched_loadFrom _ _ _ _ _ _ fun _ => rfl
    have hid := hbatch id
    dsimp only
    split at hid
    · next hnone => rw [hid, hnone, Option.getD_none, h id]
    · next prio hsome => rw [hid.1, hsome, Option.getD_some, markOf_of_ne hid.2]

theorem exact_setLoadPriority (h : c.Exact) (order : MapOrder) (ranges : List Range) :
    (c.setLoadPriority B order ranges).Exact := by
  unfold setLoadPriority
  split_ifs
  · exact run_keeps Exact (fun c r hc => exact_loadReader hc ranges r.2) (order.arrange c.readers) h
  · exact h

theorem exact_refreshPriorities (h : c.Exact) (readers loadReaders : MapOrder) :
    (c.refreshPriorities B S readers loadReaders).Exact := by
  unfold refreshPriorities
  split_ifs
  · exact h
  · exact exact_setLoadPriority h _ _

theorem exact_clearPriority (h : c.Exact) (order : MapOrder) (clock : ℕ → ℤ) :
    (c.clearPriority B S order clock).Exact := by
  unfold clearPriority
  split_ifs
  · exact h
  · intro id
    dsimp only
    split_ifs
    · rfl
    · exact h id

theorem exact_getRemPieces (h : c.Exact) (e : Scan) : (c.getRemPieces B S e).1.Exact := by
  unfold getRemPieces
  split_ifs
  · exact h
  · have hcleared := exact_clearPriority (B := B) (S := S)
      (c := { (c.useRanges B e.readers e.clock).1 with
        pieceInRange := rebuildBitmap L (mergeRange S (c.useRanges B e.readers e.clock).2) })
      h e.clearReaders e.clearClock
    exact exact_setLoadPriority (B := B) hcleared e.loadReaders
      (mergeRange S (c.useRanges B e.readers e.clock).2)

theorem isClosed_getRemPieces (e : Scan) : (c.getRemPieces B S e).1.isClosed = c.isClosed := by
  unfold getRemPieces
  split_ifs
  · rfl
  · exact (sameData_setLoadPriority _ _).isClosed.trans (sameData_clearPriority _ _).isClosed

theorem covers_of_clearPriority (h : c.Exact) (hopen : c.isClosed = false)
    (htorrent : c.hasTorrent = true) (order : MapOrder) (clock : ℕ → ℤ) {id : Fin L.pieceCount}
    (hprio : (c.clearPriority B S order clock).priority id ≠ .none) :
    ∃ w ∈ (c.useRanges B order clock).2, w.Covers id := by
  rw [clearPriority, htorrent, hopen] at hprio
  simp only [Bool.not_true, Bool.or_self, Bool.false_eq_true, if_false] at hprio
  split_ifs at hprio with hdrop
  · exact absurd rfl hprio
  · have hmark : (c.localPriority id).isSome = true := by rw [h id, markOf_of_ne hprio]; rfl
    rw [hmark, Bool.true_and, Bool.or_eq_true, not_or, Bool.not_eq_true', Bool.not_eq_false] at hdrop
    exact (covers_mergeRange S).mp (covers_of_inRanges hdrop.2)

def removed (rems : ℤ) (ids : List (Fin L.pieceCount)) : List (Fin L.pieceCount) :=
  ids.take (max 1 rems.toNat)

theorem priority_removePieces (hopen : c.isClosed = false) (rems : ℤ)
    (ids : List (Fin L.pieceCount)) :
    (removePieces rems ids c).localPriority = c.localPriority ∧
      ∀ id, (removePieces rems ids c).priority id =
        if id ∈ removed rems ids then .none else c.priority id := by
  induction ids generalizing rems c with
  | nil => simp [removePieces, removed]
  | cons p rest ih =>
    have hremove : c.removePiece p = c.release p := by rw [removePiece, hopen]; rfl
    have hpriority : ∀ id, (c.release p).priority id = if id = p then .none else c.priority id := by
      intro id
      simp only [release, hopen, Bool.false_eq_true, if_false, Function.update_apply]
    rw [removePieces, hremove]
    split_ifs with hlast
    · have hone : max 1 rems.toNat = 1 := by omega
      refine ⟨rfl, fun id => ?_⟩
      rw [hpriority, removed, hone]
      simp
    · obtain ⟨hmarks, hrest⟩ := ih (c := c.release p) hopen (rems - 1)
      have hmore : max 1 rems.toNat = max 1 (rems - 1).toNat + 1 := by omega
      refine ⟨hmarks, fun id => ?_⟩
      rw [hrest, hpriority, removed, removed, hmore, List.take_succ_cons]
      by_cases hp : id = p <;> simp [hp]

theorem exact_removePieces_iff (h : c.Exact) (hopen : c.isClosed = false) (rems : ℤ)
    (ids : List (Fin L.pieceCount)) :
    (removePieces rems ids c).Exact ↔ ∀ id ∈ removed rems ids, c.localPriority id = none := by
  obtain ⟨hmarks, hpriority⟩ := priority_removePieces hopen rems ids
  constructor
  · intro hexact id hid
    have hmark := hexact id
    rwa [hmarks, hpriority, if_pos hid] at hmark
  · intro hnone id
    rw [hmarks, hpriority]
    split_ifs with hid
    · exact hnone id hid
    · exact h id

end Cache

inductive PriorityOp (L : Layout) where
  | refresh (readers loadReaders : MapOrder)
  | clean (e : Cleaning)
  | scan (e : Cache.Scan)
  | clear (order : MapOrder) (clock : ℕ → ℤ)
  | closeReader (key : ℕ)
  | other (s : Cleaner L)

namespace Cleaner

variable {L : Layout} (B : BTSets) (S : SliceSort)

def closeReader (c : Cache L) (key : ℕ) : Cache L :=
  if c.isClosed then c
  else
    match c.readers.find? fun r => r.1 = key with
    | none => c
    | some r =>
      { c with
        readers := c.readers.filter fun r => r.1 ≠ key
        activeReaders := c.activeReaders + if r.2.isClosed then 0 else r.2.readerOff.2 }

def priorityStep (s : Cleaner L) : PriorityOp L → Cleaner L
  | .refresh readers loadReaders =>
    { s with cache := s.cache.refreshPriorities B S readers loadReaders }
  | .clean e => s.cleanPieces B S e
  | .scan e => { s with cache := (s.cache.getRemPieces B S e).1 }
  | .clear order clock => { s with cache := s.cache.clearPriority B S order clock }
  | .closeReader key => { s with cache := closeReader s.cache key }
  | .other t =>
    { t with cache := { t.cache with
        localPriority := s.cache.localPriority
        priority := s.cache.priority } }

def released (s : Cleaner L) (e : Cleaning) : List (Fin L.pieceCount) :=
  if s.isRemove || s.cache.isClosed then []
  else
    let c := s.refreshed B S e
    if throttled c s.lastClean e.now || s.muRemove then []
    else
      let rem := c.getRemPieces B S e.scan
      if rem.1.filled > rem.1.capacity then
        Cache.removed (remsOf L rem.1.filled rem.1.capacity) rem.2
      else []

def ReleasesUnmarked (s : Cleaner L) : PriorityOp L → Prop
  | .clean e => ∀ id ∈ s.released B S e,
      ((s.refreshed B S e).getRemPieces B S e.scan).1.localPriority id = none
  | _ => True

variable {B S}

theorem exact_cleanPieces_iff {s : Cleaner L} (h : s.cache.Exact) (e : Cleaning) :
    (s.cleanPieces B S e).cache.Exact ↔ s.ReleasesUnmarked B S (.clean e) := by
  have hrefreshed : (s.refreshed B S e).Exact := Cache.exact_refreshPriorities h _ _
  have hrem := Cache.exact_getRemPieces (B := B) (S := S) hrefreshed e.scan
  unfold cleanPieces ReleasesUnmarked released
  by_cases hskip : (s.isRemove || s.cache.isClosed) = true
  · simp only [hskip, if_true]
    exact iff_of_true h (by simp)
  · have hopen : s.cache.isClosed = false := by simp_all
    have hopen' : ((s.refreshed B S e).getRemPieces B S e.scan).1.isClosed = false := by
      have hclosed : (s.refreshed B S e).isClosed = s.cache.isClosed :=
        (Cache.sameData_refreshPriorities (c := s.cache) _ _).isClosed
      rw [Cache.isClosed_getRemPieces, hclosed, hopen]
    simp only [hskip, Bool.false_eq_true, if_false]
    split_ifs
    · exact iff_of_true hrefreshed (by simp)
    · exact Cache.exact_removePieces_iff hrem hopen' _ _
    · exact iff_of_true hrem (by simp)

theorem exact_priorityStep_iff {s : Cleaner L} (op : PriorityOp L) (h : s.cache.Exact) :
    (s.priorityStep B S op).cache.Exact ↔ s.ReleasesUnmarked B S op := by
  cases op with
  | refresh readers loadReaders =>
    exact iff_of_true (Cache.exact_refreshPriorities h readers loadReaders) trivial
  | clean e => exact exact_cleanPieces_iff h e
  | scan e => exact iff_of_true (Cache.exact_getRemPieces h e) trivial
  | clear order clock => exact iff_of_true (Cache.exact_clearPriority h order clock) trivial
  | closeReader key =>
    refine iff_of_true (fun id => ?_) trivial
    simp only [priorityStep, closeReader]
    split_ifs
    · exact h id
    · split <;> exact h id
  | other t => exact iff_of_true h trivial

def unmarked (s : Cleaner L) : Cleaner L :=
  { s with cache := { s.cache with localPriority := fun _ => none, priority := fun _ => .none } }

def RecordExact (s : Cleaner L) : Prop := s.cache.Exact

/-- When the record of the priorities is exact. -/
theorem record_exact_iff (B : BTSets) (S : SliceSort) (s : Cleaner L) (ops : List (PriorityOp L)) :
    ((∀ pre, pre <+: ops → (run (priorityStep B S) s.unmarked pre).RecordExact) ↔
      Meets (ReleasesUnmarked B S) (priorityStep B S) s.unmarked ops) ∧
      ∀ c : Cache L, c.Exact → c.isClosed = false → c.hasTorrent = true →
        ∀ (order : MapOrder) (clock : ℕ → ℤ) (id : Fin L.pieceCount),
          (c.clearPriority B S order clock).priority id ≠ .none →
            ∃ w ∈ (c.useRanges B order clock).2, w.start ≤ id ∧ id ≤ w.stop := by
  constructor
  · exact good_iff_meets RecordExact (fun s op h => exact_priorityStep_iff op h) (fun _ => rfl) ops
  · intro c h hopen htorrent order clock id hprio
    exact Cache.covers_of_clearPriority h hopen htorrent order clock hprio

def twoFiles : Cleaner Cache.layout where
  cache :=
    { Cache.filledCache [(0, Cache.firstReader), (1, Cache.secondReader)] fun _ => false with
      capacity := 67108864
      pieces := fun i => ⟨8388608, false, i⟩ }
  isRemove := false
  lastClean := 0
  muRemove := false

theorem released_piece_stays_marked :
    let s := run (priorityStep Cache.settings .insertion) twoFiles.unmarked [.clean later]
    s.cache.localPriority ⟨9, by decide⟩ = some .now ∧ s.cache.priority ⟨9, by decide⟩ = .none := by
  decide +kernel

end Cleaner

end GoStream.Torrstor
