import GoStream.Torrstor.Eviction

/-!
# How much is evicted
-/

namespace GoStream.Torrstor

open Foundations

namespace Cache

variable {L : Layout} (B : BTSets) (S : SliceSort) (c : Cache L)

def refreshPriorities (readers loadReaders : MapOrder) : Cache L :=
  if c.isClosed || !c.hasTorrent then c
  else
    let used := (readers.arrange c.readers).filter fun r => r.2.isUse
    let ranges := used.map fun r => r.2.getPiecesRange L B c.capacity c.activeReaders
    c.setLoadPriority B loadReaders (mergeRange S ranges)

def release (id : Fin L.pieceCount) : Cache L :=
  { c with
    pieces := Function.update c.pieces id { c.pieces id with size := 0, complete := false }
    priority := if c.isClosed then c.priority else Function.update c.priority id .none }

def removePiece (id : Fin L.pieceCount) : Cache L := if c.isClosed then c else c.release id

def removePieces : ℤ → List (Fin L.pieceCount) → Cache L → Cache L
  | _, [], c => c
  | rems, p :: rest, c =>
    if rems - 1 ≤ 0 then c.removePiece p else removePieces (rems - 1) rest (c.removePiece p)

end Cache

def remsOf (L : Layout) (filled capacity : ℤ) : ℤ := (filled - capacity).tdiv L.pieceLength + 1

structure Cleaner (L : Layout) where
  cache : Cache L
  isRemove : Bool
  lastClean : ℤ
  muRemove : Bool

structure Cleaning where
  now : ℤ
  refreshReaders : MapOrder
  refreshLoad : MapOrder
  scan : Cache.Scan

namespace Cleaner

variable {L : Layout} (B : BTSets) (S : SliceSort) (s : Cleaner L) (e : Cleaning)

def throttled (c : Cache L) (lastClean now : ℤ) : Bool :=
  decide (now - lastClean < 1000000000 ∧ c.filled < (c.capacity * 9).tdiv 10)

def refreshed : Cache L := s.cache.refreshPriorities B S e.refreshReaders e.refreshLoad

def cleanPieces : Cleaner L :=
  if s.isRemove || s.cache.isClosed then s
  else
    let c := s.refreshed B S e
    if throttled c s.lastClean e.now || s.muRemove then { s with cache := c }
    else
      let rem := c.getRemPieces B S e.scan
      let cleaned :=
        if rem.1.filled > rem.1.capacity then
          Cache.removePieces (remsOf L rem.1.filled rem.1.capacity) rem.2 rem.1
        else rem.1
      { s with cache := cleaned, isRemove := false, lastClean := e.now }

def Runs : Prop :=
  s.isRemove = false ∧ s.cache.isClosed = false ∧
    throttled s.cache s.lastClean e.now = false ∧ s.muRemove = false

end Cleaner

namespace Cache

variable {L : Layout} {B : BTSets} {S : SliceSort} {c : Cache L}

structure SameData (c c' : Cache L) : Prop where
  pieces : c'.pieces = c.pieces
  capacity : c'.capacity = c.capacity
  isClosed : c'.isClosed = c.isClosed
  filled : c'.filled = c.filled

theorem SameData.refl (c : Cache L) : SameData c c := ⟨rfl, rfl, rfl, rfl⟩

theorem SameData.trans {a b c : Cache L} (hab : SameData a b) (hbc : SameData b c) :
    SameData a c :=
  ⟨hbc.pieces.trans hab.pieces, hbc.capacity.trans hab.capacity,
    hbc.isClosed.trans hab.isClosed, hbc.filled.trans hab.filled⟩

theorem sameData_loadReader (ranges : List Range) (r : Reader) :
    SameData c (c.loadReader B ranges r) := by
  unfold loadReader
  split_ifs
  · exact .refl c
  · exact ⟨rfl, rfl, rfl, rfl⟩

theorem sameData_foldl_loadReader (ranges : List Range) (readers : List (ℕ × Reader))
    (c : Cache L) : SameData c (readers.foldl (fun c r => c.loadReader B ranges r.2) c) := by
  induction readers generalizing c with
  | nil => exact .refl c
  | cons r readers ih => exact (sameData_loadReader ranges r.2).trans (ih _)

theorem sameData_setLoadPriority (order : MapOrder) (ranges : List Range) :
    SameData c (c.setLoadPriority B order ranges) := by
  unfold setLoadPriority
  split_ifs
  · exact sameData_foldl_loadReader ranges _ c
  · exact .refl c

theorem sameData_clearPriority (order : MapOrder) (clock : ℕ → ℤ) :
    SameData c (c.clearPriority B S order clock) := by
  unfold clearPriority
  split_ifs
  · exact .refl c
  · exact ⟨rfl, rfl, rfl, rfl⟩

theorem sameData_refreshPriorities (readers loadReaders : MapOrder) :
    SameData c (c.refreshPriorities B S readers loadReaders) := by
  unfold refreshPriorities
  split_ifs
  · exact .refl c
  · exact sameData_setLoadPriority _ _

def stored (c : Cache L) : ℤ := ∑ i, (c.pieces i).size

theorem SameData.stored {c' : Cache L} (h : SameData c c') : c'.stored = c.stored := by
  rw [Cache.stored, h.pieces, Cache.stored]

theorem getRemPieces_data (hopen : c.isClosed = false) (hsizes : ∀ i, 0 ≤ (c.pieces i).size)
    (e : Scan) :
    (c.getRemPieces B S e).1.pieces = c.pieces ∧
      (c.getRemPieces B S e).1.capacity = c.capacity ∧
      (c.getRemPieces B S e).1.isClosed = false ∧
      (c.getRemPieces B S e).1.filled = c.stored := by
  have hfill : ((e.pieces.arrange (List.finRange L.pieceCount)).map fun id =>
      if (c.pieces id).size > 0 then (c.pieces id).size else 0).sum = c.stored := by
    rw [((e.pieces.perm _).map _).sum_eq, stored, ← List.sum_ofFn, List.ofFn_eq_map]
    congr 1
    apply List.map_congr_left
    intro i _
    have hi := hsizes i
    split_ifs <;> omega
  have hdata := (sameData_clearPriority (B := B) (S := S)
    (c := { (c.useRanges B e.readers e.clock).1 with
      pieceInRange := rebuildBitmap L (mergeRange S (c.useRanges B e.readers e.clock).2) })
    e.clearReaders e.clearClock).trans
      (sameData_setLoadPriority (B := B) e.loadReaders
        (mergeRange S (c.useRanges B e.readers e.clock).2))
  simp only [getRemPieces, hopen, Bool.false_eq_true, if_false]
  exact ⟨hdata.pieces, hdata.capacity, hdata.isClosed.trans hopen, hfill⟩

theorem size_release (id i : Fin L.pieceCount) :
    ((c.release id).pieces i).size = if i = id then 0 else (c.pieces i).size := by
  by_cases hi : i = id
  · subst hi
    simp [release]
  · simp [release, hi]

theorem stored_release (id : Fin L.pieceCount) :
    (c.release id).stored = c.stored - (c.pieces id).size := by
  have hrest : ∑ i ∈ Finset.univ.erase id, ((c.release id).pieces i).size =
      ∑ i ∈ Finset.univ.erase id, (c.pieces i).size := by
    refine Finset.sum_congr rfl fun i hi => ?_
    rw [size_release, if_neg (Finset.ne_of_mem_erase hi)]
  have hafter := Finset.add_sum_erase Finset.univ (fun i => ((c.release id).pieces i).size)
    (Finset.mem_univ id)
  have hbefore := Finset.add_sum_erase Finset.univ (fun i => (c.pieces i).size)
    (Finset.mem_univ id)
  simp only [size_release id id, if_true, hrest] at hafter
  rw [stored, stored, ← hafter, ← hbefore]
  ring

theorem removePieces_spec {ids : List (Fin L.pieceCount)} (hnodup : ids.Nodup) :
    ∀ {rems : ℤ} {c : Cache L}, c.isClosed = false → 1 ≤ rems →
      (removePieces rems ids c).capacity = c.capacity ∧
      (removePieces rems ids c).stored =
        c.stored - ((ids.take rems.toNat).map fun i => (c.pieces i).size).sum ∧
      ∀ i, ((removePieces rems ids c).pieces i).size =
        if i ∈ ids.take rems.toNat then 0 else (c.pieces i).size := by
  induction ids with
  | nil =>
    intro rems c hopen hrems
    simp [removePieces]
  | cons p rest ih =>
    intro rems c hopen hrems
    obtain ⟨hp, hrest⟩ := List.nodup_cons.mp hnodup
    have hremove : c.removePiece p = c.release p := by rw [removePiece, hopen]; rfl
    have htake : (p :: rest).take rems.toNat = p :: rest.take (rems - 1).toNat := by
      have hsucc : rems.toNat = (rems - 1).toNat + 1 := by omega
      rw [hsucc, List.take_succ_cons]
    rw [removePieces, hremove, htake]
    split_ifs with hlast
    · have hnone : (rems - 1).toNat = 0 := by omega
      simp only [hnone, List.take_zero, List.map_cons, List.map_nil, List.sum_singleton,
        List.mem_singleton]
      exact ⟨rfl, stored_release p, size_release p⟩
    · obtain ⟨hcap, hstored, hsize⟩ := ih hrest (c := c.release p) hopen (by omega : 1 ≤ rems - 1)
      refine ⟨hcap, ?_, fun i => ?_⟩
      · have hsame : (rest.take (rems - 1).toNat).map (fun i => ((c.release p).pieces i).size) =
            (rest.take (rems - 1).toNat).map fun i => (c.pieces i).size := by
          apply List.map_congr_left
          intro i hi
          rw [size_release, if_neg]
          rintro rfl
          exact hp (List.mem_of_mem_take hi)
        rw [hstored, stored_release, hsame, List.map_cons, List.sum_cons]
        ring
      · rw [hsize, size_release]
        by_cases hi : i = p
        · simp [hi]
        · simp [hi]

end Cache

namespace Cleaner

variable {L : Layout}

def Sufficient (c : Cache L) (evictable : List (Fin L.pieceCount)) : Prop :=
  c.stored ≤ c.capacity ∨ ∀ i ∈ evictable, (c.pieces i).size = 0

def Enough (c : Cache L) (evictable : List (Fin L.pieceCount)) : Prop :=
  let rems := (remsOf L c.stored c.capacity).toNat
  c.stored ≤ c.capacity ∨ evictable.length ≤ rems ∨
    c.stored - c.capacity ≤ ((evictable.take rems).map fun i => (c.pieces i).size).sum

variable (B : BTSets) (S : SliceSort) (s : Cleaner L) (e : Cleaning)

def evictable : List (Fin L.pieceCount) := ((s.refreshed B S e).getRemPieces B S e.scan).2

theorem cleanPieces_of_runs (hruns : s.Runs e) :
    (s.cleanPieces B S e).cache =
      let rem := (s.refreshed B S e).getRemPieces B S e.scan
      if rem.1.filled > rem.1.capacity then
        Cache.removePieces (remsOf L rem.1.filled rem.1.capacity) rem.2 rem.1
      else rem.1 := by
  obtain ⟨hremove, hopen, hthrottle, hfree⟩ := hruns
  have hdata : Cache.SameData s.cache (s.refreshed B S e) := Cache.sameData_refreshPriorities _ _
  have hearly : throttled (s.refreshed B S e) s.lastClean e.now = false := by
    rw [← hthrottle, throttled, throttled, hdata.filled, hdata.capacity]
  simp only [cleanPieces, hremove, hopen, hearly, hfree, Bool.or_self, Bool.false_eq_true, if_false]

theorem forall_mem_take_iff {α : Type*} {l : List α} (h : l.Nodup) {n : ℕ} :
    (∀ a ∈ l, a ∈ l.take n) ↔ l.length ≤ n := by
  constructor
  · intro hall
    have hsub : l.length ≤ (l.take n).length := (h.subperm hall).length_le
    rw [List.length_take] at hsub
    omega
  · intro hle a ha
    rwa [List.take_of_length_le hle]

theorem removePieces_sufficient_iff {c : Cache L} {ids : List (Fin L.pieceCount)}
    (hopen : c.isClosed = false) (hnodup : ids.Nodup) (hdata : ∀ i ∈ ids, 0 < (c.pieces i).size)
    (hover : c.capacity < c.stored) :
    Sufficient (Cache.removePieces (remsOf L c.stored c.capacity) ids c) ids ↔ Enough c ids := by
  have hrems : 1 ≤ remsOf L c.stored c.capacity := by
    have hdiv := Int.tdiv_nonneg (by omega : 0 ≤ c.stored - c.capacity) L.pos.le
    rw [remsOf]
    omega
  obtain ⟨hcap, hstored, hsize⟩ := Cache.removePieces_spec hnodup hopen hrems
  -- a piece of the list is empty afterwards if it was counted
  have hempty : (∀ i ∈ ids,
      ((Cache.removePieces (remsOf L c.stored c.capacity) ids c).pieces i).size = 0) ↔
      ids.length ≤ (remsOf L c.stored c.capacity).toNat := by
    rw [← forall_mem_take_iff hnodup]
    refine forall₂_congr fun i hi => ?_
    rw [hsize]
    split_ifs with hcounted
    · exact iff_of_true rfl hcounted
    · exact iff_of_false (hdata i hi).ne' hcounted
  rw [Sufficient, Enough, hempty, hcap, hstored]
  constructor
  · rintro (hfits | hall)
    · exact .inr (.inr (by omega))
    · exact .inr (.inl hall)
  · rintro (hfits | hall | hgiven)
    · omega
    · exact .inr hall
    · exact .inl (by omega)

/-- When a pass frees enough. -/
theorem cleanPieces_sufficient_iff (hsizes : ∀ i, 0 ≤ (s.cache.pieces i).size)
    (hruns : s.Runs e) :
    Sufficient (s.cleanPieces B S e).cache (s.evictable B S e) ↔
      Enough s.cache (s.evictable B S e) := by
  have hdata : Cache.SameData s.cache (s.refreshed B S e) := Cache.sameData_refreshPriorities _ _
  have hopen : (s.refreshed B S e).isClosed = false := hdata.isClosed.trans hruns.2.1
  have hsizes' : ∀ i, 0 ≤ ((s.refreshed B S e).pieces i).size := by
    rw [hdata.pieces]
    exact hsizes
  obtain ⟨hpieces, hcap, hclosed, hfilled⟩ :=
    Cache.getRemPieces_data (B := B) (S := S) hopen hsizes' e.scan
  have hpieces' := hpieces.trans hdata.pieces
  have hcap' := hcap.trans hdata.capacity
  have hstored : ((s.refreshed B S e).getRemPieces B S e.scan).1.stored = s.cache.stored := by
    rw [Cache.stored, hpieces', Cache.stored]
  have hfilled' : ((s.refreshed B S e).getRemPieces B S e.scan).1.filled =
      ((s.refreshed B S e).getRemPieces B S e.scan).1.stored := by
    rw [hfilled, hdata.stored, hstored]
  have henough : Enough s.cache (s.evictable B S e) ↔
      Enough ((s.refreshed B S e).getRemPieces B S e.scan).1 (s.evictable B S e) := by
    rw [Enough, Enough, hstored, hcap', hpieces']
  rw [cleanPieces_of_runs B S s e hruns, henough]
  simp only [hfilled']
  split_ifs with hover
  · refine removePieces_sufficient_iff hclosed Cache.nodup_getRemPieces (fun i hi => ?_) hover
    rw [hpieces]
    exact ((Cache.mem_getRemPieces hopen).mp hi).1
  · exact iff_of_true (.inl (not_lt.mp hover)) (.inl (not_lt.mp hover))

instance (c : Cache L) (evictable : List (Fin L.pieceCount)) : Decidable (Enough c evictable) :=
  inferInstanceAs (Decidable (_ ∨ _ ∨ _))

def fourPieces : Layout := ⟨4, 4, by decide⟩

def holding (sizes : Fin 4 → ℤ) : Cleaner fourPieces where
  cache :=
    { capacity := 4
      filled := 0
      pieces := fun i => ⟨sizes i, false, i⟩
      readers := []
      activeReaders := 0
      isClosed := false
      isAggressive := false
      masterLimit := 0
      hasTorrent := true
      localPriority := fun _ => none
      priority := fun _ => .none
      pieceInRange := fun _ => false }
  isRemove := false
  lastClean := 0
  muRemove := false

def later : Cleaning := ⟨2000000000, .listed, .listed, Cache.listed⟩

theorem cleanPieces_sufficient_iff_full :
    Sufficient ((holding ![4, 4, 1, 1]).cleanPieces Cache.settings .insertion later).cache
      ((holding ![4, 4, 1, 1]).evictable Cache.settings .insertion later) :=
  (cleanPieces_sufficient_iff Cache.settings .insertion (holding ![4, 4, 1, 1]) later
    (by decide) ⟨rfl, rfl, rfl, rfl⟩).mpr (by decide)

theorem cleanPieces_insufficient :
    (holding ![1, 1, 4, 4]).Runs later ∧
    ((holding ![1, 1, 4, 4]).evictable Cache.settings .insertion later).map Fin.val =
      [0, 1, 2, 3] ∧
    ((holding ![1, 1, 4, 4]).cleanPieces Cache.settings .insertion later).cache.stored = 8 ∧
    (((holding ![1, 1, 4, 4]).cleanPieces Cache.settings .insertion later).cache.pieces
      ⟨2, by decide⟩).size = 4 ∧
    ¬ Sufficient ((holding ![1, 1, 4, 4]).cleanPieces Cache.settings .insertion later).cache
      ((holding ![1, 1, 4, 4]).evictable Cache.settings .insertion later) := by
  refine ⟨⟨rfl, rfl, rfl, rfl⟩, by decide, by decide, by decide, ?_⟩
  rintro (hfits | hempty)
  · exact absurd hfits (by decide)
  · exact absurd (hempty ⟨2, by decide⟩ (by decide)) (by decide)

end Cleaner

end GoStream.Torrstor
