import GoStream.Torrstor.Cache

/-!
# Which pieces are evicted
-/

namespace GoStream.Torrstor

open Foundations

section Protection

variable (L : Layout)

def inFile (file : TorrentFile) (id : ℤ) : Bool :=
  decide (file.offset.tdiv L.pieceLength ≤ id ∧
    id ≤ (file.offset + file.length).tdiv L.pieceLength)

def inWindow (windows : List Range) (id : ℤ) : Bool :=
  windows.any fun w => decide (w.start ≤ id ∧ id ≤ w.stop)

def isProtected (windows : List Range) (id : ℤ) : Bool :=
  inWindow windows id || isIdInFileBE L windows id

variable {L}

theorem markFile_apply (bitmap : Fin L.pieceCount → Bool) (rng : Range) (i : Fin L.pieceCount) :
    markFile L bitmap rng i = (bitmap i || inFile L rng.file i) := by
  have hi := i.isLt
  simp only [markFile, mark, inFile]
  congr 1
  rw [decide_eq_decide]
  split_ifs <;> omega

theorem foldl_markFile (ranges : List Range) (bitmap : Fin L.pieceCount → Bool)
    (i : Fin L.pieceCount) :
    ranges.foldl (markFile L) bitmap i = (bitmap i || ranges.any fun rng => inFile L rng.file i) := by
  induction ranges generalizing bitmap with
  | nil => simp
  | cons rng ranges ih => rw [List.foldl_cons, ih, markFile_apply, List.any_cons, Bool.or_assoc]

theorem rebuildBitmap_apply (ranges : List Range) (i : Fin L.pieceCount) :
    rebuildBitmap L ranges i = ranges.any fun rng => inFile L rng.file i := by
  rw [rebuildBitmap, foldl_markFile, Bool.false_or]

theorem inFile_of_getPiecesRange {B : BTSets} {r : Reader} {capacity useReaders id : ℤ}
    (h : (r.getPiecesRange L B capacity useReaders).start ≤ id ∧
      id ≤ (r.getPiecesRange L B capacity useReaders).stop) : inFile L r.file id = true := by
  have hbegin : 0 ≤ (r.getOffsetRange B capacity useReaders).1 := by
    unfold Reader.getOffsetRange
    dsimp only
    split_ifs <;> omega
  have hend : (r.getOffsetRange B capacity useReaders).2 ≤ r.file.length := by
    unfold Reader.getOffsetRange
    dsimp only
    split_ifs <;> omega
  simp only [Reader.getPiecesRange, Reader.getPieceNum] at h
  rw [inFile, decide_eq_true_eq]
  constructor
  · exact (Int.tdiv_le_tdiv L.pos (by omega)).trans h.1
  · exact h.2.trans (Int.tdiv_le_tdiv L.pos (by omega))

end Protection

namespace Cache

variable {L : Layout} (B : BTSets) (c : Cache L)

def windows (e : Scan) : List Range := (c.useRanges B e.readers e.clock).2

def unprotected (windows : List Range) : List (Fin L.pieceCount) :=
  (List.finRange L.pieceCount).filter fun i =>
    decide ((c.pieces i).size > 0) && !isProtected L windows i

def NoneExtra (S : SliceSort) (e : Scan) : Prop :=
  ∀ i, (c.pieces i).size > 0 → ∀ w, Leads (S.sort rangeLess (c.windows B e)) w →
    inFile L w.file i = true → isProtected L (c.windows B e) i = true

def NoneMissed (S : SliceSort) (e : Scan) : Prop :=
  ∀ i, (c.pieces i).size > 0 → isProtected L (c.windows B e) i = true →
    ∃ w, Leads (S.sort rangeLess (c.windows B e)) w ∧
      (inFile L w.file i = true ∨ inFileBE L w.file i = true)

variable {B c} {S : SliceSort} {e : Scan}

theorem mem_getRemPieces (hopen : c.isClosed = false) {i : Fin L.pieceCount} :
    i ∈ (c.getRemPieces B S e).2 ↔ (c.pieces i).size > 0 ∧
      ¬ ∃ w, Leads (S.sort rangeLess (c.windows B e)) w ∧
        (inFile L w.file i = true ∨ inFileBE L w.file i = true) := by
  have hids : i ∈ e.pieces.arrange (List.finRange L.pieceCount) :=
    (e.pieces.perm _).mem_iff.mpr (List.mem_finRange i)
  have hkept : (∃ w, Leads (S.sort rangeLess (c.windows B e)) w ∧
      (inFile L w.file i = true ∨ inFileBE L w.file i = true)) ↔
      rebuildBitmap L (mergeRange S (c.windows B e)) i = true ∨
        isIdInFileBE L (mergeRange S (c.windows B e)) i = true := by
    rw [← @exists_mem_mergeRange S (c.windows B e)
      (fun f => inFile L f i = true ∨ inFileBE L f i = true), rebuildBitmap_apply, isIdInFileBE,
      List.any_eq_true, List.any_eq_true, ← exists_or]
    simp only [and_or_left]
  rw [hkept]
  simp only [getRemPieces, hopen, Bool.false_eq_true, if_false, SliceSort.mem_sort, List.mem_filter,
    hids, true_and, Bool.and_eq_true, Bool.not_eq_true', decide_eq_true_eq, windows, not_or,
    Bool.not_eq_true]
  tauto

theorem nodup_getRemPieces : (c.getRemPieces B S e).2.Nodup := by
  unfold getRemPieces
  split_ifs
  · exact List.nodup_nil
  · have hids : (e.pieces.arrange (List.finRange L.pieceCount)).Nodup :=
      (e.pieces.perm _).nodup_iff.mpr (List.nodup_finRange _)
    exact (S.perm _ _).nodup_iff.mpr (hids.filter _)

theorem mem_unprotected {windows : List Range} {i : Fin L.pieceCount} :
    i ∈ c.unprotected windows ↔ (c.pieces i).size > 0 ∧ isProtected L windows i = false := by
  simp [unprotected]

theorem nodup_unprotected (windows : List Range) : (c.unprotected windows).Nodup :=
  (List.nodup_finRange _).filter _

theorem isProtected_of_leads {windows : List Range} {w : Range} {id : ℤ}
    (hw : Leads (S.sort rangeLess windows) w) (hzone : inFileBE L w.file id = true) :
    isProtected L windows id = true := by
  obtain ⟨before, after, hsorted, _⟩ := hw
  have hmem : w ∈ windows := (S.mem_sort rangeLess).mp (by rw [hsorted]; simp)
  have : isIdInFileBE L windows id = true := List.any_eq_true.mpr ⟨w, hmem, hzone⟩
  rw [isProtected, this, Bool.or_true]

/-- When exactly the unprotected pieces are evicted. -/
theorem getRemPieces_perm_iff (B : BTSets) (S : SliceSort) (c : Cache L) (e : Scan)
    (hopen : c.isClosed = false) :
    (c.getRemPieces B S e).2.Perm (c.unprotected (c.windows B e)) ↔
      c.NoneExtra B S e ∧ c.NoneMissed B S e := by
  constructor
  · intro hperm
    have hsame : ∀ i, i ∈ (c.getRemPieces B S e).2 ↔ i ∈ c.unprotected (c.windows B e) :=
      fun i => hperm.mem_iff
    simp only [mem_getRemPieces hopen, mem_unprotected] at hsame
    constructor
    · intro i hsize w hw hfile
      by_contra hunprotected
      exact ((hsame i).mpr ⟨hsize, by simpa using hunprotected⟩).2 ⟨w, hw, .inl hfile⟩
    · intro i hsize hprotected
      by_contra hmissed
      have := ((hsame i).mp ⟨hsize, hmissed⟩).2
      rw [hprotected] at this
      cases this
  · rintro ⟨hextra, hmissed⟩
    refine (List.perm_ext_iff_of_nodup nodup_getRemPieces (nodup_unprotected _)).mpr fun i => ?_
    rw [mem_getRemPieces hopen, mem_unprotected]
    refine and_congr_right fun hsize => ?_
    constructor
    · intro hnone
      by_contra hprotected
      exact hnone (hmissed i hsize (by simpa using hprotected))
    · rintro hunprotected ⟨w, hw, hfile | hzone⟩
      · rw [hextra i hsize w hw hfile] at hunprotected
        cases hunprotected
      · rw [isProtected_of_leads hw hzone] at hunprotected
        cases hunprotected

variable (B c) in
def WindowOf (readers : List (ℕ × Reader)) (w : Range) : Prop :=
  ∃ (r : Reader) (useReaders : ℤ), w = r.getPiecesRange L B c.capacity useReaders ∧
    ∃ p ∈ readers, r.file = p.2.file

theorem windowOf_of_mem_checkReaders {clock : ℕ → ℤ} {w : Range} {readers : List (ℕ × Reader)} :
    ∀ {active : ℤ}, w ∈ (c.checkReaders B clock readers active).2.2 → c.WindowOf B readers w := by
  induction readers with
  | nil => simp [checkReaders]
  | cons p rest ih =>
    obtain ⟨key, r⟩ := p
    intro active hw
    have hfile : (r.checkReader (clock key) c.readers.length).1.file = r.file := by
      unfold Reader.checkReader
      split_ifs <;> simp
    have hrest : c.WindowOf B rest w → c.WindowOf B ((key, r) :: rest) w := by
      rintro ⟨r, useReaders, hwindow, p, hp, hfile⟩
      exact ⟨r, useReaders, hwindow, p, List.mem_cons_of_mem _ hp, hfile⟩
    simp only [checkReaders] at hw
    split_ifs at hw
    · rcases List.mem_cons.mp hw with rfl | hw
      · exact ⟨_, _, rfl, (key, r), by simp, hfile⟩
      · exact hrest (ih hw)
    · exact hrest (ih hw)

/-- While all readers read one file, no protected piece is evicted. -/
theorem not_mem_getRemPieces_of_one_file (hopen : c.isClosed = false) {file : TorrentFile}
    (hfile : ∀ p ∈ c.readers, p.2.file = file) {i : Fin L.pieceCount}
    (hi : isProtected L (c.windows B e) i = true) : i ∉ (c.getRemPieces B S e).2 := by
  have hreader : ∀ w ∈ c.windows B e, w.file = file ∧
      (w.start ≤ (i : ℤ) ∧ (i : ℤ) ≤ w.stop → inFile L file i = true) := by
    intro w hw
    obtain ⟨r, useReaders, rfl, p, hp, hr⟩ := windowOf_of_mem_checkReaders hw
    have hr : r.file = file := hr.trans (hfile p ((e.readers.perm _).mem_iff.mp hp))
    exact ⟨hr, fun hin => hr ▸ inFile_of_getPiecesRange hin⟩
  -- the piece is in the file or in one of its zones
  have hkept : inFile L file i = true ∨ inFileBE L file i = true := by
    rcases Bool.or_eq_true_iff.mp hi with hwindow | hzone
    · obtain ⟨w, hw, hin⟩ := List.any_eq_true.mp hwindow
      exact .inl ((hreader w hw).2 (of_decide_eq_true hin))
    · obtain ⟨w, hw, hin⟩ := List.any_eq_true.mp hzone
      exact .inr ((hreader w hw).1 ▸ hin)
  -- and the first of the sorted windows leads
  have hleads : ∃ w, Leads (S.sort rangeLess (c.windows B e)) w ∧ w.file = file := by
    cases hsorted : S.sort rangeLess (c.windows B e) with
    | nil =>
      have hnil : c.windows B e = [] := List.perm_nil.mp (hsorted ▸ (S.perm rangeLess _).symm)
      rw [hnil] at hi
      cases hi
    | cons w rest =>
      have hw : w ∈ c.windows B e := (S.mem_sort rangeLess).mp (by rw [hsorted]; simp)
      exact ⟨w, ⟨[], rest, rfl, by simp⟩, (hreader w hw).1⟩
  intro hmem
  obtain ⟨w, hw, hwfile⟩ := hleads
  exact ((mem_getRemPieces hopen).mp hmem).2 ⟨w, hw, by rw [hwfile]; exact hkept⟩

def layout : Layout := ⟨16777216, 16, by decide⟩

def settings : BTSets := ⟨75, 25, fun x prc => x * 85 * prc / 10000, fun x => x * 8 / 10⟩

def listed : Scan := ⟨.listed, .listed, .listed, .listed, fun _ => 0, fun _ => 0⟩

def firstReader : Reader := { newReader ⟨0, 134217728⟩ with offset := 133169152 }

def secondReader : Reader := { newReader ⟨134217728, 134217728⟩ with offset := 16777216 }

def filledCache (readers : List (ℕ × Reader)) (full : Fin 16 → Bool) : Cache layout where
  capacity := 16777216
  filled := 0
  pieces := fun i => ⟨if full i then 16777216 else 0, full i, i⟩
  readers := readers
  activeReaders := readers.length
  isClosed := false
  isAggressive := true
  masterLimit := 0
  hasTorrent := true
  localPriority := fun _ => none
  priority := fun _ => .none
  pieceInRange := fun _ => false

theorem getRemPieces_perm_iff_near :
    let c := filledCache [(0, firstReader)] fun i => 7 ≤ i
    (c.getRemPieces settings .insertion listed).2.map Fin.val = [9, 10, 11, 12, 13, 14, 15] ∧
      c.NoneExtra settings .insertion listed ∧ c.NoneMissed settings .insertion listed :=
  ⟨by decide, (getRemPieces_perm_iff settings .insertion _ listed rfl).mp (by decide)⟩

theorem not_mem_getRemPieces_near :
    let c := filledCache [(0, firstReader)] fun _ => true
    isProtected layout (c.windows settings listed) 8 = true ∧
      (8 : Fin 16) ∉ (c.getRemPieces settings .insertion listed).2 :=
  ⟨by decide, not_mem_getRemPieces_of_one_file rfl
    (fun _ hp => by rw [List.mem_singleton.mp hp]) (by decide)⟩

theorem getRemPieces_not_exact :
    ¬ ∀ (c : Cache layout), c.isClosed = false →
      (c.getRemPieces settings .insertion listed).2.Perm
        (c.unprotected (c.windows settings listed)) := by
  intro h
  have hperm := h (filledCache [(0, firstReader), (1, secondReader)] fun _ => true) rfl
  have hevicted := hperm.mem_iff (a := ⟨9, by decide⟩)
  exact absurd (hevicted.mp (by decide)) (by decide)

end Cache

end GoStream.Torrstor
