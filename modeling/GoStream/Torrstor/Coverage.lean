import GoStream.Torrstor.Ranges

/-!
# What merged ranges cover
-/

namespace GoStream.Torrstor

open Foundations

variable {cur r : Range} {rest ranges : List Range} {i : ℤ}

def Range.Covers (r : Range) (i : ℤ) : Prop := r.start ≤ i ∧ i ≤ r.stop

def Apart (ranges : List Range) : Prop := ranges.Pairwise fun a b => a.stop < b.start

def endsFrom (ranges : List Range) (i : ℤ) (k : ℕ) : Bool :=
  (ranges[k]?.map fun r : Range => decide (r.stop ≥ i)).getD false

theorem endsFrom_iff {k : ℕ} (hk : k < ranges.length) :
    endsFrom ranges i k = true ↔ i ≤ ranges[k].stop := by
  simp [endsFrom, hk]

theorem splits_endsFrom (hvalid : ∀ r ∈ ranges, r.start ≤ r.stop) (hsep : Apart ranges) :
    Splits (endsFrom ranges i) ranges.length (search ranges.length (endsFrom ranges i)) := by
  apply splits_search
  intro j k hjk hk hj
  rw [endsFrom_iff (hjk.trans_lt hk)] at hj
  rw [endsFrom_iff hk]
  rcases hjk.eq_or_lt with rfl | hlt
  · exact hj
  · have hnext := List.pairwise_iff_getElem.mp hsep j k (by omega) hk hlt
    have hlast := hvalid ranges[k] (List.getElem_mem hk)
    omega

theorem inRanges_eq_true : inRanges ranges i = true ↔
    ∃ r, ranges[search ranges.length (endsFrom ranges i)]? = some r ∧ r.start ≤ i := by
  have hasks : (fun k => (ranges[k]?.map fun r : Range => decide (r.stop ≥ i)).getD false) =
      endsFrom ranges i := rfl
  unfold inRanges
  dsimp only
  rw [hasks]
  cases ranges[search ranges.length (endsFrom ranges i)]? <;> simp

theorem inRanges_iff (hvalid : ∀ r ∈ ranges, r.start ≤ r.stop) (hsep : Apart ranges) :
    inRanges ranges i = true ↔ ∃ r ∈ ranges, r.Covers i := by
  have hsplits := splits_endsFrom (i := i) hvalid hsep
  rw [inRanges_eq_true]
  constructor
  · rintro ⟨r, hr, hstart⟩
    obtain ⟨hk, rfl⟩ := List.getElem?_eq_some_iff.mp hr
    exact ⟨_, List.getElem_mem hk, hstart, (endsFrom_iff hk).mp (hsplits.above _ le_rfl hk)⟩
  · rintro ⟨r, hr, hstart, hstop⟩
    obtain ⟨k, hk, rfl⟩ := List.getElem_of_mem hr
    -- the search does not pass this range, which ends late enough
    have hle : search ranges.length (endsFrom ranges i) ≤ k := by
      by_contra hlt
      have hnot := hsplits.below k (by omega)
      rw [(endsFrom_iff hk).mpr hstop] at hnot
      cases hnot
    have hlen := hle.trans_lt hk
    refine ⟨_, List.getElem?_eq_getElem hlen, ?_⟩
    rcases hle.eq_or_lt with heq | hlt
    · simpa only [heq] using hstart
    · have hnext := List.pairwise_iff_getElem.mp hsep _ k hlen hk hlt
      have hfirst := hvalid _ (List.getElem_mem hlen)
      omega

theorem covers_of_inRanges (h : inRanges ranges i = true) : ∃ r ∈ ranges, r.Covers i := by
  obtain ⟨r, hr, hstart⟩ := inRanges_eq_true.mp h
  obtain ⟨hk, rfl⟩ := List.getElem?_eq_some_iff.mp hr
  have hsearch : search ranges.length (endsFrom ranges i) = ranges.length ∨
      endsFrom ranges i (search ranges.length (endsFrom ranges i)) = true :=
    found_searchFrom (by omega) (by omega)
  rcases hsearch with hend | hfound
  · omega
  · exact ⟨_, List.getElem_mem hk, hstart, (endsFrom_iff hk).mp hfound⟩

theorem Range.covers_extend (hstart : cur.start ≤ r.start) (hmerge : cur.stop ≥ r.start) :
    (cur.extend r).Covers i ↔ cur.Covers i ∨ r.Covers i := by
  unfold Range.extend Range.Covers
  split_ifs
  · dsimp only
    omega
  · omega

theorem Range.valid_extend (hcur : cur.start ≤ cur.stop) :
    (cur.extend r).start ≤ (cur.extend r).stop := by
  unfold Range.extend
  split_ifs with hlonger
  · exact hcur.trans hlonger.le
  · exact hcur

theorem covers_mergeFrom (hstart : ∀ r ∈ rest, cur.start ≤ r.start)
    (hsorted : rest.Pairwise fun a b => a.start ≤ b.start) :
    (∃ g ∈ mergeFrom cur rest, g.Covers i) ↔ cur.Covers i ∨ ∃ r ∈ rest, r.Covers i := by
  induction rest generalizing cur with
  | nil => simp [mergeFrom]
  | cons r rest ih =>
    obtain ⟨hr, hrest⟩ := List.pairwise_cons.mp hsorted
    have hcr : cur.start ≤ r.start := hstart r List.mem_cons_self
    rw [mergeFrom]
    split_ifs with hmerge
    · have hlow : ∀ w ∈ rest, (cur.extend r).start ≤ w.start := by
        intro w hw
        rw [Range.start_extend]
        exact hcr.trans (hr w hw)
      rw [ih hlow hrest, Range.covers_extend hcr hmerge]
      simp [or_assoc]
    · have hgroups := ih hr hrest
      simp only [List.mem_cons, exists_eq_or_imp, hgroups]

theorem separated_mergeFrom (hcur : cur.start ≤ cur.stop) (hvalid : ∀ r ∈ rest, r.start ≤ r.stop)
    (hstart : ∀ r ∈ rest, cur.start ≤ r.start)
    (hsorted : rest.Pairwise fun a b => a.start ≤ b.start) :
    (∀ g ∈ mergeFrom cur rest, cur.start ≤ g.start ∧ g.start ≤ g.stop) ∧
      Apart (mergeFrom cur rest) := by
  induction rest generalizing cur with
  | nil => simp [mergeFrom, Apart, hcur]
  | cons r rest ih =>
    obtain ⟨hr, hrest⟩ := List.pairwise_cons.mp hsorted
    have hcr : cur.start ≤ r.start := hstart r List.mem_cons_self
    have hvalid' : ∀ w ∈ rest, w.start ≤ w.stop := fun w hw => hvalid w (List.mem_cons_of_mem _ hw)
    rw [mergeFrom]
    split_ifs with hmerge
    · have hlow : ∀ w ∈ rest, (cur.extend r).start ≤ w.start := by
        intro w hw
        rw [Range.start_extend]
        exact hcr.trans (hr w hw)
      have hgroups := ih (Range.valid_extend hcur) hvalid' hlow hrest
      rwa [Range.start_extend] at hgroups
    · obtain ⟨hbounds, hsep⟩ := ih (hvalid r List.mem_cons_self) hvalid' hr hrest
      constructor
      · intro g hg
        rcases List.mem_cons.mp hg with rfl | hg
        · exact ⟨le_rfl, hcur⟩
        · exact ⟨hcr.trans (hbounds g hg).1, (hbounds g hg).2⟩
      · refine List.pairwise_cons.mpr ⟨fun g hg => ?_, hsep⟩
        have hlow := (hbounds g hg).1
        omega

theorem covers_mergeRange (S : SliceSort) :
    (∃ g ∈ mergeRange S ranges, g.Covers i) ↔ ∃ r ∈ ranges, r.Covers i := by
  have hmem : ∀ r, r ∈ S.sort rangeLess ranges ↔ r ∈ ranges := fun r => S.mem_sort rangeLess
  have hsorted := pairwise_start_sort S ranges
  rw [mergeRange_eq]
  simp only [← hmem]
  cases hlist : S.sort rangeLess ranges with
  | nil => simp
  | cons r rest =>
    rw [hlist] at hsorted
    obtain ⟨hr, hrest⟩ := List.pairwise_cons.mp hsorted
    dsimp only
    rw [covers_mergeFrom hr hrest]
    simp

theorem separated_mergeRange (S : SliceSort) (hvalid : ∀ r ∈ ranges, r.start ≤ r.stop) :
    (∀ g ∈ mergeRange S ranges, g.start ≤ g.stop) ∧ Apart (mergeRange S ranges) := by
  have hmem : ∀ r, r ∈ S.sort rangeLess ranges ↔ r ∈ ranges := fun r => S.mem_sort rangeLess
  have hsorted := pairwise_start_sort S ranges
  rw [mergeRange_eq]
  simp only [← hmem] at hvalid
  cases hlist : S.sort rangeLess ranges with
  | nil => simp [Apart]
  | cons r rest =>
    rw [hlist] at hsorted hvalid
    obtain ⟨hr, hrest⟩ := List.pairwise_cons.mp hsorted
    obtain ⟨hbounds, hsep⟩ := separated_mergeFrom (hvalid r List.mem_cons_self)
      (fun w hw => hvalid w (List.mem_cons_of_mem _ hw)) hr hrest
    exact ⟨fun g hg => (hbounds g hg).2, hsep⟩

abbrev Arrays := List (List Range)

structure RangeSlice where
  array : ℕ
  off : ℕ
  len : ℕ
  deriving DecidableEq

def RangeSlice.read (s : RangeSlice) (h : Arrays) : List Range :=
  (((h[s.array]?).getD []).drop s.off).take s.len

def mergeSlice (S : SliceSort) (h : Arrays) (s : RangeSlice) : Arrays × RangeSlice :=
  if (s.read h).length ≤ 1 then (h, s)
  else
    let merged := S.sort rangeLess (s.read h)
    let m := (List.range' 1 (merged.length - 1)).foldl mergeStep (merged, 0)
    (h ++ [m.1], ⟨h.length, 0, m.2 + 1⟩)

theorem read_mergeSlice (S : SliceSort) (h : Arrays) (s : RangeSlice) :
    (mergeSlice S h s).2.read (mergeSlice S h s).1 = mergeRange S (s.read h) := by
  unfold mergeSlice mergeRange
  split_ifs <;> simp [RangeSlice.read]

theorem prefix_mergeSlice (S : SliceSort) (h : Arrays) (s : RangeSlice) :
    h <+: (mergeSlice S h s).1 := by
  unfold mergeSlice
  split_ifs
  · exact List.prefix_rfl
  · exact List.prefix_append h _

/-- Merged ranges are in order and cover the same. -/
theorem mergeRange_covers (S : SliceSort) (h : Arrays) (s : RangeSlice)
    (hvalid : ∀ r ∈ s.read h, r.start ≤ r.stop) :
    ((mergeSlice S h s).2.read (mergeSlice S h s).1).Pairwise (fun a b => a.start ≤ b.start) ∧
      Apart ((mergeSlice S h s).2.read (mergeSlice S h s).1) ∧
      (∀ i, inRanges ((mergeSlice S h s).2.read (mergeSlice S h s).1) i = true ↔
        ∃ r ∈ s.read h, r.start ≤ i ∧ i ≤ r.stop) ∧
      h <+: (mergeSlice S h s).1 := by
  rw [read_mergeSlice]
  obtain ⟨hbounds, hsep⟩ := separated_mergeRange S hvalid
  refine ⟨?_, hsep, fun i => ?_, prefix_mergeSlice S h s⟩
  · refine List.Pairwise.imp_of_mem ?_ hsep
    intro a b ha _ hab
    exact (hbounds a ha).trans hab.le
  · rw [inRanges_iff hbounds hsep, covers_mergeRange]
    rfl

def threeRanges : Arrays := [[], [⟨4, 9, ⟨0, 9⟩⟩, ⟨0, 5, ⟨0, 9⟩⟩, ⟨12, 12, ⟨9, 3⟩⟩]]

theorem mergeRange_covers_three :
    (∀ r ∈ RangeSlice.read ⟨1, 0, 3⟩ threeRanges, r.start ≤ r.stop) ∧
      ∀ i, inRanges ((mergeSlice .insertion threeRanges ⟨1, 0, 3⟩).2.read
        (mergeSlice .insertion threeRanges ⟨1, 0, 3⟩).1) i = true ↔
          ∃ r ∈ RangeSlice.read ⟨1, 0, 3⟩ threeRanges, r.start ≤ i ∧ i ≤ r.stop :=
  ⟨by decide, (mergeRange_covers .insertion threeRanges ⟨1, 0, 3⟩ (by decide)).2.2.1⟩

end GoStream.Torrstor
