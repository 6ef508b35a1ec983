import GoStream.Foundations.Collections
import GoStream.Foundations.SliceSort
import GoStream.Torrstor.Reader

/-!
# Piece ranges
-/

namespace GoStream.Torrstor

open Foundations

structure Range where
  start : ℤ
  stop : ℤ
  file : TorrentFile
  deriving DecidableEq, Repr

def inRanges (ranges : List Range) (ind : ℤ) : Bool :=
  let i := search ranges.length fun i => (ranges[i]?.map fun r => decide (r.stop ≥ ind)).getD false
  match ranges[i]? with
  | some r => decide (r.start ≤ ind)
  | none => false

def rangeLess (a b : Range) : Bool :=
  decide (a.start < b.start) || (decide (a.start = b.start) && decide (a.stop < b.stop))

def mergeStep (s : List Range × ℕ) (i : ℕ) : List Range × ℕ :=
  match s.1[s.2]?, s.1[i]? with
  | some cur, some r =>
    if cur.stop ≥ r.start then
      if cur.stop < r.stop then (s.1.set s.2 { cur with stop := r.stop }, s.2) else s
    else (s.1.set (s.2 + 1) r, s.2 + 1)
  | _, _ => s

def mergeRange (S : SliceSort) (ranges : List Range) : List Range :=
  if ranges.length ≤ 1 then ranges
  else
    let merged := S.sort rangeLess ranges
    let s := (List.range' 1 (merged.length - 1)).foldl mergeStep (merged, 0)
    s.1.take (s.2 + 1)

def Range.extend (cur r : Range) : Range :=
  if cur.stop < r.stop then { cur with stop := r.stop } else cur

@[simp] theorem Range.start_extend (cur r : Range) : (cur.extend r).start = cur.start := by
  unfold extend
  split_ifs <;> rfl

@[simp] theorem Range.file_extend (cur r : Range) : (cur.extend r).file = cur.file := by
  unfold extend
  split_ifs <;> rfl

def mergeFrom (cur : Range) : List Range → List Range
  | [] => [cur]
  | r :: rest =>
    if cur.stop ≥ r.start then mergeFrom (cur.extend r) rest else cur :: mergeFrom r rest

def LeadsAfter (done l : List Range) (w : Range) : Prop :=
  ∃ before after, l = before ++ w :: after ∧ ∀ v ∈ done ++ before, v.stop < w.start

def Leads (l : List Range) (w : Range) : Prop := LeadsAfter [] l w

theorem foldl_mergeStep {rest : List Range} :
    ∀ {m : List Range} {i j : ℕ} {cur : Range}, m.drop i = rest → j < i → m[j]? = some cur →
      let s := (List.range' i rest.length).foldl mergeStep (m, j)
      s.1.take (s.2 + 1) = m.take j ++ mergeFrom cur rest := by
  induction rest with
  | nil =>
    intro m i j cur _ _ hcur
    simp [mergeFrom, List.take_add_one, hcur]
  | cons r rest ih =>
    intro m i j cur hdrop hj hcur
    have hr : m[i]? = some r := by
      have := congrArg List.head? hdrop
      simpa using this
    have hrest : m.drop (i + 1) = rest := by
      have := congrArg List.tail hdrop
      simpa using this
    simp only [List.length_cons, List.range'_succ, List.foldl_cons]
    by_cases hmerge : cur.stop ≥ r.start
    · by_cases hlonger : cur.stop < r.stop
      · have hstep : mergeStep (m, j) i = (m.set j { cur with stop := r.stop }, j) := by
          simp [mergeStep, hcur, hr, hmerge, hlonger]
        rw [hstep, mergeFrom, if_pos hmerge, Range.extend, if_pos hlonger,
          ih (by rw [List.drop_set_of_lt (by omega), hrest]) (by omega)
            (List.getElem?_set_self (List.getElem?_eq_some_iff.mp hcur).1),
          List.take_set_of_le le_rfl]
      · have hstep : mergeStep (m, j) i = (m, j) := by
          simp [mergeStep, hcur, hr, hmerge, hlonger]
        rw [hstep, mergeFrom, if_pos hmerge, Range.extend, if_neg hlonger, ih hrest (by omega) hcur]
    · have hstep : mergeStep (m, j) i = (m.set (j + 1) r, j + 1) := by
        simp [mergeStep, hcur, hr, hmerge]
      have hlen : i < m.length := (List.getElem?_eq_some_iff.mp hr).1
      rw [hstep, mergeFrom, if_neg hmerge,
        ih (by rw [List.drop_set_of_lt (by omega), hrest]) (by omega)
          (List.getElem?_set_self (by omega)),
        List.take_set_of_le le_rfl, List.take_add_one, hcur]
      simp

theorem mergeRange_eq (S : SliceSort) (ranges : List Range) :
    mergeRange S ranges = match S.sort rangeLess ranges with
      | [] => []
      | r :: rest => mergeFrom r rest := by
  unfold mergeRange
  split_ifs with hlen
  · -- zero or one range: the sort can only return the list itself
    have hperm := S.perm rangeLess ranges
    match ranges, hlen with
    | [], _ => rw [List.perm_nil.mp hperm]
    | [r], _ => rw [List.perm_singleton.mp hperm]; rfl
  · cases hsorted : S.sort rangeLess ranges with
    | nil =>
      have := S.length_sort rangeLess ranges
      rw [hsorted] at this
      simp only [List.length_nil] at this
      omega
    | cons r rest =>
      have := @foldl_mergeStep rest (r :: rest) 1 0 r rfl (by omega) rfl
      simpa using this

theorem ordersOn_rangeLess (l : List Range) : OrdersOn rangeLess l := by
  constructor
  · intro a _
    simp [rangeLess]
  · intro a _ b _ c _ hab hbc
    simp only [rangeLess, Bool.or_eq_true, Bool.and_eq_true, decide_eq_true_eq] at *
    omega
  · intro a _ b _ c _ hab hbc
    simp only [rangeLess, Bool.or_eq_false_iff, Bool.and_eq_false_iff, decide_eq_false_iff_not] at *
    omega

theorem pairwise_start_sort (S : SliceSort) (ranges : List Range) :
    (S.sort rangeLess ranges).Pairwise fun a b => a.start ≤ b.start := by
  refine (S.ascending rangeLess ranges (ordersOn_rangeLess ranges)).imp ?_
  intro a b h
  simp only [rangeLess, Bool.or_eq_false_iff, decide_eq_false_iff_not] at h
  omega

theorem leadsAfter_cons {done rest : List Range} {r w : Range} :
    LeadsAfter done (r :: rest) w ↔
      (w = r ∧ ∀ v ∈ done, v.stop < r.start) ∨ LeadsAfter (done ++ [r]) rest w := by
  constructor
  · rintro ⟨before, after, heq, hlead⟩
    rcases List.cons_eq_append_iff.mp heq with ⟨rfl, hcons⟩ | ⟨before', rfl, htail⟩
    · obtain ⟨rfl, rfl⟩ := List.cons.inj hcons
      exact .inl ⟨rfl, fun v hv => hlead v (by simp [hv])⟩
    · exact .inr ⟨before', after, htail, fun v hv => hlead v (by simpa using hv)⟩
  · rintro (⟨rfl, hlead⟩ | ⟨before, after, rfl, hlead⟩)
    · exact ⟨[], rest, rfl, fun v hv => hlead v (by simpa using hv)⟩
    · exact ⟨r :: before, after, rfl, fun v hv => hlead v (by simpa using hv)⟩

structure Reaches (done : List Range) (cur : Range) : Prop where
  within : ∀ v ∈ done, v.stop ≤ cur.stop ∨ v.stop < cur.start
  attained : ∃ v ∈ done, v.stop = cur.stop

namespace Reaches

variable {done : List Range} {cur r : Range}

theorem singleton (r : Range) : Reaches [r] r := ⟨by simp, by simp⟩

theorem not_leads (h : Reaches done cur) (hmerge : cur.stop ≥ r.start) :
    ¬ ∀ v ∈ done, v.stop < r.start := by
  intro hlead
  obtain ⟨v, hv, hstop⟩ := h.attained
  have := hlead v hv
  omega

theorem extend (h : Reaches done cur) : Reaches (done ++ [r]) (cur.extend r) := by
  unfold Range.extend
  split_ifs with hlonger
  · refine ⟨fun v hv => ?_, r, by simp, rfl⟩
    rcases List.mem_append.mp hv with hv | hv
    · rcases h.within v hv with hw | hw
      · exact .inl (by dsimp only; omega)
      · exact .inr hw
    · rw [List.mem_singleton.mp hv]
      exact .inl le_rfl
  · obtain ⟨u, hu, hstop⟩ := h.attained
    refine ⟨fun v hv => ?_, u, by simp [hu], hstop⟩
    rcases List.mem_append.mp hv with hv | hv
    · exact h.within v hv
    · rw [List.mem_singleton.mp hv]
      exact .inl (by omega)

theorem leads (h : Reaches done cur) (hstart : cur.start ≤ r.start) (hnew : cur.stop < r.start) :
    ∀ v ∈ done, v.stop < r.start := by
  intro v hv
  rcases h.within v hv with hw | hw <;> omega

theorem next (hlead : ∀ v ∈ done, v.stop < r.start) : Reaches (done ++ [r]) r := by
  refine ⟨fun v hv => ?_, r, by simp, rfl⟩
  rcases List.mem_append.mp hv with hv | hv
  · exact .inr (hlead v hv)
  · rw [List.mem_singleton.mp hv]
    exact .inl le_rfl

end Reaches

theorem exists_mem_mergeFrom {P : TorrentFile → Prop} {rest : List Range} :
    ∀ {cur : Range} {done : List Range}, Reaches done cur → (∀ r ∈ rest, cur.start ≤ r.start) →
      (rest.Pairwise fun a b => a.start ≤ b.start) →
      ((∃ g ∈ mergeFrom cur rest, P g.file) ↔
        P cur.file ∨ ∃ w, LeadsAfter done rest w ∧ P w.file) := by
  induction rest with
  | nil => intro cur done _ _ _; simp [mergeFrom, LeadsAfter]
  | cons r rest ih =>
    intro cur done hreach hstart hsorted
    obtain ⟨hr, hrest⟩ := List.pairwise_cons.mp hsorted
    have hcr : cur.start ≤ r.start := hstart r (by simp)
    rcases le_or_gt r.start cur.stop with hmerge | hnew
    · -- `r` is taken in: the group keeps its start and its file
      have hcur : ∀ w ∈ rest, (cur.extend r).start ≤ w.start := by
        intro w hw
        rw [Range.start_extend]
        exact hcr.trans (hr w hw)
      rw [mergeFrom, if_pos hmerge, ih hreach.extend hcur hrest, Range.file_extend]
      simp [leadsAfter_cons, hreach.not_leads hmerge]
    · -- `r` starts a group of its own
      have hlead := hreach.leads hcr hnew
      have hgroups : (∃ g ∈ cur :: mergeFrom r rest, P g.file) ↔
          P cur.file ∨ ∃ g ∈ mergeFrom r rest, P g.file := by simp
      rw [mergeFrom, if_neg (by omega), hgroups, ih (Reaches.next hlead) hr hrest]
      simp only [leadsAfter_cons, or_and_right, exists_or]
      have hself : (∃ w, (w = r ∧ ∀ v ∈ done, v.stop < r.start) ∧ P w.file) ↔ P r.file := by
        constructor
        · rintro ⟨w, ⟨rfl, _⟩, hP⟩
          exact hP
        · exact fun hP => ⟨r, ⟨rfl, hlead⟩, hP⟩
      rw [hself]

theorem exists_mem_mergeRange {S : SliceSort} {ranges : List Range} {P : TorrentFile → Prop} :
    (∃ g ∈ mergeRange S ranges, P g.file) ↔
      ∃ w, Leads (S.sort rangeLess ranges) w ∧ P w.file := by
  have hsorted := pairwise_start_sort S ranges
  rw [mergeRange_eq]
  cases hlist : S.sort rangeLess ranges with
  | nil => simp [Leads, LeadsAfter]
  | cons r rest =>
    rw [hlist] at hsorted
    obtain ⟨hr, hrest⟩ := List.pairwise_cons.mp hsorted
    dsimp only
    rw [exists_mem_mergeFrom (Reaches.singleton r) hr hrest]
    simp [Leads, leadsAfter_cons, or_and_right, exists_or]

end GoStream.Torrstor
