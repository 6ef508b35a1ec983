import Mathlib.Data.List.Sort
import Mathlib.Tactic

/-!
# What a comparison sort promises
-/

namespace GoStream.Foundations

structure OrdersOn {α : Type} (less : α → α → Bool) (l : List α) : Prop where
  irrefl : ∀ a ∈ l, less a a = false
  trans : ∀ a ∈ l, ∀ b ∈ l, ∀ c ∈ l, less a b = true → less b c = true → less a c = true
  negTrans : ∀ a ∈ l, ∀ b ∈ l, ∀ c ∈ l, less a b = false → less b c = false → less a c = false

def Ascending {α : Type} (less : α → α → Bool) (l : List α) : Prop :=
  l.Pairwise fun a b => less b a = false

structure SliceSort where
  sort : {α : Type} → (α → α → Bool) → List α → List α
  perm : ∀ {α : Type} (less : α → α → Bool) (l : List α), (sort less l).Perm l
  ascending : ∀ {α : Type} (less : α → α → Bool) (l : List α),
    OrdersOn less l → Ascending less (sort less l)

namespace SliceSort

variable (S : SliceSort) {α : Type} (less : α → α → Bool)

@[simp] theorem length_sort (l : List α) : (S.sort less l).length = l.length :=
  (S.perm less l).length_eq

@[simp] theorem mem_sort {l : List α} {a : α} : a ∈ S.sort less l ↔ a ∈ l :=
  (S.perm less l).mem_iff

theorem sort_eq_of_perm {l l' : List α} (ho : OrdersOn less l)
    (htotal : ∀ a ∈ l, ∀ b ∈ l, less a b = false → less b a = false → a = b) (h : l.Perm l') :
    S.sort less l = S.sort less l' := by
  have ho' : OrdersOn less l' :=
    ⟨fun a ha => ho.irrefl a (h.mem_iff.mpr ha),
      fun a ha b hb c hc => ho.trans a (h.mem_iff.mpr ha) b (h.mem_iff.mpr hb) c (h.mem_iff.mpr hc),
      fun a ha b hb c hc =>
        ho.negTrans a (h.mem_iff.mpr ha) b (h.mem_iff.mpr hb) c (h.mem_iff.mpr hc)⟩
  refine List.Perm.eq_of_pairwise ?_ (S.ascending less l ho) (S.ascending less l' ho')
    (((S.perm less l).trans h).trans (S.perm less l').symm)
  intro a b ha hb hba hab
  exact htotal a ((S.mem_sort less).mp ha) b (h.mem_iff.mpr ((S.mem_sort less).mp hb)) hab hba

def Incomparable (a b : α) : Prop := less a b = false ∧ less b a = false

def rank (l : List α) (a : α) : ℕ := l.countP fun b => less b a

variable {less}

theorem rank_le {l : List α} (ho : OrdersOn less l) {a b : α} (ha : a ∈ l) (hb : b ∈ l)
    (h : less b a = false) : rank less l a ≤ rank less l b := by
  refine List.countP_mono_left fun c hc hca => ?_
  by_contra hcb
  have hnot := ho.negTrans c hc b hb a ha (by simpa using hcb) h
  rw [hnot] at hca
  cases hca

theorem rank_lt {l : List α} (ho : OrdersOn less l) {a b : α} (ha : a ∈ l) (hb : b ∈ l)
    (h : less a b = true) : rank less l a < rank less l b := by
  have hle : ∀ c ∈ l, less c a = true → less c b = true := fun c hc hca =>
    ho.trans c hc a ha b hb hca h
  have hself := ho.irrefl a ha
  -- the element itself makes the difference
  obtain ⟨u, v, rfl⟩ := List.append_of_mem ha
  have hu : u.countP (fun c => less c a) ≤ u.countP fun c => less c b :=
    List.countP_mono_left fun c hc => hle c (by simp [hc])
  have hv : v.countP (fun c => less c a) ≤ v.countP fun c => less c b :=
    List.countP_mono_left fun c hc => hle c (by simp [hc])
  simp only [rank, List.countP_append, List.countP_cons, hself, h, if_true, Bool.false_eq_true,
    if_false]
  omega

theorem incomparable_of_rank_eq {l : List α} (ho : OrdersOn less l) {a b : α} (ha : a ∈ l)
    (hb : b ∈ l) (h : rank less l a = rank less l b) : Incomparable less a b := by
  constructor
  · by_contra hab
    exact absurd h (rank_lt ho ha hb (by simpa using hab)).ne
  · by_contra hba
    exact absurd h (rank_lt ho hb ha (by simpa using hba)).ne'

theorem pairwise_rank_sort {l l' : List α} (ho : OrdersOn less l) (h : l'.Perm l) :
    ((S.sort less l').map (rank less l)).Pairwise (· ≤ ·) := by
  have ho' : OrdersOn less l' :=
    ⟨fun a ha => ho.irrefl a (h.mem_iff.mp ha),
      fun a ha b hb c hc => ho.trans a (h.mem_iff.mp ha) b (h.mem_iff.mp hb) c (h.mem_iff.mp hc),
      fun a ha b hb c hc =>
        ho.negTrans a (h.mem_iff.mp ha) b (h.mem_iff.mp hb) c (h.mem_iff.mp hc)⟩
  rw [List.pairwise_map]
  refine (S.ascending less l' ho').imp_of_mem fun ha hb hba => ?_
  exact rank_le ho (h.mem_iff.mp ((S.mem_sort less).mp ha))
    (h.mem_iff.mp ((S.mem_sort less).mp hb)) hba

theorem forall₂_sort_of_perm (S' : SliceSort) {l l₁ l₂ : List α} (ho : OrdersOn less l)
    (h₁ : l₁.Perm l) (h₂ : l₂.Perm l) :
    List.Forall₂ (Incomparable less) (S.sort less l₁) (S'.sort less l₂) := by
  have hperm : (S.sort less l₁).Perm (S'.sort less l₂) :=
    ((S.perm less l₁).trans (h₁.trans h₂.symm)).trans (S'.perm less l₂).symm
  have hranks : (S.sort less l₁).map (rank less l) = (S'.sort less l₂).map (rank less l) :=
    List.Perm.eq_of_pairwise (fun a b _ _ hab hba => Nat.le_antisymm hab hba)
      (S.pairwise_rank_sort ho h₁) (S'.pairwise_rank_sort ho h₂) (hperm.map _)
  refine List.forall₂_iff_zip.mpr ⟨hperm.length_eq, fun {a b} hab => ?_⟩
  obtain ⟨ha, hb⟩ := List.of_mem_zip hab
  refine incomparable_of_rank_eq ho (h₁.mem_iff.mp ((S.mem_sort less).mp ha))
    (h₂.mem_iff.mp ((S'.mem_sort less).mp hb)) ?_
  have hsame : List.Forall₂ (· = ·) ((S.sort less l₁).map (rank less l))
      ((S'.sort less l₂).map (rank less l)) := by
    rw [List.forall₂_eq_eq_eq]
    exact hranks
  rw [List.forall₂_map_left_iff, List.forall₂_map_right_iff] at hsame
  exact (List.forall₂_iff_zip.mp hsame).2 hab

end SliceSort

def insertDown {α : Type} (less : α → α → Bool) (x : α) : List α → List α
  | [] => [x]
  | y :: ys => if less x y then y :: insertDown less x ys else x :: y :: ys

def insertionSort {α : Type} (less : α → α → Bool) (l : List α) : List α :=
  (l.foldl (fun acc x => insertDown less x acc) []).reverse

section Insertion

variable {α : Type} {less : α → α → Bool}

theorem perm_insertDown (x : α) : ∀ l : List α, (insertDown less x l).Perm (x :: l)
  | [] => .refl _
  | y :: ys => by
    unfold insertDown
    split_ifs
    · exact ((perm_insertDown x ys).cons y).trans (.swap x y ys)
    · exact .refl _

theorem perm_foldl_insertDown : ∀ (l acc : List α),
    (l.foldl (fun acc x => insertDown less x acc) acc).Perm (l ++ acc)
  | [], acc => .refl _
  | x :: l, acc => by
    refine (perm_foldl_insertDown l (insertDown less x acc)).trans ?_
    exact ((perm_insertDown x acc).append_left l).trans List.perm_middle

theorem descending_insertDown {l : List α} (hl : OrdersOn less l) {x : α} {acc : List α}
    (hx : x ∈ l) (hacc : ∀ a ∈ acc, a ∈ l) (hd : acc.Pairwise fun a b => less a b = false) :
    (insertDown less x acc).Pairwise fun a b => less a b = false := by
  induction acc with
  | nil => simp [insertDown]
  | cons y ys ih =>
    have hy : y ∈ l := hacc y (by simp)
    rw [List.pairwise_cons] at hd
    unfold insertDown
    split_ifs with h
    · refine List.pairwise_cons.mpr ⟨fun z hz => ?_, ih (fun a ha => hacc a (by simp [ha])) hd.2⟩
      rcases List.mem_cons.mp ((perm_insertDown x ys).mem_iff.mp hz) with rfl | hz
      · -- `x < y` rules out `y < x`, else `x < x`
        by_contra hlt
        have := hl.trans z hx y hy z hx h (by simpa using hlt)
        simp [hl.irrefl z hx] at this
      · exact hd.1 z hz
    · have hxy : less x y = false := by simpa using h
      refine List.pairwise_cons.mpr ⟨fun z hz => ?_, List.pairwise_cons.mpr hd⟩
      rcases List.mem_cons.mp hz with rfl | hz
      · exact hxy
      · exact hl.negTrans x hx y hy z (hacc z (by simp [hz])) hxy (hd.1 z hz)

theorem descending_foldl_insertDown {l : List α} (hl : OrdersOn less l) :
    ∀ (xs acc : List α), (∀ a ∈ xs, a ∈ l) → (∀ a ∈ acc, a ∈ l) →
      (acc.Pairwise fun a b => less a b = false) →
      (xs.foldl (fun acc x => insertDown less x acc) acc).Pairwise fun a b => less a b = false
  | [], _, _, _, hd => hd
  | x :: xs, acc, hxs, hacc, hd => by
    refine descending_foldl_insertDown hl xs _ (fun a ha => hxs a (by simp [ha])) (fun a ha => ?_)
      (descending_insertDown hl (hxs x (by simp)) hacc hd)
    rcases List.mem_cons.mp ((perm_insertDown x acc).mem_iff.mp ha) with rfl | ha
    · exact hxs a (by simp)
    · exact hacc a ha

end Insertion

def SliceSort.insertion : SliceSort where
  sort := insertionSort
  perm := fun less l => by
    have h := @perm_foldl_insertDown _ less l []
    rw [List.append_nil] at h
    exact (List.reverse_perm _).trans h
  ascending := fun less l hl => by
    refine List.pairwise_reverse.mpr ?_
    exact descending_foldl_insertDown hl l [] (fun _ h => h) (by simp) .nil

end GoStream.Foundations
