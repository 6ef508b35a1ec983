import Mathlib.Data.List.Perm.Basic
import Mathlib.Tactic

/-!
# Maps in any order, and binary search
-/

namespace GoStream.Foundations

structure MapOrder where
  arrange : {α : Type} → List α → List α
  perm : ∀ {α : Type} (l : List α), (arrange l).Perm l

def MapOrder.listed : MapOrder := ⟨fun l => l, fun _ => .refl _⟩

theorem MapOrder.mem_arrange (order : MapOrder) {α : Type} {l : List α} {a : α} :
    a ∈ order.arrange l ↔ a ∈ l := (order.perm l).mem_iff

def MapOrder.startingAt (i : ℕ) : MapOrder := ⟨fun l => l.rotate i, fun l => l.rotate_perm i⟩

theorem MapOrder.exists_first {α : Type} {l : List α} {a : α} (h : a ∈ l) :
    ∃ (order : MapOrder) (rest : List α), order.arrange l = a :: rest := by
  obtain ⟨i, hi, rfl⟩ := List.mem_iff_getElem.mp h
  have hdrop := List.drop_eq_getElem_cons hi
  refine ⟨startingAt i, l.drop (i + 1) ++ l.take i, ?_⟩
  change l.rotate i = _
  rw [List.rotate_eq_drop_append_take hi.le, hdrop, List.cons_append]

theorem filter_eq_self_of_forall {α : Type*} {o : Option α} {p : α → Bool}
    (h : ∀ a, o = some a → p a = true) : o.filter p = o := by
  cases o with
  | none => rfl
  | some a => exact Option.filter_some_pos (h a rfl)

theorem getElem?_append_one {α : Type*} {l : List α} {x a : α} {i : ℕ} :
    (l ++ [x])[i]? = some a ↔ l[i]? = some a ∨ i = l.length ∧ a = x := by
  rw [List.getElem?_append]
  split_ifs with hlt
  · have hne : i ≠ l.length := by omega
    simp [hne]
  · have hnone : l[i]? = none := List.getElem?_eq_none (by omega)
    rw [hnone, List.getElem?_singleton]
    split_ifs with hlast
    · have heq : i = l.length := by omega
      simp [heq, eq_comm]
    · have hne : i ≠ l.length := by omega
      simp [hne]

section Picking

variable {α : Type}

def firstBest (mark : α → ℕ) (l : List α) : Option α :=
  l.foldl (fun best a => if best.elim 0 mark < mark a then some a else best) none

structure IsBest (mark : α → ℕ) (l : List α) (a : α) : Prop where
  mem : a ∈ l
  pos : 0 < mark a
  le : ∀ b ∈ l, mark b ≤ mark a

variable {mark : α → ℕ} {l : List α} {a : α}

theorem firstBest_append_singleton (l : List α) (a : α) : firstBest mark (l ++ [a]) =
    if (firstBest mark l).elim 0 mark < mark a then some a else firstBest mark l := by
  rw [firstBest, List.foldl_append]
  rfl

theorem mark_le_firstBest {b : α} (h : b ∈ l) : mark b ≤ (firstBest mark l).elim 0 mark := by
  induction l using List.reverseRecOn with
  | nil => cases h
  | append_singleton l a ih =>
    rw [firstBest_append_singleton]
    rcases List.mem_append.mp h with hl | ha
    · have hle := ih hl
      split_ifs with hlt
      · exact hle.trans hlt.le
      · exact hle
    · obtain rfl := List.mem_singleton.mp ha
      split_ifs with hlt
      · exact le_rfl
      · omega

theorem mem_of_firstBest (h : firstBest mark l = some a) : a ∈ l ∧ 0 < mark a := by
  induction l using List.reverseRecOn with
  | nil => cases h
  | append_singleton l b ih =>
    rw [firstBest_append_singleton] at h
    split_ifs at h with hlt
    · obtain rfl := Option.some.inj h
      exact ⟨by simp, by omega⟩
    · exact ⟨List.mem_append_left _ (ih h).1, (ih h).2⟩

theorem isBest_of_firstBest (h : firstBest mark l = some a) : IsBest mark l a where
  mem := (mem_of_firstBest h).1
  pos := (mem_of_firstBest h).2
  le := by
    intro b hb
    have hle : mark b ≤ (firstBest mark l).elim 0 mark := mark_le_firstBest hb
    rwa [h] at hle

theorem not_isBest_of_firstBest (h : firstBest mark l = none) : ¬ IsBest mark l a := by
  intro hbest
  have hle : mark a ≤ (firstBest mark l).elim 0 mark := mark_le_firstBest hbest.mem
  rw [h] at hle
  exact absurd hbest.pos (by simpa using hle)

theorem IsBest.perm {l' : List α} (h : IsBest mark l a) (hperm : l.Perm l') : IsBest mark l' a :=
  ⟨hperm.mem_iff.mp h.mem, h.pos, fun b hb => h.le b (hperm.mem_iff.mpr hb)⟩

theorem firstBest_cons (h : IsBest mark (a :: l) a) : firstBest mark (a :: l) = some a := by
  have hfold : ∀ r : List α, (∀ b ∈ r, mark b ≤ mark a) →
      r.foldl (fun best a => if best.elim 0 mark < mark a then some a else best) (some a) =
        some a := by
    intro r hr
    induction r with
    | nil => rfl
    | cons b r ih =>
      have hb : ¬ (some a).elim 0 mark < mark b := by
        have hle := hr b (by simp)
        simpa using hle
      rw [List.foldl_cons, if_neg hb]
      exact ih fun c hc => hr c (by simp [hc])
  have hpos : (none : Option α).elim 0 mark < mark a := h.pos
  rw [firstBest, List.foldl_cons, if_pos hpos]
  exact hfold l fun b hb => h.le b (by simp [hb])

theorem firstBest_eq_iff : (∀ order order' : MapOrder,
    firstBest mark (order.arrange l) = firstBest mark (order'.arrange l)) ↔
      ∀ a b, IsBest mark l a → IsBest mark l b → a = b := by
  constructor
  · intro h a b ha hb
    have hpick : ∀ {a : α}, IsBest mark l a →
        ∃ order : MapOrder, firstBest mark (order.arrange l) = some a := by
      intro a ha
      obtain ⟨order, rest, harrange⟩ := MapOrder.exists_first ha.mem
      have hbest := ha.perm (order.perm l).symm
      rw [harrange] at hbest
      exact ⟨order, by rw [harrange, firstBest_cons hbest]⟩
    obtain ⟨order, horder⟩ := hpick ha
    obtain ⟨order', horder'⟩ := hpick hb
    rw [h order order', horder'] at horder
    exact (Option.some.inj horder).symm
  · intro h order order'
    have hsome : ∀ {order : MapOrder} {a : α}, firstBest mark (order.arrange l) = some a →
        IsBest mark l a := fun ha => (isBest_of_firstBest ha).perm (MapOrder.perm _ l)
    have hnone : ∀ {order : MapOrder} {a : α}, firstBest mark (order.arrange l) = none →
        ¬ IsBest mark l a :=
      fun hno ha => not_isBest_of_firstBest hno (ha.perm (MapOrder.perm _ l).symm)
    cases hpick : firstBest mark (order.arrange l) with
    | none =>
      cases hpick' : firstBest mark (order'.arrange l) with
      | none => rfl
      | some b => exact absurd (hsome hpick') (hnone hpick)
    | some a =>
      cases hpick' : firstBest mark (order'.arrange l) with
      | none => exact absurd (hsome hpick) (hnone hpick')
      | some b => rw [h a b (hsome hpick) (hsome hpick')]

end Picking

def searchFrom (found : ℕ → Bool) : ℕ → ℕ → ℕ → ℕ
  | 0, lo, _ => lo
  | fuel + 1, lo, hi =>
    if lo < hi then
      let mid := (lo + hi) / 2
      if found mid then searchFrom found fuel lo mid else searchFrom found fuel (mid + 1) hi
    else lo

def search (n : ℕ) (found : ℕ → Bool) : ℕ := searchFrom found n 0 n

structure Splits (found : ℕ → Bool) (n k : ℕ) : Prop where
  below : ∀ i < k, found i = false
  above : ∀ i, k ≤ i → i < n → found i = true

theorem splits_searchFrom {found : ℕ → Bool} {n : ℕ}
    (hmono : ∀ i j, i ≤ j → j < n → found i = true → found j = true) {fuel lo hi : ℕ}
    (hfuel : hi - lo ≤ fuel) (hle : lo ≤ hi) (hhi : hi ≤ n) (hbelow : ∀ i < lo, found i = false)
    (habove : ∀ i, hi ≤ i → i < n → found i = true) :
    Splits found n (searchFrom found fuel lo hi) := by
  induction fuel generalizing lo hi with
  | zero =>
    obtain rfl : lo = hi := by omega
    exact ⟨hbelow, habove⟩
  | succ fuel ih =>
    simp only [searchFrom]
    split_ifs with hlt hmid
    · -- found in the middle: the upper half is found as well
      refine ih (by omega) (by omega) (by omega) hbelow ?_
      exact fun i hi' hin => hmono _ i hi' hin hmid
    · refine ih (by omega) (by omega) hhi ?_ habove
      intro i hi'
      by_contra hfound
      exact hmid (hmono i _ (by omega) (by omega) (by simpa using hfound))
    · obtain rfl : lo = hi := by omega
      exact ⟨hbelow, habove⟩

theorem found_searchFrom {found : ℕ → Bool} {fuel lo hi : ℕ} (hfuel : hi - lo ≤ fuel)
    (hle : lo ≤ hi) :
    searchFrom found fuel lo hi = hi ∨ found (searchFrom found fuel lo hi) = true := by
  induction fuel generalizing lo hi with
  | zero =>
    obtain rfl : lo = hi := by omega
    exact .inl rfl
  | succ fuel ih =>
    simp only [searchFrom]
    split_ifs with hlt hmid
    · have hhalf : searchFrom found fuel lo ((lo + hi) / 2) = (lo + hi) / 2 ∨
          found (searchFrom found fuel lo ((lo + hi) / 2)) = true := ih (by omega) (by omega)
      rcases hhalf with heq | hfound
      · exact .inr (by rw [heq]; exact hmid)
      · exact .inr hfound
    · exact ih (by omega) (by omega)
    · exact .inl (by omega)

theorem splits_search {found : ℕ → Bool} {n : ℕ}
    (hmono : ∀ i j, i ≤ j → j < n → found i = true → found j = true) :
    Splits found n (search n found) :=
  splits_searchFrom hmono (by omega) n.zero_le le_rfl (by simp) (by omega)

end GoStream.Foundations
