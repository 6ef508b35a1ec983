import Mathlib.Data.List.Basic
import Mathlib.Tactic

/-!
# Lists in the order of their last use
-/

namespace GoStream.Foundations

variable {α κ : Type*} [DecidableEq κ]

def without (key : α → κ) (k : κ) (l : List α) : List α := l.filter fun a => key a ≠ k

variable {key : α → κ}

theorem without_sublist (k : κ) (l : List α) : (without key k l).Sublist l := List.filter_sublist

theorem mem_without {k : κ} {a : α} {l : List α} : a ∈ without key k l ↔ a ∈ l ∧ key a ≠ k := by
  simp [without]

theorem perm_cons_without {a : α} {l : List α} (hkeys : (l.map key).Nodup) (ha : a ∈ l) :
    l.Perm (a :: without key (key a) l) := by
  induction l with
  | nil => exact absurd ha List.not_mem_nil
  | cons b l ih =>
    obtain ⟨hb, hl⟩ := List.nodup_cons.mp hkeys
    rcases List.mem_cons.mp ha with rfl | ha
    · have hrest : without key (key a) l = l := by
        apply List.filter_eq_self.mpr
        intro c hc
        have hne : key c ≠ key a := fun h => hb (h ▸ List.mem_map_of_mem hc)
        simpa using hne
      have hcons : without key (key a) (a :: l) = without key (key a) l := by simp [without]
      rw [hcons, hrest]
    · have hne : key b ≠ key a := fun h => hb (h ▸ List.mem_map_of_mem ha)
      have hcons : without key (key a) (b :: l) = b :: without key (key a) l := by
        simp [without, hne]
      rw [hcons]
      exact ((ih hl ha).cons b).trans (List.Perm.swap a b _)

structure ByUse (uses keys : List κ) : Prop where
  used : ∀ k ∈ keys, k ∈ uses
  newestFirst : keys.Pairwise fun a b => uses.idxOf a < uses.idxOf b

theorem ByUse.nil (uses : List κ) : ByUse uses [] := ⟨by simp, .nil⟩

theorem ByUse.sublist {uses keys keys' : List κ} (h : ByUse uses keys) (hsub : keys'.Sublist keys) :
    ByUse uses keys' :=
  ⟨fun k hk => h.used k (hsub.subset hk), h.newestFirst.sublist hsub⟩

theorem ByUse.use {uses keys : List κ} (h : ByUse uses keys) {k : κ} (hk : k ∉ keys) :
    ByUse (k :: uses) (k :: keys) := by
  have hpos : ∀ a ∈ keys, (k :: uses).idxOf a = uses.idxOf a + 1 := by
    intro a ha
    apply List.idxOf_cons_ne
    rintro rfl
    exact hk ha
  refine ⟨?_, List.pairwise_cons.mpr ⟨?_, ?_⟩⟩
  · intro a ha
    rcases List.mem_cons.mp ha with rfl | ha
    · exact List.mem_cons_self
    · exact List.mem_cons_of_mem _ (h.used a ha)
  · intro a ha
    rw [hpos a ha, List.idxOf_cons_self]
    exact Nat.succ_pos _
  · refine h.newestFirst.imp_of_mem fun ha hb hlt => ?_
    rw [hpos _ ha, hpos _ hb]
    exact Nat.succ_lt_succ hlt

omit [DecidableEq κ]

variable (fits : List α → Prop) [DecidablePred fits]

def trimOldest : List α → List α
  | [] => []
  | a :: l => if fits (a :: l).reverse then a :: l else trimOldest l

def trim (l : List α) : List α := (trimOldest fits l.reverse).reverse

@[simp] theorem trim_nil : trim fits [] = [] := rfl

theorem trim_concat (l : List α) (a : α) :
    trim fits (l ++ [a]) = if fits (l ++ [a]) then l ++ [a] else trim fits l := by
  rw [trim, List.reverse_concat, trimOldest, List.reverse_cons, List.reverse_reverse]
  split_ifs
  · rw [List.reverse_cons, List.reverse_reverse]
  · rfl

theorem trim_of_fits {l : List α} (h : fits l) : trim fits l = l := by
  rcases List.eq_nil_or_concat' l with rfl | ⟨l', a, rfl⟩
  · rfl
  · rw [trim_concat, if_pos h]

structure ShortestCut (fits : List α → Prop) (l kept : List α) : Prop where
  initial : kept <+: l
  fits_or_nil : fits kept ∨ kept = []
  shortest : ∀ p, p <+: l → kept.length < p.length → ¬ fits p

theorem shortestCut_trim (l : List α) : ShortestCut fits l (trim fits l) := by
  induction l using List.reverseRecOn with
  | nil => exact ⟨List.prefix_refl _, .inr rfl, fun p hp hlt => by simp_all⟩
  | append_singleton l a ih =>
    rw [trim_concat]
    split_ifs with hfits
    · refine ⟨List.prefix_refl _, .inl hfits, fun p hp hlt => ?_⟩
      exact absurd hp.length_le (Nat.not_le.mpr hlt)
    · refine ⟨ih.initial.trans (List.prefix_append _ _), ih.fits_or_nil, fun p hp hlt => ?_⟩
      rcases List.prefix_concat_iff.mp hp with rfl | hp
      · exact hfits
      · exact ih.shortest p hp hlt

theorem ShortestCut.congr {fits fits' : List α → Prop} {l kept : List α}
    (h : ShortestCut fits l kept) (heq : ∀ p, p <+: l → (fits p ↔ fits' p)) :
    ShortestCut fits' l kept where
  initial := h.initial
  fits_or_nil := h.fits_or_nil.imp_left (heq _ h.initial).mp
  shortest := fun p hp hlt hfits => h.shortest p hp hlt ((heq p hp).mpr hfits)

end GoStream.Foundations
