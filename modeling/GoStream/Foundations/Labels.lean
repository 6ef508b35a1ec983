import Mathlib.Combinatorics.Enumerative.DoubleCounting
import Mathlib.Data.Set.Card
import Mathlib.Data.Set.Finite.Lattice

/-!
# Counting labels
-/

namespace GoStream.Foundations

variable {α β : Type*} {R : α → β → Prop}

def labels (R : α → β → Prop) (s : Finset α) : Set β := {b | ∃ a ∈ s, R a b}

theorem labels_finite (hR : Relator.RightUnique R) (s : Finset α) : (labels R s).Finite := by
  have hunion : labels R s = ⋃ a ∈ s, {b | R a b} := by
    ext b
    simp [labels]
  rw [hunion]
  exact Set.Finite.biUnion s.finite_toSet fun a _ => Set.Subsingleton.finite fun _ hb _ hb' => hR hb hb'

theorem ncard_labels_le (hR : Relator.RightUnique R) (s : Finset α) :
    (labels R s).ncard ≤ s.card := by
  classical
  rw [Set.ncard_eq_toFinset_card _ (labels_finite hR s)]
  apply Finset.card_le_card_of_forall_subsingleton (fun b a => R a b)
  · intro b hb
    exact (labels_finite hR s).mem_toFinset.mp hb
  · rintro a - b ⟨-, hb⟩ b' ⟨-, hb'⟩
    exact hR hb hb'

theorem ncard_labels_lt (hR : Relator.RightUnique R) {s : Finset α} {a : α} (ha : a ∈ s)
    (hother : ∀ b, R a b → ∃ a' ∈ s, a' ≠ a ∧ R a' b) : (labels R s).ncard < s.card := by
  classical
  have hsub : labels R s ⊆ labels R (s.erase a) := by
    rintro b ⟨a', ha', hb⟩
    by_cases heq : a' = a
    · obtain ⟨a'', ha'', hne, hb'⟩ := hother b (heq ▸ hb)
      exact ⟨a'', Finset.mem_erase.mpr ⟨hne, ha''⟩, hb'⟩
    · exact ⟨a', Finset.mem_erase.mpr ⟨heq, ha'⟩, hb⟩
  calc (labels R s).ncard
      ≤ (labels R (s.erase a)).ncard := Set.ncard_le_ncard hsub (labels_finite hR _)
    _ ≤ (s.erase a).card := ncard_labels_le hR _
    _ < s.card := Finset.card_erase_lt_of_mem ha

theorem card_le_ncard_labels_iff (hR : Relator.RightUnique R) (s : Finset α) :
    s.card ≤ (labels R s).ncard ↔
      (∀ a ∈ s, ∃ b, R a b) ∧ ∀ a ∈ s, ∀ a' ∈ s, ∀ b, R a b → R a' b → a = a' := by
  constructor
  · intro h
    constructor
    · intro a ha
      by_contra hnone
      exact absurd (ncard_labels_lt hR ha fun b hb => absurd ⟨b, hb⟩ hnone) (by omega)
    · intro a ha a' ha' b hb hb'
      by_contra hne
      refine absurd (ncard_labels_lt hR ha fun b₁ hb₁ => ⟨a', ha', Ne.symm hne, ?_⟩) (by omega)
      rw [hR hb₁ hb]
      exact hb'
  · rintro ⟨hall, hinj⟩
    classical
    rw [Set.ncard_eq_toFinset_card _ (labels_finite hR s)]
    apply Finset.card_le_card_of_forall_subsingleton R
    · intro a ha
      obtain ⟨b, hb⟩ := hall a ha
      exact ⟨b, (labels_finite hR s).mem_toFinset.mpr ⟨a, ha, hb⟩, hb⟩
    · rintro b - a ⟨ha, hb⟩ a' ⟨ha', hb'⟩
      exact hinj a ha a' ha' b hb hb'

end GoStream.Foundations
