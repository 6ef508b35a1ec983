import GoStream.Foundations.SliceSort

/-!
# Comparisons that go on at a tie
-/

namespace GoStream.Foundations

variable {α κ : Type}

structure StrictTotal (lt : κ → κ → Prop) : Prop where
  irrefl : ∀ a, ¬ lt a a
  trans : ∀ a b c, lt a b → lt b c → lt a c
  total : ∀ a b, a ≠ b → lt a b ∨ lt b a

structure StrictWeak (less : α → α → Bool) : Prop where
  irrefl : ∀ a, less a a = false
  trans : ∀ a b c, less a b = true → less b c = true → less a c = true
  negTrans : ∀ a b c, less a b = false → less b c = false → less a c = false

theorem strictTotal_lt [LinearOrder κ] : StrictTotal fun a b : κ => a < b :=
  ⟨lt_irrefl, fun _ _ _ => lt_trans, fun _ _ => lt_or_gt_of_ne⟩

theorem StrictTotal.swap {lt : κ → κ → Prop} (h : StrictTotal lt) : StrictTotal fun a b => lt b a :=
  ⟨h.irrefl, fun a b c hab hbc => h.trans c b a hbc hab, fun a b hab => h.total b a (Ne.symm hab)⟩

theorem strictTotal_bytes : StrictTotal fun a b : List UInt8 => a < b where
  irrefl := List.lt_irrefl
  trans := fun _ _ _ => List.lt_trans
  total := by
    intro a b hne
    by_contra hnot
    push Not at hnot
    exact hne (List.le_antisymm hnot.2 hnot.1)

theorem StrictWeak.ordersOn {less : α → α → Bool} (h : StrictWeak less) (l : List α) :
    OrdersOn less l :=
  ⟨fun a _ => h.irrefl a, fun a _ b _ c _ => h.trans a b c, fun a _ b _ c _ => h.negTrans a b c⟩

def byKey [DecidableEq κ] (key : α → κ) (lt : κ → κ → Prop) [DecidableRel lt]
    (rest : α → α → Bool) (a b : α) : Bool :=
  if key a ≠ key b then lt (key a) (key b) else rest a b

section ByKey

variable [DecidableEq κ] {key : α → κ} {lt : κ → κ → Prop} [DecidableRel lt] {rest : α → α → Bool}

theorem byKey_of_ne {a b : α} (h : key a ≠ key b) :
    byKey key lt rest a b = decide (lt (key a) (key b)) := if_pos h

theorem byKey_of_eq {a b : α} (h : key a = key b) : byKey key lt rest a b = rest a b :=
  if_neg (not_not.mpr h)

theorem byKey_iff (hlt : StrictTotal lt) {a b : α} :
    byKey key lt rest a b = true ↔ lt (key a) (key b) ∨ key a = key b ∧ rest a b = true := by
  by_cases h : key a = key b
  · rw [byKey_of_eq h, h]
    simp [hlt.irrefl]
  · rw [byKey_of_ne h]
    simp [h]

theorem byKey_eq_false_iff (hlt : StrictTotal lt) {a b : α} :
    byKey key lt rest a b = false ↔ lt (key b) (key a) ∨ key a = key b ∧ rest a b = false := by
  by_cases h : key a = key b
  · rw [byKey_of_eq h, h]
    simp [hlt.irrefl]
  · rw [byKey_of_ne h, decide_eq_false_iff_not]
    constructor
    · exact fun hnot => .inl ((hlt.total _ _ h).resolve_left hnot)
    · rintro (hlt' | ⟨heq, -⟩) hab
      · exact hlt.irrefl _ (hlt.trans _ _ _ hab hlt')
      · exact h heq

theorem StrictWeak.byKey (hlt : StrictTotal lt) (hrest : StrictWeak rest) :
    StrictWeak (byKey key lt rest) where
  irrefl := by
    intro a
    rw [byKey_of_eq rfl]
    exact hrest.irrefl a
  trans := by
    intro a b c hab hbc
    rw [byKey_iff hlt] at hab hbc ⊢
    rcases hab with hab | ⟨hab, hrab⟩ <;> rcases hbc with hbc | ⟨hbc, hrbc⟩
    · exact .inl (hlt.trans _ _ _ hab hbc)
    · exact .inl (hbc ▸ hab)
    · exact .inl (hab ▸ hbc)
    · exact .inr ⟨hab.trans hbc, hrest.trans a b c hrab hrbc⟩
  negTrans := by
    intro a b c hab hbc
    rw [byKey_eq_false_iff hlt] at hab hbc ⊢
    rcases hab with hab | ⟨hab, hrab⟩ <;> rcases hbc with hbc | ⟨hbc, hrbc⟩
    · exact .inl (hlt.trans _ _ _ hbc hab)
    · exact .inl (hbc ▸ hab)
    · exact .inl (hab ▸ hbc)
    · exact .inr ⟨hab.trans hbc, hrest.negTrans a b c hrab hrbc⟩

theorem byKey_total (hlt : StrictTotal lt) {a b : α} (h : rest a b = true ∨ rest b a = true) :
    byKey key lt rest a b = true ∨ byKey key lt rest b a = true := by
  rw [byKey_iff hlt, byKey_iff hlt]
  by_cases hkey : key a = key b
  · exact h.imp (fun hab => .inr ⟨hkey, hab⟩) fun hba => .inr ⟨hkey.symm, hba⟩
  · exact (hlt.total _ _ hkey).imp .inl .inl

end ByKey

theorem strictWeak_of_key {lt : κ → κ → Prop} [DecidableRel lt] (hlt : StrictTotal lt)
    (key : α → κ) : StrictWeak fun a b : α => decide (lt (key a) (key b)) where
  irrefl := fun a => decide_eq_false (hlt.irrefl _)
  trans := by
    intro a b c hab hbc
    rw [decide_eq_true_eq] at hab hbc ⊢
    exact hlt.trans _ _ _ hab hbc
  negTrans := by
    intro a b c hab hbc
    rw [decide_eq_false_iff_not] at hab hbc ⊢
    intro hac
    by_cases hkey : key b = key c
    · exact hab (hkey ▸ hac)
    · exact hab (hlt.trans _ _ _ hac ((hlt.total _ _ hkey).resolve_left hbc))

end GoStream.Foundations
