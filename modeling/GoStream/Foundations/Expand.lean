import GoStream.Foundations.Regex

/-!
# Replacement by a template
-/

namespace GoStream.Foundations.Regex

def expandFrom (r : Regex) (repl : Captures → Bytes) : ℕ → Cursor → Bytes
  | 0, c => c.rest
  | n + 1, c =>
    match c.rest with
    | [] => []
    | b :: s =>
      match (r.ends c).head? with
      | some x =>
        if x.1.rest.length < c.rest.length then repl x.2 ++ expandFrom r repl n x.1
        else b :: expandFrom r repl n ⟨b :: c.before, s⟩
      | none => b :: expandFrom r repl n ⟨b :: c.before, s⟩

def expandAll (r : Regex) (repl : Captures → Bytes) (s : Bytes) : Bytes :=
  r.expandFrom repl s.length ⟨[], s⟩

variable {r : Regex} {repl : Captures → Bytes}

def Expands (r : Regex) (repl : Captures → Bytes) (s s' : Bytes) : Prop :=
  ∀ n before, s.length ≤ n → r.expandFrom repl n ⟨before, s⟩ = s'

theorem Expands.expandAll {s s' : Bytes} (h : Expands r repl s s') : r.expandAll repl s = s' :=
  h s.length [] le_rfl

theorem expands_nil : Expands r repl [] [] := by
  intro n before _
  cases n <;> rfl

def NoMatch (r : Regex) (s : Bytes) : Prop := ∀ before t u k, s = t ++ u → ¬ r.Matches before t u k

theorem NoMatch.head?_ends {s : Bytes} (h : NoMatch r s) (before : Bytes) :
    (r.ends ⟨before, s⟩).head? = none := by
  cases hx : (r.ends ⟨before, s⟩).head? with
  | none => rfl
  | some x =>
    obtain ⟨t, hrest, -, hM⟩ := (mem_ends_iff r _ x).mp (List.mem_of_head? hx)
    exact absurd hM (h before t x.1.rest x.2 hrest)

theorem expands_cons {c : UInt8} {s s' : Bytes} (h : NoMatch r (c :: s))
    (hs : Expands r repl s s') : Expands r repl (c :: s) (c :: s') := by
  intro n before hn
  obtain ⟨n, rfl⟩ := Nat.exists_eq_succ_of_ne_zero (Nat.ne_of_gt (Nat.zero_lt_of_lt hn))
  simp only [expandFrom, h.head?_ends before]
  rw [hs n (c :: before) (by simpa using hn)]

theorem expands_append {t u u' : Bytes} (ht : ∀ c ∈ t, ∀ s, NoMatch r (c :: s))
    (hu : Expands r repl u u') : Expands r repl (t ++ u) (t ++ u') := by
  induction t with
  | nil => exact hu
  | cons c t ih =>
    exact expands_cons (ht c List.mem_cons_self _) (ih fun d hd => ht d (List.mem_cons_of_mem _ hd))

theorem expands_match {t u u' : Bytes} {k : Captures} (hne : t ≠ [])
    (hmatch : ∀ before, r.Matches before t u k)
    (honly : ∀ before t' w k', t ++ u = t' ++ w → r.Matches before t' w k' → t' = t ∧ k' = k)
    (hu : Expands r repl u u') : Expands r repl (t ++ u) (repl k ++ u') := by
  intro n before hn
  obtain ⟨x, hx⟩ : ∃ x, (r.ends ⟨before, t ++ u⟩).head? = some x := by
    have hmem : (⟨t.reverse ++ before, u⟩, k) ∈ r.ends ⟨before, t ++ u⟩ :=
      (mem_ends_iff r _ _).mpr ⟨t, rfl, rfl, hmatch before⟩
    cases hl : r.ends ⟨before, t ++ u⟩ with
    | nil => rw [hl] at hmem; cases hmem
    | cons x l => exact ⟨x, rfl⟩
  obtain ⟨⟨xbefore, xrest⟩, xk⟩ := x
  obtain ⟨t', hrest, hbefore, hM⟩ := (mem_ends_iff r _ _).mp (List.mem_of_head? hx)
  obtain ⟨rfl, rfl⟩ := honly before t' xrest xk hrest hM
  obtain rfl : u = xrest := List.append_cancel_left hrest
  cases t' with
  | nil => exact absurd rfl hne
  | cons c t =>
    obtain ⟨n, rfl⟩ := Nat.exists_eq_succ_of_ne_zero (Nat.ne_of_gt (Nat.zero_lt_of_lt hn))
    have hshort : u.length < (c :: t ++ u).length := by
      rw [List.length_append, List.length_cons]
      omega
    rw [List.cons_append] at hx hshort ⊢
    simp only [expandFrom, hx, if_pos hshort]
    rw [hu n xbefore (by simp at hn; omega)]

end GoStream.Foundations.Regex
