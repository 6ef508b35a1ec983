import GoStream.AutoRemove.Remover

/-!
# Titles without their years
-/

namespace GoStream.AutoRemove

open Foundations

def dropYears (s : Bytes) : Bytes := removeYears s.length s

def inYear (c : UInt8) : Bool := isDecimal c || c = 40 || c = 41

def dropByte (b : UInt8) (s : Bytes) : Bytes := if s.head? = some b then s.tail else s

theorem yearPattern_eq (s : Bytes) : yearPattern s =
    if (runOf 4 isDecimal (dropByte 40 s)).isSome then some (dropByte 41 ((dropByte 40 s).drop 4))
    else none := rfl

section Pattern

variable {s rest : Bytes} {sep : UInt8}

theorem dropByte_spec (b : UInt8) (s : Bytes) : ∃ t, s = t ++ dropByte b s ∧ ∀ c ∈ t, c = b := by
  cases s with
  | nil => exact ⟨[], rfl, by simp⟩
  | cons a s =>
    by_cases ha : a = b
    · exact ⟨[a], by simp [dropByte, ha], by simp [ha]⟩
    · exact ⟨[], by simp [dropByte, ha], by simp⟩

theorem dropByte_append {b : UInt8} (hsep : sep ≠ b) (u v : Bytes) :
    dropByte b (u ++ sep :: v) = dropByte b u ++ sep :: v := by
  cases u with
  | nil => simp [dropByte, hsep]
  | cons a u =>
    by_cases ha : a = b
    · simp [dropByte, ha]
    · simp [dropByte, ha]

theorem dropByte_map {f : UInt8 → UInt8} {b : UInt8} (hf : ∀ c, f c = b ↔ c = b) (s : Bytes) :
    dropByte b (s.map f) = (dropByte b s).map f := by
  cases s with
  | nil => rfl
  | cons a s =>
    simp only [dropByte, List.map_cons, List.head?_cons, Option.some.injEq, hf, List.tail_cons]
    split_ifs
    · rfl
    · rfl

theorem isSome_runOf {n : ℕ} {ok : UInt8 → Bool} :
    (runOf n ok s).isSome = true ↔ (s.take n).length = n ∧ (s.take n).all ok = true := by
  unfold runOf
  split_ifs with h
  · exact iff_of_true rfl h
  · exact iff_of_false Bool.false_ne_true h

theorem yearPattern_spec (h : yearPattern s = some rest) :
    ∃ t, s = t ++ rest ∧ t ≠ [] ∧ t.all inYear = true := by
  rw [yearPattern_eq] at h
  split_ifs at h with hrun
  obtain rfl := Option.some.inj h
  obtain ⟨hlen, hdigits⟩ := isSome_runOf.mp hrun
  obtain ⟨opening, hopening, hround⟩ := dropByte_spec 40 s
  obtain ⟨closing, hclosing, hround'⟩ := dropByte_spec 41 ((dropByte 40 s).drop 4)
  refine ⟨opening ++ (dropByte 40 s).take 4 ++ closing, ?_, ?_, ?_⟩
  · rw [List.append_assoc, ← hclosing, List.append_assoc, List.take_append_drop, ← hopening]
  · intro hnil
    rw [List.append_eq_nil_iff, List.append_eq_nil_iff] at hnil
    rw [hnil.1.2] at hlen
    cases hlen
  · rw [List.all_append, List.all_append, Bool.and_eq_true, Bool.and_eq_true]
    refine ⟨⟨?_, ?_⟩, ?_⟩
    · exact List.all_eq_true.mpr fun c hc => by rw [hround c hc]; rfl
    · exact List.all_eq_true.mpr fun c hc => by simp [inYear, List.all_eq_true.mp hdigits c hc]
    · exact List.all_eq_true.mpr fun c hc => by rw [hround' c hc]; rfl

theorem yearPattern_append (hsep : inYear sep = false) (u v : Bytes) :
    yearPattern (u ++ sep :: v) = (yearPattern u).map (· ++ sep :: v) := by
  simp only [inYear, Bool.or_eq_false_iff, decide_eq_false_iff_not] at hsep
  obtain ⟨⟨hdigit, hopening⟩, hclosing⟩ := hsep
  rw [yearPattern_eq, yearPattern_eq, dropByte_append hopening, runOf_append hdigit]
  split_ifs with hrun
  · have hlen := (isSome_runOf.mp hrun).1
    rw [List.length_take] at hlen
    rw [List.drop_append_of_le_length (by omega), dropByte_append hclosing]
    rfl
  · rfl

theorem yearPattern_map {f : UInt8 → UInt8} (hf : ∀ c, inYear (f c) = true ∨ inYear c = true → f c = c)
    (s : Bytes) : yearPattern (s.map f) = (yearPattern s).map (List.map f) := by
  have hbyte : ∀ b, inYear b = true → ∀ c, f c = b ↔ c = b := by
    intro b hb c
    constructor
    · rintro rfl
      exact (hf c (.inl hb)).symm
    · rintro rfl
      exact hf c (.inr hb)
  have hdigit : ∀ c, isDecimal (f c) = isDecimal c := by
    intro c
    by_cases hc : inYear (f c) = true ∨ inYear c = true
    · rw [hf c hc]
    · simp only [inYear, Bool.or_eq_true, not_or, Bool.not_eq_true] at hc
      rw [hc.1.1.1, hc.2.1.1]
  have hrun : ∀ t : Bytes, (runOf 4 isDecimal (t.map f)).isSome = (runOf 4 isDecimal t).isSome := by
    intro t
    rw [Bool.eq_iff_iff, isSome_runOf, isSome_runOf, ← List.map_take, List.length_map, List.all_map]
    simp only [Function.comp_def, hdigit]
  rw [yearPattern_eq, yearPattern_eq, dropByte_map (hbyte 40 rfl), hrun, ← List.map_drop,
    dropByte_map (hbyte 41 rfl)]
  split_ifs
  · rfl
  · rfl

end Pattern

theorem length_of_yearPattern {c : UInt8} {s rest : Bytes} (h : yearPattern (c :: s) = some rest) :
    rest.length ≤ s.length := by
  obtain ⟨t, heq, hne, -⟩ := yearPattern_spec h
  have hlen := congrArg List.length heq
  have hpos := List.length_pos_of_ne_nil hne
  rw [List.length_cons, List.length_append] at hlen
  omega

theorem removeYears_of_le {n : ℕ} {s : Bytes} (h : s.length ≤ n) : removeYears n s = dropYears s := by
  suffices hfuel : ∀ n m s, s.length ≤ n → s.length ≤ m → removeYears n s = removeYears m s from
    hfuel n s.length s h le_rfl
  clear h
  intro n
  induction n with
  | zero =>
    intro m s hn _
    obtain rfl := List.eq_nil_of_length_eq_zero (Nat.le_zero.mp hn)
    cases m <;> rfl
  | succ n ih =>
    intro m s hn hm
    cases s with
    | nil => cases m <;> rfl
    | cons c s =>
      cases m with
      | zero => cases hm
      | succ m =>
        rw [List.length_cons] at hn hm
        unfold removeYears
        cases hyear : yearPattern (c :: s) with
        | none => rw [ih m s (by omega) (by omega)]
        | some rest =>
          have hshort := length_of_yearPattern hyear
          exact ih m rest (by omega) (by omega)

theorem dropYears_of_year {c : UInt8} {s rest : Bytes} (h : yearPattern (c :: s) = some rest) :
    dropYears (c :: s) = dropYears rest := by
  have hshort := length_of_yearPattern h
  rw [dropYears, List.length_cons, removeYears, h]
  exact removeYears_of_le (by omega)

theorem dropYears_of_none {c : UInt8} {s : Bytes} (h : yearPattern (c :: s) = none) :
    dropYears (c :: s) = c :: dropYears s := by
  rw [dropYears, List.length_cons, removeYears, h]
  rfl

@[elab_as_elim]
theorem years_induction {P : Bytes → Prop} (nil : P [])
    (year : ∀ c s rest, yearPattern (c :: s) = some rest → P rest → P (c :: s))
    (other : ∀ c s, yearPattern (c :: s) = none → P s → P (c :: s)) (s : Bytes) : P s := by
  induction hn : s.length using Nat.strongRecOn generalizing s with
  | ind n ih =>
    cases s with
    | nil => exact nil
    | cons c s =>
      rw [List.length_cons] at hn
      cases h : yearPattern (c :: s) with
      | none => exact other c s h (ih s.length (by omega) s rfl)
      | some rest =>
        have hshort := length_of_yearPattern h
        exact year c s rest h (ih rest.length (by omega) rest rfl)

theorem dropYears_append {sep : UInt8} (hsep : inYear sep = false) (u v : Bytes) :
    dropYears (u ++ sep :: v) = dropYears u ++ sep :: dropYears v := by
  induction u using years_induction with
  | nil =>
    apply dropYears_of_none
    have h := yearPattern_append hsep [] v
    exact h
  | year c u rest h ih =>
    have hyear := yearPattern_append hsep (c :: u) v
    rw [h, List.cons_append] at hyear
    rw [dropYears_of_year h, List.cons_append, dropYears_of_year hyear]
    exact ih
  | other c u h ih =>
    have hyear := yearPattern_append hsep (c :: u) v
    rw [h, List.cons_append] at hyear
    rw [dropYears_of_none h, List.cons_append, dropYears_of_none hyear, ih, List.cons_append]

theorem filter_dropYears {p : UInt8 → Bool} (hp : ∀ c, inYear c = true → p c = false) (s : Bytes) :
    (dropYears s).filter p = s.filter p := by
  induction s using years_induction with
  | nil => rfl
  | year c s rest h ih =>
    obtain ⟨t, heq, -, hall⟩ := yearPattern_spec h
    have hnone : t.filter p = [] := by
      rw [List.filter_eq_nil_iff]
      intro d hd
      simp [hp d (List.all_eq_true.mp hall d hd)]
    rw [dropYears_of_year h, ih, heq, List.filter_append, hnone, List.nil_append]
  | other c s h ih => rw [dropYears_of_none h, List.filter_cons, List.filter_cons, ih]

theorem dropYears_map {f : UInt8 → UInt8} (hf : ∀ c, inYear (f c) = true ∨ inYear c = true → f c = c)
    (s : Bytes) : dropYears (s.map f) = (dropYears s).map f := by
  induction s using years_induction with
  | nil => rfl
  | year c s rest h ih =>
    have hyear := yearPattern_map hf (c :: s)
    rw [h] at hyear
    rw [dropYears_of_year h, List.map_cons, dropYears_of_year hyear, ih]
  | other c s h ih =>
    have hyear := yearPattern_map hf (c :: s)
    rw [h] at hyear
    rw [dropYears_of_none h, List.map_cons, dropYears_of_none hyear, ih, List.map_cons]

theorem dropYears_bracketed {y : Bytes} (hlen : y.length = 4) (hdigits : y.all isDecimal = true) :
    dropYears (40 :: (y ++ [41])) = [] := by
  have htake : (y ++ [41]).take 4 = y := List.take_left' hlen
  have hdrop : (y ++ [41]).drop 4 = [41] := List.drop_left' hlen
  have hyear : yearPattern (40 :: (y ++ [41])) = some [] := by
    rw [yearPattern_eq]
    have hopen : dropByte 40 (40 :: (y ++ [41])) = y ++ [41] := rfl
    rw [hopen, if_pos (isSome_runOf.mpr (by rw [htake]; exact ⟨hlen, hdigits⟩)), hdrop]
    rfl
  rw [dropYears_of_year hyear]
  rfl

theorem mem_of_mem_dropYears {c : UInt8} {s : Bytes} (h : c ∈ dropYears s) : c ∈ s := by
  induction s using years_induction with
  | nil => exact h
  | year a s rest hyear ih =>
    obtain ⟨t, heq, -, -⟩ := yearPattern_spec hyear
    rw [dropYears_of_year hyear] at h
    rw [heq]
    exact List.mem_append_right _ (ih h)
  | other a s hnone ih =>
    rw [dropYears_of_none hnone] at h
    rcases List.mem_cons.mp h with rfl | h
    · exact List.mem_cons_self
    · exact List.mem_cons_of_mem _ (ih h)

theorem dropYears_singleton (c : UInt8) : dropYears [c] = [c] := by
  apply dropYears_of_none
  rw [yearPattern_eq, if_neg]
  intro hrun
  have hlen := (isSome_runOf.mp hrun).1
  obtain ⟨t, heq, -⟩ := dropByte_spec 40 [c]
  have hle := congrArg List.length heq
  rw [List.length_append] at hle
  rw [List.length_take] at hlen
  simp only [List.length_singleton] at hle
  omega

theorem filepathDir_append {dir file : Bytes} (hdir : dir ≠ []) (hfile : 47 ∉ file) :
    filepathDir (dir ++ 47 :: file) = dir := by
  have hlen : (dir ++ 47 :: file).length - file.length - 1 = dir.length := by
    rw [List.length_append, List.length_cons]
    omega
  simp only [filepathDir, afterLast_append dir hfile, hlen, List.take_left', if_neg hdir]
  rw [if_pos (by simp)]

theorem deriveTitleFromPath_season (dir : Bytes) {folder season file : Bytes} (hfolder : 47 ∉ folder)
    (hseason : 47 ∉ season) (hfile : 47 ∉ file) (hnamed : (ascii "Season.").isPrefixOf season = true) :
    deriveTitleFromPath (dir ++ 47 :: folder ++ 47 :: season ++ 47 :: file) = folder := by
  have hsplit : (dir ++ 47 :: folder ++ 47 :: season).splitOn 47 =
      dir.splitOn 47 ++ [folder, season] := by
    rw [List.splitOn_append_cons_self, List.splitOn_append_cons_self, List.splitOn_eq_singleton hfolder,
      List.splitOn_eq_singleton hseason, List.append_assoc]
    rfl
  rw [deriveTitleFromPath, filepathDir_append (by simp) hfile, hsplit, List.reverse_append]
  simp [hnamed]

end GoStream.AutoRemove
