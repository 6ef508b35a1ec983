import GoStream.Foundations.Text
import GoStream.Torr.FileIds

/-!
# Is the order of the files one?
-/

namespace GoStream.Torr

open Foundations Utils

def place (a b : Bytes) : ℕ := (commonPrefix a b).length

theorem le_place_iff {k : ℕ} : ∀ {a b : Bytes},
    k ≤ place a b ↔ k ≤ a.length ∧ k ≤ b.length ∧ a.take k = b.take k := by
  induction k with
  | zero => simp
  | succ k ih =>
    intro a b
    cases a with
    | nil => simp [place, commonPrefix]
    | cons x a =>
      cases b with
      | nil => simp [place, commonPrefix]
      | cons y b =>
        by_cases hxy : x = y
        · subst hxy
          have hplace : place (x :: a) (x :: b) = place a b + 1 := by simp [place, commonPrefix]
          simp [hplace, ih]
        · have hplace : place (x :: a) (y :: b) = 0 := by simp [place, commonPrefix, hxy]
          simp [hplace, hxy]

theorem place_comm (a b : Bytes) : place a b = place b a := by
  apply eq_of_forall_le_iff
  intro k
  rw [le_place_iff, le_place_iff, and_left_comm, eq_comm]

theorem le_place_trans {a b c : Bytes} {k : ℕ} (hab : k ≤ place a b) (hbc : k ≤ place b c) :
    k ≤ place a c := by
  rw [le_place_iff] at hab hbc ⊢
  exact ⟨hab.1, hbc.2.1, hab.2.2.trans hbc.2.2⟩

theorem place_eq_of_lt {a b c : Bytes} (h : place a c < place a b) : place b c = place a c := by
  apply Nat.le_antisymm
  · by_contra hlater
    have hnext : place a c + 1 ≤ place a c := le_place_trans h (not_le.mp hlater)
    omega
  · exact le_place_trans (place_comm a b ▸ h.le) le_rfl

def comesFirst (r s : Bytes) : Bool :=
  match numberPrefix r, numberPrefix s with
  | some num1, some num2 => decide (num1 < num2)
  | some _, none => true
  | none, some _ => false
  | none, none => decide (r < s)

theorem trimPrefix_append (p s : Bytes) : trimPrefix (p ++ s) p = s := by
  have hpre : p.isPrefixOf (p ++ s) = true := by simp
  rw [trimPrefix, if_pos hpre, List.drop_left]

theorem commonPrefix_append_drop : ∀ a b : Bytes,
    commonPrefix a b ++ a.drop (place a b) = a ∧ commonPrefix a b ++ b.drop (place a b) = b := by
  intro a
  induction a with
  | nil => simp [place, commonPrefix]
  | cons x a ih =>
    intro b
    cases b with
    | nil => simp [place, commonPrefix]
    | cons y b =>
      by_cases hxy : x = y
      · obtain ⟨ha, hb⟩ := ih b
        simp only [place, commonPrefix, hxy, if_true, List.length_cons, List.drop_succ_cons,
          List.cons_append, List.cons.injEq, true_and]
        exact ⟨ha, hb⟩
      · simp [place, commonPrefix, hxy]

theorem compareStrings_eq (a b : Bytes) :
    compareStrings a b = comesFirst (a.drop (place a b)) (b.drop (place a b)) := by
  obtain ⟨ha, hb⟩ := commonPrefix_append_drop a b
  have hcut : trimPrefix a (commonPrefix a b) = a.drop (place a b) := by
    nth_rewrite 1 [← ha]
    exact trimPrefix_append _ _
  have hcut' : trimPrefix b (commonPrefix a b) = b.drop (place a b) := by
    nth_rewrite 1 [← hb]
    exact trimPrefix_append _ _
  rw [compareStrings, hcut, hcut']
  rfl

theorem comesFirst_irrefl (r : Bytes) : comesFirst r r = false := by
  unfold comesFirst
  cases numberPrefix r with
  | some n | none => simp

theorem comesFirst_negTrans {r s t : Bytes} (hrs : comesFirst r s = false)
    (hst : comesFirst s t = false) : comesFirst r t = false := by
  unfold comesFirst at *
  cases hr : numberPrefix r with
  | some l =>
    cases hs : numberPrefix s with
    | none => simp [hr, hs] at hrs
    | some m =>
      cases ht : numberPrefix t with
      | none => simp [hs, ht] at hst
      | some n =>
        simp only [hr, hs, ht, decide_eq_false_iff_not] at *
        omega
  | none =>
    cases ht : numberPrefix t with
    | some n => rfl
    | none =>
      cases hs : numberPrefix s with
      | some m => simp [hs, ht] at hst
      | none =>
        simp only [hr, hs, ht, decide_eq_false_iff_not, List.not_lt] at *
        exact List.le_trans hst hrs

theorem comesFirst_asymm {r s : Bytes} (h : comesFirst r s = true) : comesFirst s r = false := by
  unfold comesFirst at *
  cases hr : numberPrefix r with
  | some m =>
    cases hs : numberPrefix s with
    | none => rfl
    | some n =>
      simp only [hr, hs, decide_eq_true_eq, decide_eq_false_iff_not] at *
      omega
  | none =>
    cases hs : numberPrefix s with
    | some n => simp [hr, hs] at h
    | none =>
      simp only [hr, hs, decide_eq_true_eq, decide_eq_false_iff_not] at *
      exact List.lt_asymm h

theorem compareStrings_irrefl (a : Bytes) : compareStrings a a = false := by
  rw [compareStrings_eq]
  exact comesFirst_irrefl _

theorem compareStrings_asymm {a b : Bytes} (h : compareStrings a b = true) :
    compareStrings b a = false := by
  rw [compareStrings_eq] at h ⊢
  rw [place_comm b a]
  exact comesFirst_asymm h

theorem compareStrings_of_place {a b : Bytes} {q : ℕ} (h : place a b = q) :
    compareStrings a b = comesFirst (a.drop q) (b.drop q) ∧
      compareStrings b a = comesFirst (b.drop q) (a.drop q) := by
  constructor
  · rw [compareStrings_eq, h]
  · rw [compareStrings_eq, place_comm b a, h]

def Consistent (a b c : Bytes) : Prop :=
  place a c < place a b →
    compareStrings a c = true ∧ compareStrings b c = true ∨
    compareStrings c a = true ∧ compareStrings c b = true ∨
    comesFirst (a.drop (place a c)) (b.drop (place a c)) = compareStrings a b ∧
      comesFirst (b.drop (place a c)) (a.drop (place a c)) = compareStrings b a

theorem compareStrings_negTrans {a b c : Bytes} (hc : Consistent a b c) (ha : Consistent b c a)
    (hb : Consistent a c b) (hab : compareStrings a b = false) (hbc : compareStrings b c = false) :
    compareStrings a c = false := by
  have hself : ∀ {x y}, compareStrings x y = true → compareStrings x y = false → False :=
    fun h h' => by rw [h] at h'; cases h'
  rcases Nat.lt_trichotomy (place a c) (place a b) with hlt | heq | hgt
  · -- `c` leaves first
    obtain ⟨hac, -⟩ := compareStrings_of_place (rfl : place a c = place a c)
    obtain ⟨hbc', -⟩ := compareStrings_of_place (place_eq_of_lt hlt)
    rcases hc hlt with ⟨-, h⟩ | ⟨h, -⟩ | ⟨h, -⟩
    · exact (hself h hbc).elim
    · exact compareStrings_asymm h
    · rw [hac]
      exact comesFirst_negTrans (h.trans hab) (hbc'.symm.trans hbc)
  · obtain ⟨hac, -⟩ := compareStrings_of_place heq
    obtain ⟨hab', -⟩ := compareStrings_of_place (rfl : place a b = place a b)
    have hle : place a b ≤ place b c := le_place_trans (place_comm a b).le heq.symm.le
    rcases hle.lt_or_eq with hlt | hall
    · -- `a` leaves first
      have hba : place b a = place a b := place_comm b a
      rcases ha (hba.trans_lt hlt) with ⟨-, h⟩ | ⟨h, -⟩ | ⟨h, -⟩
      · exact compareStrings_asymm h
      · exact (hself h hab).elim
      · rw [hba] at h
        rw [hac]
        exact comesFirst_negTrans (hab'.symm.trans hab) (h.trans hbc)
    · obtain ⟨hbc', -⟩ := compareStrings_of_place hall.symm
      rw [hac]
      exact comesFirst_negTrans (hab'.symm.trans hab) (hbc'.symm.trans hbc)
  · -- `b` leaves first
    obtain ⟨hab', -⟩ := compareStrings_of_place (rfl : place a b = place a b)
    have hcb : place c b = place a b := place_eq_of_lt hgt
    obtain ⟨-, hbc'⟩ := compareStrings_of_place hcb
    rcases hb hgt with ⟨h, -⟩ | ⟨-, h⟩ | ⟨h, -⟩
    · exact (hself h hab).elim
    · exact (hself h hbc).elim
    · rw [← h]
      exact comesFirst_negTrans (hab'.symm.trans hab) (hbc'.symm.trans hbc)

theorem first_of_between {ab ab' ac ca bc cb : Bool} (h : ac = false → cb = false → ab = false)
    (h₁ : ab' = false → bc = false → ac = false) (h₂ : ca = false → ab' = false → cb = false)
    (hbefore : ¬ (ac = true ∧ bc = true)) (hafter : ¬ (ca = true ∧ cb = true))
    (hab : ab = true) : ab' = true := by
  by_contra hnot
  have hab' : ab' = false := by simpa using hnot
  cases hac : ac with
  | true =>
    have hbc : bc = false := by simpa [hac] using hbefore
    rw [h₁ hab' hbc] at hac
    cases hac
  | false =>
    cases hcb : cb with
    | true =>
      have hca : ca = false := by simpa [hcb] using hafter
      rw [h₂ hca hab'] at hcb
      cases hcb
    | false =>
      rw [h hac hcb] at hab
      cases hab

theorem comesFirst_eq_of_between {files : List File} (ho : OrdersOn byPath files) {f g h : File}
    (hf : f ∈ files) (hg : g ∈ files) (hh : h ∈ files) {q : ℕ} (hfq : place f.path h.path = q)
    (hgq : place g.path h.path = q)
    (hbefore : ¬ (compareStrings f.path h.path = true ∧ compareStrings g.path h.path = true))
    (hafter : ¬ (compareStrings h.path f.path = true ∧ compareStrings h.path g.path = true)) :
    comesFirst (f.path.drop q) (g.path.drop q) = compareStrings f.path g.path := by
  obtain ⟨hfh, hhf⟩ := compareStrings_of_place hfq
  obtain ⟨hgh, hhg⟩ := compareStrings_of_place hgq
  rw [Bool.eq_iff_iff]
  constructor
  · refine first_of_between (fun h₁ h₂ => ?_) (ho.negTrans f hf g hg h hh)
      (ho.negTrans h hh f hf g hg) hbefore hafter
    exact comesFirst_negTrans (hfh.symm.trans h₁) (hhg.symm.trans h₂)
  · refine first_of_between (ho.negTrans f hf h hh g hg) (fun h₁ h₂ => ?_) (fun h₁ h₂ => ?_)
      hbefore hafter
    · exact hfh.trans (comesFirst_negTrans h₁ (hgh.symm.trans h₂))
    · exact hhg.trans (comesFirst_negTrans (hhf.symm.trans h₁) h₂)

theorem consistent_of_ordersOn {files : List File} (ho : OrdersOn byPath files) {f g h : File}
    (hf : f ∈ files) (hg : g ∈ files) (hh : h ∈ files) :
    Consistent f.path g.path h.path := by
  intro hlt
  have hgq := place_eq_of_lt hlt
  by_cases hbefore : compareStrings f.path h.path = true ∧ compareStrings g.path h.path = true
  · exact .inl hbefore
  by_cases hafter : compareStrings h.path f.path = true ∧ compareStrings h.path g.path = true
  · exact .inr (.inl hafter)
  refine .inr (.inr ⟨?_, ?_⟩)
  · exact comesFirst_eq_of_between ho hf hg hh rfl hgq hbefore hafter
  · exact comesFirst_eq_of_between ho hg hf hh hgq rfl (fun h => hbefore h.symm)
      fun h => hafter h.symm

theorem ordersOn_iff (files : List File) : OrdersOn byPath files ↔
    ∀ f ∈ files, ∀ g ∈ files, ∀ h ∈ files, Consistent f.path g.path h.path := by
  constructor
  · intro ho f hf g hg h hh
    exact consistent_of_ordersOn ho hf hg hh
  · intro hcons
    have hneg : ∀ f ∈ files, ∀ g ∈ files, ∀ h ∈ files,
        byPath f g = false → byPath g h = false → byPath f h = false := by
      intro f hf g hg h hh
      exact compareStrings_negTrans (hcons f hf g hg h hh) (hcons g hg h hh f hf)
        (hcons f hf h hh g hg)
    refine ⟨fun f _ => compareStrings_irrefl f.path, fun f hf g hg h hh hfg hgh => ?_, hneg⟩
    -- otherwise `g` would not come before `h`
    by_contra hnot
    have hfh : byPath f h = false := by simpa using hnot
    have hgf : byPath g f = false := compareStrings_asymm hfg
    rw [hneg g hg f hf h hh hgf hfh] at hgh
    cases hgh

def maxInt : ℕ := 2 ^ 63 - 1

def LeftInOrder (r s y : Bytes) : Prop :=
  if digitsValue s ≤ maxInt then r ≠ [] ∧ digitsValue r < digitsValue s
  else r ≠ [] ∧ digitsValue r ≤ maxInt ∨ (r = [] ∨ digitsValue r > maxInt) ∧ r ++ y < s ++ y

def NumbersInOrder (m n : ℕ) (y : Bytes) : Prop :=
  let first := decimal m ++ y.takeWhile isDigit
  let second := decimal n ++ y.takeWhile isDigit
  LeftInOrder (first.drop (place first second)) (second.drop (place first second))
    (y.dropWhile isDigit)

theorem place_append (x u v : Bytes) : place (x ++ u) (x ++ v) = x.length + place u v := by
  induction x with
  | nil => simp
  | cons c x ih =>
    have hcons : place (c :: (x ++ u)) (c :: (x ++ v)) = place (x ++ u) (x ++ v) + 1 := by
      simp [place, commonPrefix]
    rw [List.cons_append, List.cons_append, hcons, ih, List.length_cons]
    omega

theorem compareStrings_append (x u v : Bytes) :
    compareStrings (x ++ u) (x ++ v) = compareStrings u v := by
  rw [compareStrings_eq, compareStrings_eq, place_append, List.drop_length_add_append,
    List.drop_length_add_append]

theorem compareStrings_drop (a b y : Bytes) : compareStrings (a ++ y) (b ++ y) =
    compareStrings (a.drop (place a b) ++ y) (b.drop (place a b) ++ y) := by
  obtain ⟨ha, hb⟩ := commonPrefix_append_drop a b
  calc compareStrings (a ++ y) (b ++ y)
      = compareStrings (commonPrefix a b ++ (a.drop (place a b) ++ y))
          (commonPrefix a b ++ (b.drop (place a b) ++ y)) := by
        rw [← List.append_assoc, ← List.append_assoc, ha, hb]
    _ = compareStrings (a.drop (place a b) ++ y) (b.drop (place a b) ++ y) :=
        compareStrings_append _ _ _

theorem place_drop (a b : Bytes) : place (a.drop (place a b)) (b.drop (place a b)) = 0 := by
  obtain ⟨ha, hb⟩ := commonPrefix_append_drop a b
  have hsplit := place_append (commonPrefix a b) (a.drop (place a b)) (b.drop (place a b))
  rw [ha, hb] at hsplit
  have hlen : (commonPrefix a b).length = place a b := rfl
  omega

theorem numberPrefix_append {r y : Bytes} (hr : ∀ c ∈ r, isDigit c = true)
    (hy : ∀ c, y.head? = some c → isDigit c = false) : numberPrefix (r ++ y) = atoi r := by
  have hnone : y.takeWhile isDigit = [] := by
    cases y with
    | nil => rfl
    | cons c y => simp [hy c rfl]
  rw [numberPrefix, List.takeWhile_append_of_pos hr, hnone, List.append_nil]

theorem comesFirst_append_iff {r s y : Bytes} (hr : ∀ c ∈ r, isDigit c = true)
    (hs : ∀ c ∈ s, isDigit c = true) (hne : s ≠ [])
    (hy : ∀ c, y.head? = some c → isDigit c = false) :
    comesFirst (r ++ y) (s ++ y) = true ↔ LeftInOrder r s y := by
  have hatoi : ∀ t : Bytes, atoi t = if t = [] ∨ digitsValue t > maxInt then none
      else some (digitsValue t) := fun t => rfl
  unfold comesFirst LeftInOrder
  rw [numberPrefix_append hr hy, numberPrefix_append hs hy, hatoi, hatoi]
  by_cases hlarge : digitsValue s ≤ maxInt
  · have hsecond : ¬ (s = [] ∨ digitsValue s > maxInt) := by
      rintro (h | h)
      · exact hne h
      · omega
    rw [if_neg hsecond, if_pos hlarge]
    by_cases hfirst : r = [] ∨ digitsValue r > maxInt
    · rw [if_pos hfirst]
      refine iff_of_false Bool.false_ne_true ?_
      rintro ⟨hnil, hlt⟩
      rcases hfirst with h | h
      · exact hnil h
      · omega
    · rw [if_neg hfirst]
      push Not at hfirst
      simp [hfirst.1]
  · have hsecond : s = [] ∨ digitsValue s > maxInt := .inr (by omega)
    rw [if_pos hsecond, if_neg hlarge]
    by_cases hfirst : r = [] ∨ digitsValue r > maxInt
    · rw [if_pos hfirst]
      simp only [decide_eq_true_eq]
      constructor
      · exact fun h => .inr ⟨hfirst, h⟩
      · rintro (⟨hnil, hle⟩ | ⟨-, h⟩)
        · rcases hfirst with h | h
          · exact absurd h hnil
          · omega
        · exact h
    · rw [if_neg hfirst]
      push Not at hfirst
      exact iff_of_true rfl (.inl hfirst)

theorem length_decimal_le {m n : ℕ} (h : m < n) : (decimal m).length ≤ (decimal n).length := by
  have hpos : 0 < (Nat.toDigits 10 n).length := List.length_pos_iff.mpr Nat.toDigits_ne_nil
  rw [decimal, decimal, List.length_map, List.length_map,
    Nat.length_toDigits_le_iff (by decide) hpos]
  exact h.trans ((Nat.length_toDigits_le_iff (by decide) hpos).mp le_rfl)

theorem drop_second_ne_nil {m n : ℕ} (h : m < n) (digits : Bytes) :
    (decimal n ++ digits).drop (place (decimal m ++ digits) (decimal n ++ digits)) ≠ [] := by
  intro hnil
  obtain ⟨hfirst, hsecond⟩ := commonPrefix_append_drop (decimal m ++ digits) (decimal n ++ digits)
  rw [hnil, List.append_nil] at hsecond
  have hlen := congrArg List.length hfirst
  rw [hsecond, List.length_append, List.length_append, List.length_append] at hlen
  have hle := length_decimal_le h
  -- so both have all their digits in common
  have hall : (decimal m ++ digits).drop (place (decimal m ++ digits) (decimal n ++ digits)) = [] :=
    List.length_eq_zero_iff.mp (by omega)
  rw [hall, List.append_nil, hsecond] at hfirst
  have hsame := List.append_cancel_right hfirst
  have hvalue := congrArg digitsValue hsame
  rw [digitsValue_decimal, digitsValue_decimal] at hvalue
  omega

theorem isDigit_of_mem_decimal_append {n : ℕ} {y : Bytes} {k : ℕ} :
    ∀ c ∈ (decimal n ++ y.takeWhile isDigit).drop k, isDigit c = true := by
  intro c hc
  rcases List.mem_append.mp (List.mem_of_mem_drop hc) with hc | hc
  · exact List.all_eq_true.mp (all_isDecimal_decimal n) c hc
  · exact List.all_eq_true.mp List.all_takeWhile c hc

theorem place_append_eq_zero {r s y : Bytes} (h : place r s = 0) (hne : s ≠ [])
    (hs : ∀ c ∈ s, isDigit c = true) (hy : ∀ c, y.head? = some c → isDigit c = false) :
    place (r ++ y) (s ++ y) = 0 := by
  obtain ⟨d, s', rfl⟩ := List.exists_cons_of_ne_nil hne
  have hd : isDigit d = true := hs d List.mem_cons_self
  have hzero : ∀ {c : UInt8} {u v : Bytes}, c ≠ d → place (c :: u) (d :: v) = 0 :=
    fun hcd => by simp [place, commonPrefix, hcd]
  cases r with
  | cons c r =>
    apply hzero
    rintro rfl
    simp [place, commonPrefix] at h
  | nil =>
    cases y with
    | nil => simp [place, commonPrefix]
    | cons e y =>
      apply hzero
      rintro rfl
      rw [hy e rfl] at hd
      cases hd

theorem compareStrings_numbered (x y : Bytes) {m n : ℕ} (h : m < n) :
    compareStrings (x ++ decimal m ++ y) (x ++ decimal n ++ y) = true ↔ NumbersInOrder m n y := by
  have hy : ∀ c, (y.dropWhile isDigit).head? = some c → isDigit c = false := by
    intro c hc
    have hhead := List.head?_dropWhile_not isDigit y
    rw [hc] at hhead
    exact hhead
  have hdigits : ∀ k,
      decimal k ++ y = (decimal k ++ y.takeWhile isDigit) ++ y.dropWhile isDigit := by
    intro k
    rw [List.append_assoc, List.takeWhile_append_dropWhile]
  have hne := drop_second_ne_nil h (y.takeWhile isDigit)
  have hzero := place_append_eq_zero (place_drop _ _) hne isDigit_of_mem_decimal_append hy
  rw [List.append_assoc, List.append_assoc, compareStrings_append, hdigits, hdigits,
    compareStrings_drop, compareStrings_eq, hzero, List.drop_zero, List.drop_zero]
  exact comesFirst_append_iff isDigit_of_mem_decimal_append isDigit_of_mem_decimal_append hne hy

def Numeric (files : List File) : Prop :=
  ∀ f ∈ files, ∀ g ∈ files, ∀ (x y : Bytes) (m n : ℕ), f.path = x ++ decimal m ++ y →
    g.path = x ++ decimal n ++ y → m < n → byPath f g = true

def SortsAlike (files : List File) : Prop :=
  ∀ (S S' : SliceSort) (l l' : List File), l.Perm files → l'.Perm files →
    List.Forall₂ (SliceSort.Incomparable byPath) (S.sort byPath l) (S'.sort byPath l')

/-- When `CompareStrings` orders the names. -/
theorem nameOrder_iff (files : List File) :
    OrdersOn byPath files ∧ SortsAlike files ∧ Numeric files ↔
      (∀ f ∈ files, ∀ g ∈ files, ∀ h ∈ files, Consistent f.path g.path h.path) ∧
      ∀ f ∈ files, ∀ g ∈ files, ∀ (x y : Bytes) (m n : ℕ), f.path = x ++ decimal m ++ y →
        g.path = x ++ decimal n ++ y → m < n → NumbersInOrder m n y := by
  have hnumeric : Numeric files ↔ ∀ f ∈ files, ∀ g ∈ files, ∀ (x y : Bytes) (m n : ℕ),
      f.path = x ++ decimal m ++ y → g.path = x ++ decimal n ++ y → m < n →
        NumbersInOrder m n y := by
    refine forall₂_congr fun f _ => forall₂_congr fun g _ => forall₂_congr fun x y =>
      forall₂_congr fun m n => forall₃_congr fun hf hg hlt => ?_
    rw [byPath, hf, hg]
    exact compareStrings_numbered x y hlt
  rw [ordersOn_iff, hnumeric]
  constructor
  · exact fun h => ⟨h.1, h.2.2⟩
  · rintro ⟨hcons, hnum⟩
    refine ⟨hcons, fun S S' l l' hl hl' => ?_, hnum⟩
    exact S.forall₂_sort_of_perm S' ((ordersOn_iff files).mpr hcons) hl hl'

theorem numbered_names_cycle :
    compareStrings (ascii "x1") (ascii "x2") = true ∧
      compareStrings (ascii "x2") (ascii "x10") = true ∧
      compareStrings (ascii "x1") (ascii "x10") = false ∧
      compareStrings (ascii "x10") (ascii "x1") = true ∧
      SliceSort.insertion.sort byPath
          [⟨ascii "x1", 0⟩, ⟨ascii "x2", 0⟩, ⟨ascii "x10", 0⟩] =
        [⟨ascii "x1", 0⟩, ⟨ascii "x2", 0⟩, ⟨ascii "x10", 0⟩] ∧
      SliceSort.insertion.sort byPath
          [⟨ascii "x10", 0⟩, ⟨ascii "x1", 0⟩, ⟨ascii "x2", 0⟩] =
        [⟨ascii "x10", 0⟩, ⟨ascii "x1", 0⟩, ⟨ascii "x2", 0⟩] := by
  decide +kernel

end GoStream.Torr
