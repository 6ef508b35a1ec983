import GoStream.Foundations.Disk

/-!
# Decimal text
-/

namespace GoStream.Foundations

def byteOf (c : Char) : UInt8 := c.toNat.toUInt8

theorem forall_byte {P : UInt8 → Prop} (h : ∀ n < 256, P (UInt8.ofNat n)) (c : UInt8) : P c := by
  have hc := h c.toNat c.toNat_lt
  rwa [UInt8.ofNat_toNat] at hc

def ascii (s : String) : Bytes := s.toList.map byteOf

def bytewise (s : Bytes) : List ℕ := s.map UInt8.toNat

theorem bytewise_injective : Function.Injective bytewise :=
  List.map_injective_iff.mpr fun _ _ => UInt8.toNat_inj.mp

def decimal (n : ℕ) : Bytes := (Nat.toDigits 10 n).map byteOf

def itoa : ℤ → Bytes
  | .ofNat n => decimal n
  | .negSucc n => 45 :: decimal (n + 1)

def isDecimal (c : UInt8) : Bool := 48 ≤ c && c ≤ 57

def digitsValue (s : Bytes) : ℕ := s.foldl (fun n d => 10 * n + (d.toNat - 48)) 0

def parseUint (s : Bytes) : Option UInt64 :=
  if s ≠ [] ∧ s.all isDecimal ∧ digitsValue s < 2 ^ 64 then some (UInt64.ofNat (digitsValue s))
  else none

def parseInt : Bytes → Option Int64
  | 45 :: s =>
    if s ≠ [] ∧ s.all isDecimal ∧ digitsValue s ≤ 2 ^ 63 then some (Int64.ofInt (-digitsValue s))
    else none
  | 43 :: s =>
    if s ≠ [] ∧ s.all isDecimal ∧ digitsValue s < 2 ^ 63 then some (Int64.ofInt (digitsValue s))
    else none
  | s =>
    if s ≠ [] ∧ s.all isDecimal ∧ digitsValue s < 2 ^ 63 then some (Int64.ofInt (digitsValue s))
    else none

theorem byteOf_le_of_isDigit {c : Char} (h : c.isDigit = true) : byteOf c ≤ 57 := by
  simp only [Char.isDigit, Bool.and_eq_true, decide_eq_true_eq] at h
  have hle : c.toNat ≤ 57 := h.2
  unfold byteOf
  rw [UInt8.le_iff_toNat_le]
  simp
  omega

theorem le_of_mem_decimal {n : ℕ} {b : UInt8} (h : b ∈ decimal n) : b ≤ 57 := by
  obtain ⟨c, hc, rfl⟩ := List.mem_map.mp h
  exact byteOf_le_of_isDigit (Nat.isDigit_of_mem_toDigits (by omega) (by omega) hc)

theorem le_of_mem_itoa {n : ℤ} {b : UInt8} (h : b ∈ itoa n) : b ≤ 57 := by
  cases n with
  | ofNat n => exact le_of_mem_decimal h
  | negSucc n =>
    rcases List.mem_cons.mp h with rfl | h
    · decide
    · exact le_of_mem_decimal h

theorem isDecimal_byteOf {c : Char} (h : c.isDigit = true) : isDecimal (byteOf c) = true := by
  simp only [Char.isDigit, Bool.and_eq_true, decide_eq_true_eq] at h
  have hlo : 48 ≤ c.toNat := h.1
  have hhi : c.toNat ≤ 57 := h.2
  simp only [isDecimal, byteOf, Bool.and_eq_true, decide_eq_true_eq, UInt8.le_iff_toNat_le]
  simp
  omega

theorem toNat_byteOf {c : Char} (h : c.isDigit = true) : (byteOf c).toNat = c.toNat := by
  simp only [Char.isDigit, Bool.and_eq_true, decide_eq_true_eq] at h
  have hhi : c.toNat ≤ 57 := h.2
  simp [byteOf]
  omega

theorem all_isDecimal_decimal (n : ℕ) : (decimal n).all isDecimal = true := by
  rw [List.all_eq_true]
  intro b hb
  obtain ⟨c, hc, rfl⟩ := List.mem_map.mp hb
  exact isDecimal_byteOf (Nat.isDigit_of_mem_toDigits (by omega) (by omega) hc)

theorem decimal_ne_nil (n : ℕ) : decimal n ≠ [] := by
  simp [decimal, Nat.toDigits_ne_nil]

theorem digitsValue_decimal (n : ℕ) : digitsValue (decimal n) = n := by
  have hdigits : ∀ (l : List Char) (acc : ℕ), (∀ c ∈ l, c.isDigit = true) →
      (l.map byteOf).foldl (fun n d => 10 * n + (d.toNat - 48)) acc = Nat.ofDigitChars 10 l acc := by
    intro l
    induction l with
    | nil => intro acc _; simp
    | cons c l ih =>
      intro acc hl
      rw [List.map_cons, List.foldl_cons, toNat_byteOf (hl c (by simp)), Nat.ofDigitChars_cons]
      exact ih _ fun d hd => hl d (by simp [hd])
  rw [digitsValue, decimal, hdigits _ _ fun c hc =>
    Nat.isDigit_of_mem_toDigits (by omega) (by omega) hc]
  exact Nat.ofDigitChars_toDigits (by omega) (by omega)

theorem parseInt_digits {s : Bytes} (hne : s ≠ []) (hall : s.all isDecimal = true)
    (hlt : digitsValue s < 2 ^ 63) : parseInt s = some (Int64.ofInt (digitsValue s)) := by
  unfold parseInt
  split
  · simp [isDecimal] at hall
  · simp [isDecimal] at hall
  · rw [if_pos ⟨hne, hall, hlt⟩]

theorem parseInt_decimal {n : ℕ} (hn : n < 2 ^ 63) : parseInt (decimal n) = some (Int64.ofInt n) := by
  have hval := digitsValue_decimal n
  rw [parseInt_digits (decimal_ne_nil n) (all_isDecimal_decimal n) (by omega), hval]

theorem parseInt_itoa (i : Int64) : parseInt (itoa i.toInt) = some i := by
  have hlo := i.le_toInt
  have hhi := i.toInt_lt
  cases hi : i.toInt with
  | ofNat n =>
    rw [hi, Int.ofNat_eq_natCast] at hhi
    rw [itoa, parseInt_decimal (by omega), ← Int64.ofInt_toInt i, hi]
    rfl
  | negSucc n =>
    have hn : n + 1 ≤ 2 ^ 63 := by rw [hi] at hlo; omega
    simp only [itoa, parseInt]
    rw [if_pos ⟨decimal_ne_nil _, all_isDecimal_decimal _, by rw [digitsValue_decimal]; exact hn⟩,
      digitsValue_decimal, ← Int64.ofInt_toInt i, hi]
    rfl

theorem itoa_injective : Function.Injective itoa := by
  have hdecimal : Function.Injective decimal := fun m n h => by
    rw [← digitsValue_decimal m, h, digitsValue_decimal]
  have hsign : ∀ m n : ℕ, decimal m ≠ 45 :: decimal n := by
    intro m n h
    have hall := all_isDecimal_decimal m
    rw [h, List.all_cons] at hall
    exact absurd hall (by simp [isDecimal])
  intro m n h
  match m, n with
  | .ofNat m, .ofNat n => exact congrArg Int.ofNat (hdecimal h)
  | .negSucc m, .negSucc n =>
    exact congrArg Int.negSucc (Nat.succ_injective (hdecimal (List.cons.inj h).2))
  | .ofNat m, .negSucc n => exact absurd h (hsign m (n + 1))
  | .negSucc m, .ofNat n => exact absurd h.symm (hsign n (m + 1))

def isNumeral (c : UInt8) : Bool := c = 45 || isDecimal c

theorem all_isNumeral_itoa (n : ℤ) : (itoa n).all isNumeral = true := by
  have hdecimal : ∀ m : ℕ, (decimal m).all isNumeral = true := by
    intro m
    rw [List.all_eq_true]
    intro c hc
    simp [isNumeral, List.all_eq_true.mp (all_isDecimal_decimal m) c hc]
  cases n with
  | ofNat m => exact hdecimal m
  | negSucc m =>
    rw [itoa, List.all_cons, hdecimal]
    rfl

theorem not_mem_of_all {ok : UInt8 → Bool} {s : Bytes} (h : s.all ok = true) {c : UInt8}
    (hc : ok c = false) : c ∉ s := fun hmem => by
  rw [List.all_eq_true.mp h c hmem] at hc
  cases hc

def containsText (s sub : Bytes) : Bool := s.tails.any sub.isPrefixOf

theorem containsText_iff {s sub : Bytes} : containsText s sub = true ↔ sub <:+: s := by
  simp only [containsText, List.any_eq_true, List.mem_tails, List.isPrefixOf_iff_prefix,
    List.infix_iff_prefix_suffix]
  exact exists_congr fun _ => and_comm

theorem after_first_sep {sep : UInt8} {a b u v : Bytes} (ha : sep ∉ a)
    (h : a ++ sep :: b = u ++ sep :: v) : b = v ∨ ∃ w, b = w ++ sep :: v := by
  rcases List.append_eq_append_iff.mp h with ⟨w, rfl, hw⟩ | ⟨w, rfl, hw⟩
  · cases w with
    | nil => exact .inl (List.cons.inj hw).2
    | cons x w => exact .inr ⟨w, (List.cons.inj hw).2⟩
  · cases w with
    | nil => exact .inl (List.cons.inj hw).2.symm
    | cons x w =>
      have hx : sep = x := (List.cons.inj hw).1
      exact absurd (by simp [hx]) ha

def afterLast (sep : UInt8) (s : Bytes) : Bytes := (s.reverse.takeWhile (· ≠ sep)).reverse

def firstMatch {α : Type} (pattern : Bytes → Option α) : Bytes → Option α
  | [] => pattern []
  | c :: s => (pattern (c :: s)).orElse fun _ => firstMatch pattern s

def splitFirst (sep : UInt8) (s : Bytes) : Option (Bytes × Bytes) :=
  if sep ∈ s then some (s.takeWhile (· ≠ sep), (s.dropWhile (· ≠ sep)).tail) else none

def splitN (sep : UInt8) : ℕ → Bytes → List Bytes
  | 0, _ => []
  | 1, s => [s]
  | n + 2, s =>
    match splitFirst sep s with
    | none => [s]
    | some (u, v) => u :: splitN sep (n + 1) v

theorem splitFirst_append {sep : UInt8} {u v : Bytes} (hu : sep ∉ u) :
    splitFirst sep (u ++ sep :: v) = some (u, v) := by
  have hall : ∀ x ∈ u, decide (x ≠ sep) = true := by
    intro x hx
    exact decide_eq_true fun h => hu (h ▸ hx)
  rw [splitFirst, if_pos (by simp), List.takeWhile_append_of_pos hall,
    List.dropWhile_append_of_pos hall]
  simp

theorem splitN_append {sep : UInt8} {u v : Bytes} (hu : sep ∉ u) (n : ℕ) :
    splitN sep (n + 2) (u ++ sep :: v) = u :: splitN sep (n + 1) v := by
  rw [splitN, splitFirst_append hu]

theorem splitN_of_not_mem {sep : UInt8} {s : Bytes} (hs : sep ∉ s) (n : ℕ) :
    splitN sep (n + 1) s = [s] := by
  cases n with
  | zero => rfl
  | succ n => rw [splitN, splitFirst, if_neg hs]

theorem append_separator_inj {sep : UInt8} {p q u v : Bytes} (hu : sep ∉ u) (hv : sep ∉ v)
    (h : p ++ sep :: u = q ++ sep :: v) : p = q := by
  rcases List.append_eq_append_iff.mp h with ⟨w, hq, hu'⟩ | ⟨w, hp, hv'⟩
  · cases w with
    | nil => simpa using hq.symm
    | cons x w =>
      obtain ⟨-, rfl⟩ := List.cons.inj hu'
      simp at hu
  · cases w with
    | nil => simpa using hp
    | cons x w =>
      obtain ⟨-, rfl⟩ := List.cons.inj hv'
      simp at hv

theorem afterLast_append {sep : UInt8} (u : Bytes) {v : Bytes} (hv : sep ∉ v) :
    afterLast sep (u ++ sep :: v) = v := by
  have hall : ∀ x ∈ v.reverse, decide (x ≠ sep) = true := by
    intro x hx
    exact decide_eq_true fun h => hv (h ▸ List.mem_reverse.mp hx)
  rw [afterLast, List.reverse_append, List.reverse_cons, List.append_assoc,
    List.takeWhile_append_of_pos hall]
  simp

def lowerByte (c : UInt8) : UInt8 := if 65 ≤ c ∧ c ≤ 90 then c + 32 else c

def asciiLower (s : Bytes) : Bytes := s.map lowerByte

def isBlank (c : UInt8) : Bool := c = 32 || (9 ≤ c && c ≤ 13)

def trimSpace (s : Bytes) : Bytes := ((s.dropWhile isBlank).reverse.dropWhile isBlank).reverse

structure Trimmed (s : Bytes) : Prop where
  head : ∀ c, s.head? = some c → isBlank c = false
  last : ∀ c, s.getLast? = some c → isBlank c = false

theorem dropWhile_isBlank {s : Bytes} (h : ∀ c, s.head? = some c → isBlank c = false) :
    s.dropWhile isBlank = s := by
  cases s with
  | nil => rfl
  | cons c s => exact List.dropWhile_cons_of_neg (by simp [h c rfl])

theorem Trimmed.trimSpace_eq {s : Bytes} (h : Trimmed s) : trimSpace s = s := by
  rw [trimSpace, dropWhile_isBlank h.head, dropWhile_isBlank, List.reverse_reverse]
  intro c hc
  rw [List.head?_reverse] at hc
  exact h.last c hc

theorem trimSpace_append {s v : Bytes} (h : Trimmed s) (hne : s ≠ []) (hv : v.all isBlank = true) :
    trimSpace (s ++ v) = s := by
  have hhead : ∀ c, (s ++ v).head? = some c → isBlank c = false := by
    intro c hc
    rw [List.head?_append_of_ne_nil s hne] at hc
    exact h.head c hc
  have hall : ∀ c ∈ v.reverse, isBlank c = true := fun c hc =>
    List.all_eq_true.mp hv c (List.mem_reverse.mp hc)
  rw [trimSpace, dropWhile_isBlank hhead, List.reverse_append, List.dropWhile_append_of_pos hall,
    dropWhile_isBlank, List.reverse_reverse]
  intro c hc
  rw [List.head?_reverse] at hc
  exact h.last c hc

theorem Trimmed.append {u v : Bytes} (hu : Trimmed u) (hv : Trimmed v) (hune : u ≠ []) (hvne : v ≠ [])
    (mid : Bytes) : Trimmed (u ++ mid ++ v) where
  head c hc := by
    rw [List.append_assoc, List.head?_append_of_ne_nil u hune] at hc
    exact hu.head c hc
  last c hc := by
    rw [List.getLast?_append_of_ne_nil _ hvne] at hc
    exact hv.last c hc

def contains (s sub : Bytes) : Bool :=
  (firstMatch (fun t => if sub.isPrefixOf t then some () else none) s).isSome

def indexOf (sub : Bytes) : Bytes → Option ℕ
  | [] => if sub = [] then some 0 else none
  | c :: s => if sub.isPrefixOf (c :: s) then some 0 else (indexOf sub s).map (· + 1)

theorem indexOf_spec {sub s : Bytes} {i : ℕ} (h : indexOf sub s = some i) :
    sub <+: s.drop i ∧ ∀ j, sub <+: s.drop j → i ≤ j := by
  induction s generalizing i with
  | nil =>
    rw [indexOf] at h
    split_ifs at h with hsub
    obtain rfl := Option.some.inj h
    exact ⟨by simp [hsub], fun _ _ => Nat.zero_le _⟩
  | cons c s ih =>
    rw [indexOf] at h
    split_ifs at h with hpre
    · obtain rfl := Option.some.inj h
      exact ⟨List.isPrefixOf_iff_prefix.mp hpre, fun _ _ => Nat.zero_le _⟩
    · obtain ⟨i, hi, rfl⟩ := Option.map_eq_some_iff.mp h
      obtain ⟨hoccurs, hfirst⟩ := ih hi
      refine ⟨hoccurs, fun j hj => ?_⟩
      cases j with
      | zero => exact absurd (List.isPrefixOf_iff_prefix.mpr hj) hpre
      | succ j => exact Nat.succ_le_succ (hfirst j hj)

def runOf (n : ℕ) (ok : UInt8 → Bool) (s : Bytes) : Option Bytes :=
  if (s.take n).length = n ∧ (s.take n).all ok then some (s.take n) else none

section RunOf

variable {n : ℕ} {ok : UInt8 → Bool}

theorem runOf_eq_some {s r : Bytes} (h : runOf n ok s = some r) :
    r.length = n ∧ r.all ok = true := by
  unfold runOf at h
  split_ifs at h with hrun
  obtain rfl := Option.some.inj h
  exact hrun

theorem of_firstMatch {α : Type} {pattern : Bytes → Option α} {P : α → Prop}
    (hP : ∀ s r, pattern s = some r → P r) {s : Bytes} {r : α} (h : firstMatch pattern s = some r) :
    P r := by
  induction s with
  | nil => exact hP [] r h
  | cons c s ih =>
    unfold firstMatch at h
    cases hc : pattern (c :: s) with
    | none =>
      rw [hc] at h
      exact ih h
    | some r' =>
      rw [hc] at h
      obtain rfl := Option.some.inj h
      exact hP _ _ hc

theorem firstMatch_of_run {u v : Bytes} (hlen : u.length = n) (hok : u.all ok = true) :
    firstMatch (runOf n ok) (u ++ v) = some u := by
  have hrun : runOf n ok (u ++ v) = some u := by
    have htake : (u ++ v).take n = u := by rw [← hlen, List.take_left']; rfl
    rw [runOf, htake, if_pos ⟨hlen, hok⟩]
  cases huv : u ++ v with
  | nil =>
    rw [huv] at hrun
    exact hrun
  | cons c w =>
    rw [huv] at hrun
    rw [firstMatch, hrun]
    rfl

theorem runOf_append {sep : UInt8} (hsep : ok sep = false) (u v : Bytes) :
    runOf n ok (u ++ sep :: v) = runOf n ok u := by
  by_cases hlen : n ≤ u.length
  · rw [runOf, runOf, List.take_append_of_le_length hlen]
  · -- the separator is among the first `n` characters
    have hmem : sep ∈ (u ++ sep :: v).take n := by
      rw [List.take_append]
      obtain ⟨k, hk⟩ : ∃ k, n - u.length = k + 1 := ⟨n - u.length - 1, by omega⟩
      simp [hk]
    have hleft : ¬ ((u ++ sep :: v).take n).all ok = true := fun h => by
      have hbad := List.all_eq_true.mp h sep hmem
      rw [hsep] at hbad
      cases hbad
    have hright : ¬ (u.take n).length = n := by
      rw [List.length_take]
      omega
    rw [runOf, runOf, if_neg fun h => hleft h.2, if_neg fun h => hright h.1]

theorem firstMatch_append {sep : UInt8} (hsep : ok sep = false) (u v : Bytes) :
    firstMatch (runOf n ok) (u ++ sep :: v) =
      (firstMatch (runOf n ok) u).orElse fun _ => firstMatch (runOf n ok) v := by
  induction u with
  | nil =>
    have hsplit : runOf n ok ([] ++ sep :: v) = runOf n ok [] := runOf_append hsep [] v
    simp only [List.nil_append] at hsplit
    simp only [List.nil_append, firstMatch, hsplit]
  | cons c u ih =>
    have hsplit : runOf n ok (c :: u ++ sep :: v) = runOf n ok (c :: u) :=
      runOf_append hsep (c :: u) v
    rw [List.cons_append] at hsplit ⊢
    rw [firstMatch, firstMatch, hsplit, ih]
    cases runOf n ok (c :: u) <;> rfl

end RunOf

end GoStream.Foundations
