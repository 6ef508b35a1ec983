import GoStream.Foundations.Text

/-!
# JSON texts
-/

namespace GoStream.Foundations

inductive Json
  | null
  | bool (b : Bool)
  | num (literal : Bytes)
  | str (s : Bytes)
  | arr (items : List Json)
  | obj (members : List (Bytes × Json))

namespace Json

def isBlank (c : UInt8) : Bool := c = 32 || c = 9 || c = 10 || c = 13

def skip (s : Bytes) : Bytes := s.dropWhile isBlank

def utf8 (n : ℕ) : Bytes :=
  if n < 0x80 then [n.toUInt8]
  else if n < 0x800 then [(0xC0 + n / 64).toUInt8, (0x80 + n % 64).toUInt8]
  else if n < 0x10000 then
    [(0xE0 + n / 4096).toUInt8, (0x80 + n / 64 % 64).toUInt8, (0x80 + n % 64).toUInt8]
  else
    [(0xF0 + n / 262144).toUInt8, (0x80 + n / 4096 % 64).toUInt8, (0x80 + n / 64 % 64).toUInt8,
      (0x80 + n % 64).toUInt8]

def hexValue (c : UInt8) : Option ℕ :=
  if isDecimal c then some (c.toNat - 48)
  else if 97 ≤ c ∧ c ≤ 102 then some (c.toNat - 87)
  else if 65 ≤ c ∧ c ≤ 70 then some (c.toNat - 55)
  else none

def hex4 : Bytes → Option (ℕ × Bytes)
  | a :: b :: c :: d :: s => do
    let a ← hexValue a
    let b ← hexValue b
    let c ← hexValue c
    let d ← hexValue d
    some (((a * 16 + b) * 16 + c) * 16 + d, s)
  | _ => none

def isHigh (n : ℕ) : Bool := 0xD800 ≤ n && n < 0xDC00

def isLow (n : ℕ) : Bool := 0xDC00 ≤ n && n < 0xE000

def lowHalf (s : Bytes) : Option (ℕ × Bytes) :=
  if s.take 2 = [92, 117] then (hex4 (s.drop 2)).filter fun x => isLow x.1 else none

def unicodeEscape (s : Bytes) : Option (Bytes × Bytes) :=
  (hex4 s).map fun x =>
    if isHigh x.1 then
      match lowHalf x.2 with
      | some y => (utf8 (0x10000 + (x.1 - 0xD800) * 1024 + (y.1 - 0xDC00)), y.2)
      | none => (utf8 0xFFFD, x.2)
    else if isLow x.1 then (utf8 0xFFFD, x.2)
    else (utf8 x.1, x.2)

def shortEscape (c : UInt8) : Option UInt8 :=
  if c = 34 ∨ c = 92 ∨ c = 47 then some c
  else if c = 98 then some 8
  else if c = 102 then some 12
  else if c = 110 then some 10
  else if c = 114 then some 13
  else if c = 116 then some 9
  else none

def escape : Bytes → Option (Bytes × Bytes)
  | [] => none
  | c :: s => if c = 117 then unicodeEscape s else (shortEscape c).map fun b => ([b], s)

def stringBody : ℕ → Bytes → Option (Bytes × Bytes)
  | 0, _ => none
  | _ + 1, [] => none
  | n + 1, c :: s =>
    if c = 34 then some ([], s)
    else if c = 92 then
      (escape s).bind fun x => (stringBody n x.2).map fun y => (x.1 ++ y.1, y.2)
    else if c < 32 then none
    else (stringBody n s).map fun y => (c :: y.1, y.2)

def digits (s : Bytes) : Option (Bytes × Bytes) :=
  if s.takeWhile isDecimal = [] then none
  else some (s.takeWhile isDecimal, s.dropWhile isDecimal)

def fraction (s : Bytes) : Option (Bytes × Bytes) :=
  if s.head? = some 46 then (digits s.tail).map fun x => (46 :: x.1, x.2) else some ([], s)

def exponent (s : Bytes) : Option (Bytes × Bytes) :=
  if s.head? = some 101 ∨ s.head? = some 69 then
    let sign := if s.tail.head? = some 43 ∨ s.tail.head? = some 45 then s.tail.take 1 else []
    (digits (s.tail.drop sign.length)).map fun x => (s.take 1 ++ sign ++ x.1, x.2)
  else some ([], s)

def integer (s : Bytes) : Option (Bytes × Bytes) :=
  (digits s).filter fun x => ¬ (x.1.head? = some 48 ∧ x.1.length ≠ 1)

def number (s : Bytes) : Option (Bytes × Bytes) := do
  let sign := if s.head? = some 45 then s.take 1 else []
  let x ← integer (s.drop sign.length)
  let y ← fraction x.2
  let z ← exponent y.2
  some (sign ++ x.1 ++ y.1 ++ z.1, z.2)

def membersWith (value : Bytes → Option (Json × Bytes)) :
    ℕ → Bytes → Option (List (Bytes × Json) × Bytes)
  | 0, _ => none
  | n + 1, s =>
    if s.head? ≠ some 34 then none
    else do
      let key ← stringBody s.length s.tail
      if (skip key.2).head? ≠ some 58 then none
      else do
        let x ← value (skip (skip key.2).tail)
        let after := skip x.2
        if after.head? = some 125 then some ([(key.1, x.1)], after.tail)
        else if after.head? = some 44 then do
          let rest ← membersWith value n (skip after.tail)
          some ((key.1, x.1) :: rest.1, rest.2)
        else none

def itemsWith (value : Bytes → Option (Json × Bytes)) : ℕ → Bytes → Option (List Json × Bytes)
  | 0, _ => none
  | n + 1, s => do
    let x ← value s
    let after := skip x.2
    if after.head? = some 93 then some ([x.1], after.tail)
    else if after.head? = some 44 then do
      let rest ← itemsWith value n (skip after.tail)
      some (x.1 :: rest.1, rest.2)
    else none

def word (w : Bytes) (v : Json) (s : Bytes) : Option (Json × Bytes) :=
  if w.isPrefixOf s then some (v, s.drop w.length) else none

def value : ℕ → Bytes → Option (Json × Bytes)
  | 0, _ => none
  | n + 1, s =>
    if s.head? = some 34 then (stringBody s.length s.tail).map fun x => (.str x.1, x.2)
    else if s.head? = some 123 then
      if (skip s.tail).head? = some 125 then some (.obj [], (skip s.tail).tail)
      else (membersWith (value n) s.length (skip s.tail)).map fun x => (.obj x.1, x.2)
    else if s.head? = some 91 then
      if (skip s.tail).head? = some 93 then some (.arr [], (skip s.tail).tail)
      else (itemsWith (value n) s.length (skip s.tail)).map fun x => (.arr x.1, x.2)
    else if s.head? = some 116 then word (ascii "true") (.bool true) s
    else if s.head? = some 102 then word (ascii "false") (.bool false) s
    else if s.head? = some 110 then word (ascii "null") .null s
    else (number s).map fun x => (.num x.1, x.2)

def parse (s : Bytes) : Option Json :=
  (value (s.length + 1) (skip s)).bind fun x => if skip x.2 = [] then some x.1 else none

def field : Json → Bytes → Option Json
  | .obj members, key => (members.reverse.find? fun m => m.1 = key).map Prod.snd
  | _, _ => none

def stringField (v : Json) (key : Bytes) : Bytes :=
  match v.field key with
  | some (.str s) => s
  | _ => []

def hexDigit (d : ℕ) : UInt8 := if d < 10 then (48 + d).toUInt8 else (87 + d).toUInt8

def escapeByte (c : UInt8) : Bytes :=
  if c = 34 ∨ c = 92 then [92, c]
  else if c = 8 then [92, 98]
  else if c = 12 then [92, 102]
  else if c = 10 then [92, 110]
  else if c = 13 then [92, 114]
  else if c = 9 then [92, 116]
  else if c < 32 ∨ c = 60 ∨ c = 62 ∨ c = 38 then
    [92, 117, 48, 48, hexDigit (c.toNat / 16), hexDigit (c.toNat % 16)]
  else [c]

def quote (s : Bytes) : Bytes := 34 :: (s.flatMap escapeByte ++ [34])

inductive Scalar
  | str (s : Bytes)
  | int (n : ℤ)

def Scalar.toJson : Scalar → Json
  | .str s => .str s
  | .int n => .num (itoa n)

def Scalar.render : Scalar → Bytes
  | .str s => quote s
  | .int n => itoa n

def renderMember (m : Bytes × Scalar) : Bytes := quote m.1 ++ 58 :: m.2.render

def renderMembers : List (Bytes × Scalar) → Bytes
  | [] => []
  | [m] => renderMember m
  | m :: ms => renderMember m ++ 44 :: renderMembers ms

def renderObject (ms : List (Bytes × Scalar)) : Bytes := 123 :: (renderMembers ms ++ [125])

theorem skip_cons {c : UInt8} (hc : isBlank c = false) (s : Bytes) : skip (c :: s) = c :: s :=
  List.dropWhile_cons_of_neg (by simp [hc])

theorem hexValue_hexDigit : ∀ d < 16, hexValue (hexDigit d) = some d := by decide

theorem stringBody_escapeByte (n : ℕ) (c : UInt8) (rest : Bytes) :
    stringBody (n + 1) (escapeByte c ++ rest) =
      (stringBody n rest).map fun y => (c :: y.1, y.2) := by
  unfold escapeByte
  split_ifs with hquote h8 h12 h10 h13 h9 hcode
  · rcases hquote with rfl | rfl <;> simp [stringBody, escape, shortEscape]
  · simp [stringBody, escape, shortEscape, h8]
  · simp [stringBody, escape, shortEscape, h12]
  · simp [stringBody, escape, shortEscape, h10]
  · simp [stringBody, escape, shortEscape, h13]
  · simp [stringBody, escape, shortEscape, h9]
  · -- the code is below 128, so it is one byte again
    have hlt : c.toNat < 128 := by
      rcases hcode with h | rfl | rfl | rfl
      · rw [UInt8.lt_iff_toNat_lt] at h
        exact h.trans (by decide)
      · decide
      · decide
      · decide
    have hhigh := hexValue_hexDigit (c.toNat / 16) (by omega)
    have hlow := hexValue_hexDigit (c.toNat % 16) (by omega)
    have hzero : hexValue 48 = some 0 := by decide
    have hcode' : 16 * (c.toNat / 16) + c.toNat % 16 = c.toNat := by omega
    have hplain : isHigh c.toNat = false ∧ isLow c.toNat = false := by
      simp only [isHigh, isLow, Bool.and_eq_false_iff, decide_eq_false_iff_not]
      omega
    have hescape : unicodeEscape
        (48 :: 48 :: hexDigit (c.toNat / 16) :: hexDigit (c.toNat % 16) :: rest) =
          some ([c], rest) := by
      simp [unicodeEscape, hex4, hhigh, hlow, hzero, mul_comm _ 16, hcode', hplain, utf8, hlt]
    simp [stringBody, escape, hescape]
  · push Not at hquote hcode
    simp [stringBody, hquote.1, hquote.2, hcode.1]

theorem stringBody_escaped (s rest : Bytes) :
    ∀ n, s.length < n → stringBody n (s.flatMap escapeByte ++ 34 :: rest) = some (s, rest) := by
  induction s with
  | nil =>
    intro n hn
    obtain ⟨n, rfl⟩ := Nat.exists_eq_succ_of_ne_zero hn.ne'
    simp [stringBody]
  | cons c s ih =>
    intro n hn
    obtain ⟨n, rfl⟩ := Nat.exists_eq_succ_of_ne_zero (Nat.ne_of_gt (Nat.zero_lt_of_lt hn))
    rw [List.flatMap_cons, List.append_assoc, stringBody_escapeByte, ih n (by simpa using hn)]
    rfl

theorem length_le_escaped (s : Bytes) : s.length ≤ (s.flatMap escapeByte).length := by
  induction s with
  | nil => simp
  | cons c s ih =>
    have hc : 1 ≤ (escapeByte c).length := by
      unfold escapeByte
      split_ifs <;> simp
    rw [List.flatMap_cons, List.length_append, List.length_cons]
    omega

theorem stringBody_quote (s rest : Bytes) :
    stringBody (quote s ++ rest).length (quote s ++ rest).tail = some (s, rest) := by
  have hlen := length_le_escaped s
  simp only [quote, List.cons_append, List.tail_cons, List.append_assoc, List.nil_append]
  apply stringBody_escaped
  simp only [List.length_cons, List.length_append]
  omega

def endsNumber (c : UInt8) : Bool := !isDecimal c && c ≠ 46 && c ≠ 101 && c ≠ 69

theorem digits_append {t : Bytes} (ht : t.all isDecimal = true) (hne : t ≠ []) {c : UInt8}
    (hc : isDecimal c = false) (rest : Bytes) : digits (t ++ c :: rest) = some (t, c :: rest) := by
  have hall := List.all_eq_true.mp ht
  rw [digits, List.takeWhile_append_of_pos hall, List.dropWhile_append_of_pos hall]
  simp [hc, hne]

theorem head_decimal_ne_zero (n : ℕ) : (decimal n).head? = some 48 → (decimal n).length = 1 := by
  induction n using Nat.strongRecOn with
  | ind n ih =>
    by_cases hn : n < 10
    · rw [decimal, Nat.toDigits_of_lt_base hn]
      simp
    · have hdec : decimal n = decimal (n / 10) ++ [byteOf (n % 10).digitChar] := by
        rw [decimal, Nat.toDigits_of_base_le (by omega) (by omega), List.map_append]
        rfl
      intro hhead
      exfalso
      rw [hdec, List.head?_append_of_ne_nil _ (decimal_ne_nil _)] at hhead
      -- the front is a single zero, although the number has two digits
      have hone := ih (n / 10) (by omega) hhead
      obtain ⟨d, hd⟩ := List.length_eq_one_iff.mp hone
      rw [hd] at hhead
      have hzero : d = 48 := by simpa using hhead
      have hval := digitsValue_decimal (n / 10)
      rw [hd, hzero] at hval
      simp [digitsValue] at hval
      omega

theorem integer_decimal (n : ℕ) {c : UInt8} (hc : isDecimal c = false) (rest : Bytes) :
    integer (decimal n ++ c :: rest) = some (decimal n, c :: rest) := by
  rw [integer, digits_append (all_isDecimal_decimal n) (decimal_ne_nil n) hc, Option.filter_some,
    if_pos]
  simpa [imp_iff_not_or] using head_decimal_ne_zero n

theorem number_itoa (i : ℤ) {c : UInt8} (hc : endsNumber c = true) (rest : Bytes) :
    number (itoa i ++ c :: rest) = some (itoa i, c :: rest) := by
  simp only [endsNumber, Bool.and_eq_true, Bool.not_eq_true', decide_eq_true_eq] at hc
  obtain ⟨⟨⟨hdec, hpoint⟩, he⟩, hE⟩ := hc
  cases i with
  | ofNat n =>
    have hhead : (decimal n ++ c :: rest).head? ≠ some 45 := by
      intro h
      rw [List.head?_append_of_ne_nil _ (decimal_ne_nil n)] at h
      have hdigit := List.all_eq_true.mp (all_isDecimal_decimal n) 45 (List.mem_of_head? h)
      cases hdigit
    rw [itoa, number, if_neg hhead, List.length_nil, List.drop_zero, integer_decimal n hdec]
    simp [fraction, exponent, hpoint, he, hE]
  | negSucc n =>
    simp [number, itoa, integer_decimal (n + 1) hdec, fraction, exponent, hpoint, he, hE]

def Follows (rest : Bytes) : Prop := rest.head? = some 44 ∨ rest.head? = some 125

theorem value_render (n : ℕ) (x : Scalar) {rest : Bytes} (hrest : Follows rest) :
    value (n + 1) (x.render ++ rest) = some (x.toJson, rest) := by
  cases x with
  | str s =>
    have hhead : (quote s ++ rest).head? = some 34 := rfl
    rw [Scalar.render, value, if_pos hhead, stringBody_quote]
    rfl
  | int i =>
    obtain ⟨c, rest, rfl, hc⟩ : ∃ c r, rest = c :: r ∧ endsNumber c = true := by
      cases rest with
      | nil => rcases hrest with h | h <;> cases h
      | cons c r =>
        refine ⟨c, r, rfl, ?_⟩
        rcases hrest with h | h <;> (obtain rfl := Option.some.inj h; decide)
    -- a number starts with none of the characters of the other cases
    have hhead : ∀ b : UInt8, 57 < b ∨ b = 34 → (itoa i ++ c :: rest).head? ≠ some b := by
      intro b hb h
      cases i with
      | ofNat n =>
        rw [itoa, List.head?_append_of_ne_nil _ (decimal_ne_nil n)] at h
        have hmem := List.mem_of_head? h
        rcases hb with hb | rfl
        · exact absurd (le_of_mem_decimal hmem) (UInt8.not_le.mpr hb)
        · exact absurd (List.all_eq_true.mp (all_isDecimal_decimal n) 34 hmem) (by decide)
      | negSucc n =>
        obtain rfl := Option.some.inj h
        exact absurd hb (by decide)
    rw [Scalar.render, value, if_neg (hhead 34 (by decide)), if_neg (hhead 123 (by decide)),
      if_neg (hhead 91 (by decide)), if_neg (hhead 116 (by decide)),
      if_neg (hhead 102 (by decide)), if_neg (hhead 110 (by decide)), number_itoa i hc]
    rfl

theorem skip_of_follows {rest : Bytes} (h : Follows rest) : skip rest = rest := by
  cases rest with
  | nil => rfl
  | cons c r => rcases h with h | h <;> (obtain rfl := Option.some.inj h; exact skip_cons rfl r)

theorem isBlank_of_isDecimal {c : UInt8} (hc : isDecimal c = true) : isBlank c = false := by
  simp only [isDecimal, Bool.and_eq_true, decide_eq_true_eq] at hc
  simp only [isBlank, Bool.or_eq_false_iff, decide_eq_false_iff_not]
  refine ⟨⟨⟨?_, ?_⟩, ?_⟩, ?_⟩ <;> (rintro rfl; exact absurd hc.1 (by decide))

theorem skip_render (x : Scalar) (rest : Bytes) : skip (x.render ++ rest) = x.render ++ rest := by
  cases x with
  | str s => exact skip_cons rfl _
  | int i =>
    cases hi : itoa i with
    | nil => cases i <;> simp [itoa, decimal_ne_nil] at hi
    | cons c t =>
      have hc : isBlank c = false := by
        have hmem : c ∈ itoa i := by rw [hi]; exact List.mem_cons_self
        cases i with
        | ofNat n =>
          exact isBlank_of_isDecimal (List.all_eq_true.mp (all_isDecimal_decimal n) c hmem)
        | negSucc n =>
          obtain rfl : c = 45 := by
            rw [itoa] at hi
            exact (List.cons.inj hi).1.symm
          rfl
      rw [Scalar.render, hi]
      exact skip_cons hc _

theorem membersWith_member (k n : ℕ) (m : Bytes × Scalar) {after : Bytes} (h : Follows after) :
    membersWith (value (k + 1)) (n + 1) (renderMember m ++ after) =
      if after.head? = some 125 then some ([(m.1, m.2.toJson)], after.tail)
      else (membersWith (value (k + 1)) n (skip after.tail)).map fun rest =>
        ((m.1, m.2.toJson) :: rest.1, rest.2) := by
  have htext : renderMember m ++ after = quote m.1 ++ 58 :: (m.2.render ++ after) := by
    simp [renderMember]
  have hhead : (quote m.1 ++ 58 :: (m.2.render ++ after)).head? = some 34 := rfl
  have hcolon : skip (58 :: (m.2.render ++ after)) = 58 :: (m.2.render ++ after) := skip_cons rfl _
  rw [htext, membersWith, if_neg (not_not.mpr hhead), stringBody_quote]
  simp only [Option.bind_eq_bind, Option.bind_some, hcolon, List.head?_cons, ne_eq, not_true_eq_false,
    if_false, List.tail_cons, skip_render, value_render k m.2 h, skip_of_follows h]
  by_cases hend : after.head? = some 125
  · rw [if_pos hend, if_pos hend]
  · rw [if_neg hend, if_neg hend, if_pos (h.resolve_right hend)]
    cases membersWith (value (k + 1)) n (skip after.tail) <;> rfl

theorem membersWith_render (k : ℕ) (rest : Bytes) (ms : List (Bytes × Scalar)) : ∀ n,
    ms ≠ [] → ms.length ≤ n → membersWith (value (k + 1)) n (renderMembers ms ++ 125 :: rest) =
      some (ms.map fun m => (m.1, m.2.toJson), rest) := by
  induction ms with
  | nil => exact fun _ h => absurd rfl h
  | cons m ms ih =>
    intro n _ hn
    obtain ⟨n, rfl⟩ := Nat.exists_eq_succ_of_ne_zero (Nat.ne_of_gt (Nat.zero_lt_of_lt hn))
    cases ms with
    | nil => exact membersWith_member k n m (.inr rfl)
    | cons m' ms =>
      have hskip : skip (renderMembers (m' :: ms) ++ 125 :: rest) =
          renderMembers (m' :: ms) ++ 125 :: rest := by
        cases ms <;> exact skip_cons rfl _
      rw [renderMembers, List.append_assoc, List.cons_append, membersWith_member k n m (.inl rfl),
        if_neg (by simp), List.tail_cons, hskip, ih n (by simp) (by simpa using hn)]
      · rfl
      · simp

theorem length_le_renderMembers (ms : List (Bytes × Scalar)) :
    ms.length ≤ (renderMembers ms).length := by
  induction ms with
  | nil => simp
  | cons m ms ih =>
    cases ms with
    | nil => simp [renderMembers, renderMember, quote]
    | cons m' ms =>
      have htext : renderMembers (m :: m' :: ms) = renderMember m ++ 44 :: renderMembers (m' :: ms) :=
        rfl
      simp only [htext, List.length_append, List.length_cons] at ih ⊢
      omega

theorem parse_renderObject (ms : List (Bytes × Scalar)) :
    parse (renderObject ms) = some (.obj (ms.map fun m => (m.1, m.2.toJson))) := by
  cases ms with
  | nil => rfl
  | cons m ms =>
    have hskip : skip (renderMembers (m :: ms) ++ [125]) = renderMembers (m :: ms) ++ [125] := by
      cases ms <;> exact skip_cons rfl _
    have hhead : (renderMembers (m :: ms) ++ [125]).head? ≠ some 125 := by
      cases ms <;> exact fun h => by cases h
    have hlen := length_le_renderMembers (m :: ms)
    have hvalue : value ((renderObject (m :: ms)).length + 1) (renderObject (m :: ms)) =
        some (.obj ((m :: ms).map fun m => (m.1, m.2.toJson)), []) := by
      have hmembers := membersWith_render ((renderObject (m :: ms)).length - 1) [] (m :: ms)
        (renderObject (m :: ms)).length (by simp) (by simp [renderObject] at hlen ⊢; omega)
      have hfuel : (renderObject (m :: ms)).length - 1 + 1 = (renderObject (m :: ms)).length := by
        simp [renderObject]
      rw [hfuel] at hmembers
      unfold value
      rw [if_neg (by simp [renderObject]), if_pos (by simp [renderObject])]
      simp only [show (renderObject (m :: ms)).tail = renderMembers (m :: ms) ++ [125] from rfl,
        hskip, if_neg hhead, hmembers, Option.map_some]
    rw [parse, show skip (renderObject (m :: ms)) = renderObject (m :: ms) from skip_cons rfl _,
      hvalue]
    rfl

end Json

end GoStream.Foundations
