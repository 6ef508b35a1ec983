import GoStream.Foundations.Json
import GoStream.Foundations.Regex
import Mathlib.Data.List.TakeWhile

/-!
# JSON texts as trees
-/

namespace GoStream.Foundations.JsonText

open Json

structure Blank where
  text : Bytes
  all : text.all Json.isBlank = true

inductive StringChar
  | plain (c : UInt8) (h : c ≠ 34 ∧ c ≠ 92 ∧ 32 ≤ c)
  | short (c b : UInt8) (h : shortEscape c = some b)
  | unicode (digits : Bytes) (n : ℕ) (h : hex4 digits = some (n, []))

structure Digits where
  text : Bytes
  nonempty : text ≠ []
  all : text.all isDecimal = true

structure Exponent where
  letter : UInt8
  isLetter : letter = 101 ∨ letter = 69
  sign : Bytes
  isSign : sign = [] ∨ sign = [43] ∨ sign = [45]
  digits : Digits

structure Number where
  negative : Bool
  integer : Digits
  noZero : integer.text.head? = some 48 → integer.text.length = 1
  fraction : Option Digits
  exponent : Option Exponent

structure Word where
  text : Bytes
  nonempty : text ≠ []
  all : text.all isWord = true

structure Space where
  text : Bytes
  all : text.all Regex.isSpace = true

mutual

inductive Value
  | null
  | bool (b : Bool)
  | num (n : Number)
  | str (s : List StringChar)
  | emptyArr (w : Blank)
  | arr (items : Items)
  | emptyObj (w : Blank)
  | obj (members : Members)

inductive Items
  | one (w : Blank) (v : Value) (w' : Blank)
  | more (w : Blank) (v : Value) (w' : Blank) (rest : Items)

inductive Members
  | one (w : Blank) (key : List StringChar) (w₁ w₂ : Blank) (v : Value) (w₃ : Blank)
  | more (w : Blank) (key : List StringChar) (w₁ w₂ : Blank) (v : Value) (w₃ : Blank)
      (rest : Members)
  | gap (w : Blank) (key : Word) (space : Space) (rest : Members)

end

def StringChar.text : StringChar → Bytes
  | .plain c _ => [c]
  | .short c _ _ => [92, c]
  | .unicode digits _ _ => 92 :: 117 :: digits

def writeString (s : List StringChar) (rest : Bytes) : Bytes :=
  34 :: (s.flatMap StringChar.text ++ 34 :: rest)

def Exponent.text (e : Exponent) : Bytes := e.letter :: (e.sign ++ e.digits.text)

def Number.text (n : Number) : Bytes :=
  (if n.negative then [45] else []) ++ n.integer.text ++
    (n.fraction.elim [] fun d => 46 :: d.text) ++ n.exponent.elim [] Exponent.text

mutual

def Value.write (gap : Word → Space → Bytes) : Value → Bytes → Bytes
  | .null, rest => ascii "null" ++ rest
  | .bool true, rest => ascii "true" ++ rest
  | .bool false, rest => ascii "false" ++ rest
  | .num n, rest => n.text ++ rest
  | .str s, rest => writeString s rest
  | .emptyArr w, rest => 91 :: (w.text ++ 93 :: rest)
  | .arr items, rest => 91 :: items.write gap (93 :: rest)
  | .emptyObj w, rest => 123 :: (w.text ++ 125 :: rest)
  | .obj members, rest => 123 :: members.write gap (125 :: rest)

def Items.write (gap : Word → Space → Bytes) : Items → Bytes → Bytes
  | .one w v w', rest => w.text ++ v.write gap (w'.text ++ rest)
  | .more w v w' items, rest => w.text ++ v.write gap (w'.text ++ 44 :: items.write gap rest)

def Members.write (gap : Word → Space → Bytes) : Members → Bytes → Bytes
  | .one w key w₁ w₂ v w₃, rest =>
    w.text ++ writeString key (w₁.text ++ 58 :: (w₂.text ++ v.write gap (w₃.text ++ rest)))
  | .more w key w₁ w₂ v w₃ members, rest =>
    w.text ++ writeString key (w₁.text ++ 58 :: (w₂.text ++ v.write gap
      (w₃.text ++ 44 :: members.write gap rest)))
  | .gap w key space members, rest => w.text ++ (gap key space ++ members.write gap rest)

end

def single (n : ℕ) : Bytes := if isHigh n || isLow n then utf8 0xFFFD else utf8 n

def stringValue : List StringChar → Bytes
  | [] => []
  | .plain c _ :: s => c :: stringValue s
  | .short _ b _ :: s => b :: stringValue s
  | .unicode _ n _ :: .unicode ds m h :: s =>
    if isHigh n && isLow m then
      utf8 (0x10000 + (n - 0xD800) * 1024 + (m - 0xDC00)) ++ stringValue s
    else single n ++ stringValue (.unicode ds m h :: s)
  | .unicode _ n _ :: s => single n ++ stringValue s

mutual

def Value.json : Value → Json
  | .null => .null
  | .bool b => .bool b
  | .num n => .num n.text
  | .str s => .str (stringValue s)
  | .emptyArr _ => .arr []
  | .arr items => .arr items.json
  | .emptyObj _ => .obj []
  | .obj members => .obj members.json

def Items.json : Items → List Json
  | .one _ v _ => [v.json]
  | .more _ v _ rest => v.json :: rest.json

def Members.json : Members → List (Bytes × Json)
  | .one _ key _ _ v _ => [(stringValue key, v.json)]
  | .more _ key _ _ v _ rest => (stringValue key, v.json) :: rest.json
  | .gap _ key _ rest => (key.text, .num [48]) :: rest.json

end

mutual

def Value.full : Value → Bool
  | .arr items => items.full
  | .obj members => members.full
  | _ => true

def Items.full : Items → Bool
  | .one _ v _ => v.full
  | .more _ v _ rest => v.full && rest.full

def Members.full : Members → Bool
  | .one _ _ _ _ v _ => v.full
  | .more _ _ _ _ v _ rest => v.full && rest.full
  | .gap _ _ _ _ => false

end

mutual

def Value.size : Value → ℕ
  | .arr items => items.size + 1
  | .obj members => members.size + 1
  | _ => 1

def Items.size : Items → ℕ
  | .one _ v _ => v.size + 1
  | .more _ v _ rest => v.size + rest.size + 1

def Members.size : Members → ℕ
  | .one _ _ _ _ v _ => v.size + 1
  | .more _ _ _ _ v _ rest => v.size + rest.size + 1
  | .gap _ _ _ rest => rest.size + 2

end

variable {rest : Bytes}

theorem skip_blank (w : Blank) {c : UInt8} (hc : Json.isBlank c = false) (t : Bytes) :
    skip (w.text ++ c :: t) = c :: t := by
  rw [skip, List.dropWhile_append_of_pos (List.all_eq_true.mp w.all)]
  exact skip_cons hc t

def ReadsAs (body val : Bytes) : Prop := ∀ (rest : Bytes) (n : ℕ), body.length < n →
  stringBody n (body ++ 34 :: rest) = some (val, rest)

theorem readsAs_nil : ReadsAs [] [] := by
  intro rest n hn
  obtain ⟨n, rfl⟩ := Nat.exists_eq_succ_of_ne_zero hn.ne'
  simp [stringBody]

theorem readsAs_plain {c : UInt8} (hc : c ≠ 34 ∧ c ≠ 92 ∧ 32 ≤ c) {body val : Bytes}
    (h : ReadsAs body val) : ReadsAs (c :: body) (c :: val) := by
  intro rest n hn
  obtain ⟨n, rfl⟩ := Nat.exists_eq_succ_of_ne_zero (Nat.ne_of_gt (Nat.zero_lt_of_lt hn))
  have hlow : ¬ c < 32 := UInt8.not_lt.mpr hc.2.2
  simp [stringBody, hc.1, hc.2.1, hlow, h rest n (by simpa using hn)]

theorem readsAs_escape {e body val val' : Bytes}
    (he : ∀ rest, escape (e ++ (body ++ 34 :: rest)) = some (val', body ++ 34 :: rest))
    (h : ReadsAs body val) : ReadsAs (92 :: (e ++ body)) (val' ++ val) := by
  intro rest n hn
  obtain ⟨n, rfl⟩ := Nat.exists_eq_succ_of_ne_zero (Nat.ne_of_gt (Nat.zero_lt_of_lt hn))
  have hlen : body.length < n := by
    simp only [List.length_cons, List.length_append] at hn
    omega
  rw [List.cons_append, List.append_assoc, stringBody, if_neg (by decide), if_pos rfl, he]
  simp [h rest n hlen]

theorem hex4_append {ds : Bytes} {n : ℕ} (h : hex4 ds = some (n, [])) (t : Bytes) :
    hex4 (ds ++ t) = some (n, t) := by
  match ds, h with
  | [a, b, c, d], h =>
    simp only [hex4, Option.bind_eq_bind, Option.bind_eq_some_iff] at h
    obtain ⟨a', ha, b', hb, c', hc, d', hd, heq⟩ := h
    simp only [List.cons_append, List.nil_append, hex4, ha, hb, hc, hd, Option.bind_eq_bind,
      Option.bind_some]
    rw [(Prod.mk.inj (Option.some.inj heq)).1]
  | _ :: _ :: _ :: _ :: _ :: _, h =>
    simp only [hex4, Option.bind_eq_bind, Option.bind_eq_some_iff] at h
    obtain ⟨a', ha, b', hb, c', hc, d', hd, heq⟩ := h
    simp at heq

theorem lowHalf_unicode {ds : Bytes} {m : ℕ} (h : hex4 ds = some (m, [])) (t : Bytes) :
    lowHalf (92 :: 117 :: (ds ++ t)) = if isLow m then some (m, t) else none := by
  simp [lowHalf, hex4_append h, Option.filter_some]

theorem lowHalf_eq_none {s : List StringChar} (hs : ∀ ds n h t, s ≠ .unicode ds n h :: t) :
    lowHalf (s.flatMap StringChar.text ++ 34 :: rest) = none := by
  cases s with
  | nil => simp [lowHalf]
  | cons x s =>
    cases x with
    | plain c h => simp [lowHalf, StringChar.text, h.2.1]
    | short c b h =>
      have hc : c ≠ 117 := by
        rintro rfl
        simp [shortEscape] at h
      simp [lowHalf, StringChar.text, hc]
    | unicode ds n h => exact absurd rfl (hs ds n h s)

theorem escape_single {ds : Bytes} {n : ℕ} (h : hex4 ds = some (n, [])) {t : Bytes}
    (ht : isHigh n = true → lowHalf t = none) :
    escape (117 :: (ds ++ t)) = some (single n, t) := by
  simp only [escape, if_pos, unicodeEscape, hex4_append h, Option.map_some, single]
  cases hhigh : isHigh n with
  | true => simp [ht hhigh]
  | false => cases isLow n <;> simp

theorem readsAs_string (s : List StringChar) :
    ReadsAs (s.flatMap StringChar.text) (stringValue s) := by
  induction s using stringValue.induct with
  | case1 => exact readsAs_nil
  | case2 c h s ih => exact readsAs_plain h ih
  | case3 c b h s ih =>
    have hc : c ≠ 117 := by
      rintro rfl
      simp [shortEscape] at h
    have hescape : ∀ rest, escape ([c] ++ (s.flatMap StringChar.text ++ 34 :: rest)) =
        some ([b], s.flatMap StringChar.text ++ 34 :: rest) := by
      intro rest
      simp [escape, hc, h]
    exact readsAs_escape hescape ih
  | case4 ds n h ds' m h' s hpair ih =>
    rw [Bool.and_eq_true] at hpair
    rw [stringValue, if_pos (by simp [hpair])]
    have htext : (StringChar.unicode ds n h :: .unicode ds' m h' :: s).flatMap StringChar.text =
        92 :: (117 :: (ds ++ 92 :: 117 :: ds') ++ s.flatMap StringChar.text) := by
      simp [StringChar.text]
    rw [htext]
    refine readsAs_escape (fun rest => ?_) ih
    have hlow := lowHalf_unicode h' (s.flatMap StringChar.text ++ 34 :: rest)
    simp [escape, unicodeEscape, hex4_append h, hpair.1, hlow, hpair.2]
  | case5 ds n h ds' m h' s hpair ih =>
    rw [stringValue, if_neg hpair]
    have htext : (StringChar.unicode ds n h :: .unicode ds' m h' :: s).flatMap StringChar.text =
        92 :: (117 :: ds ++ (StringChar.unicode ds' m h' :: s).flatMap StringChar.text) := by
      simp [StringChar.text]
    rw [htext]
    refine readsAs_escape (fun rest => ?_) ih
    refine escape_single h fun hhigh => ?_
    have hlow := lowHalf_unicode h' (s.flatMap StringChar.text ++ 34 :: rest)
    have hm : isLow m = false := by simpa [hhigh] using hpair
    simpa [StringChar.text, hm] using hlow
  | case6 ds n h s hs ih =>
    rw [stringValue]
    · have htext : (StringChar.unicode ds n h :: s).flatMap StringChar.text =
          92 :: (117 :: ds ++ s.flatMap StringChar.text) := by
        simp [StringChar.text]
      rw [htext]
      refine readsAs_escape (fun rest => ?_) ih
      exact escape_single h fun _ => lowHalf_eq_none hs
    · exact hs

theorem plain_of_isWord {c : UInt8} (hc : isWord c = true) : c ≠ 34 ∧ c ≠ 92 ∧ 32 ≤ c := by
  refine ⟨?_, ?_, ?_⟩
  · rintro rfl
    exact absurd hc (by decide)
  · rintro rfl
    exact absurd hc (by decide)
  · simp only [isWord, isDecimal, Bool.or_eq_true, Bool.and_eq_true, decide_eq_true_eq,
      UInt8.le_iff_toNat_le, ← UInt8.toNat_inj, UInt8.reduceToNat] at hc ⊢
    omega

theorem readsAs_word {s : Bytes} (hs : s.all isWord = true) : ReadsAs s s := by
  induction s with
  | nil => exact readsAs_nil
  | cons c s ih =>
    rw [List.all_cons, Bool.and_eq_true] at hs
    exact readsAs_plain (plain_of_isWord hs.1) (ih hs.2)

def NoDigit (u : Bytes) : Prop := u ≠ [] ∧ ∀ c, u.head? = some c → isDecimal c = false

theorem Digits.read (d : Digits) {u : Bytes} (hu : NoDigit u) :
    Json.digits (d.text ++ u) = some (d.text, u) := by
  cases u with
  | nil => exact absurd rfl hu.1
  | cons c u => exact digits_append d.all d.nonempty (hu.2 c rfl) u

theorem Digits.head_ne (d : Digits) {c : UInt8} (hc : isDecimal c = false) (u : Bytes) :
    (d.text ++ u).head? ≠ some c := by
  rw [List.head?_append_of_ne_nil _ d.nonempty]
  intro h
  rw [List.all_eq_true.mp d.all c (List.mem_of_head? h)] at hc
  cases hc

theorem exponent_append (e : Option Exponent) {c : UInt8} (hc : endsNumber c = true) (t : Bytes) :
    Json.exponent (e.elim [] Exponent.text ++ c :: t) = some (e.elim [] Exponent.text, c :: t) := by
  simp only [endsNumber, Bool.and_eq_true, Bool.not_eq_true', decide_eq_true_eq] at hc
  obtain ⟨⟨⟨hdec, -⟩, he⟩, hE⟩ := hc
  cases e with
  | none => simp [Json.exponent, he, hE]
  | some e =>
    obtain ⟨letter, hletter, sign, hsign, ds⟩ := e
    have hds := ds.read (u := c :: t) ⟨by simp, fun _ h => Option.some.inj h ▸ hdec⟩
    have hplus := ds.head_ne (c := 43) rfl (c :: t)
    have hminus := ds.head_ne (c := 45) rfl (c :: t)
    simp only [Option.elim_some, Exponent.text, List.cons_append, List.append_assoc]
    generalize ds.text ++ c :: t = u at hds hplus hminus
    rcases hletter with rfl | rfl <;> rcases hsign with rfl | rfl | rfl <;>
      simp [Json.exponent, hds, hplus, hminus]

theorem fraction_append (frac : Option Digits) {u : Bytes} (hu : NoDigit u)
    (hpoint : u.head? ≠ some 46) : Json.fraction ((frac.elim [] fun d => 46 :: d.text) ++ u) =
      some (frac.elim [] fun d => 46 :: d.text, u) := by
  cases frac with
  | none => simp [Json.fraction, hpoint]
  | some d => simp [Json.fraction, d.read hu]

theorem integer_append {d : Digits} (hzero : d.text.head? = some 48 → d.text.length = 1)
    {u : Bytes} (hu : NoDigit u) : Json.integer (d.text ++ u) = some (d.text, u) := by
  rw [Json.integer, d.read hu, Option.filter_some, if_pos]
  simpa [imp_iff_not_or] using hzero

theorem Number.read (n : Number) {c : UInt8} (hc : endsNumber c = true) (t : Bytes) :
    Json.number (n.text ++ c :: t) = some (n.text, c :: t) := by
  obtain ⟨negative, int, hzero, frac, exp⟩ := n
  have hexp := exponent_append exp hc t
  -- what follows the digits of a part is not a digit, and no point after the fraction
  have hafter : NoDigit (exp.elim [] Exponent.text ++ c :: t) ∧
      (exp.elim [] Exponent.text ++ c :: t).head? ≠ some 46 := by
    simp only [endsNumber, Bool.and_eq_true, Bool.not_eq_true', decide_eq_true_eq] at hc
    cases exp with
    | none =>
      exact ⟨⟨by simp, fun _ h => Option.some.inj h ▸ hc.1.1.1⟩, fun h => hc.1.1.2 (Option.some.inj h)⟩
    | some e =>
      obtain ⟨letter, rfl | rfl, sign, -, ds⟩ := e
      · exact ⟨⟨by simp [Exponent.text], fun _ h => Option.some.inj h ▸ rfl⟩, by simp [Exponent.text]⟩
      · exact ⟨⟨by simp [Exponent.text], fun _ h => Option.some.inj h ▸ rfl⟩, by simp [Exponent.text]⟩
  have hfrac := fraction_append frac hafter.1 hafter.2
  have hmiddle : NoDigit ((frac.elim [] fun d => 46 :: d.text) ++
      (exp.elim [] Exponent.text ++ c :: t)) := by
    cases frac with
    | none => exact hafter.1
    | some d => exact ⟨by simp, fun _ h => Option.some.inj h ▸ rfl⟩
  have hint := integer_append hzero hmiddle
  have hminus := int.head_ne (c := 45) rfl ((frac.elim [] fun d => 46 :: d.text) ++
    (exp.elim [] Exponent.text ++ c :: t))
  simp only [Number.text, List.append_assoc]
  generalize (frac.elim [] fun d => 46 :: d.text) ++ (exp.elim [] Exponent.text ++ c :: t) = u
    at hfrac hint hminus
  cases negative with
  | false =>
    generalize int.text ++ u = v at hint hminus
    simp [Json.number, hminus, hint, hfrac, hexp]
  | true => simp [Json.number, hint, hfrac, hexp]

def startsValue (c : UInt8) : Bool :=
  isDecimal c || c = 45 || c = 34 || c = 123 || c = 91 || c = 116 || c = 102 || c = 110

theorem Number.head (n : Number) : ∃ c t, n.text = c :: t ∧ (c = 45 ∨ isDecimal c = true) := by
  obtain ⟨negative, ⟨ds, hne, hall⟩, hzero, frac, exp⟩ := n
  cases negative with
  | true => exact ⟨45, _, rfl, .inl rfl⟩
  | false =>
    cases ds with
    | nil => exact absurd rfl hne
    | cons c t =>
      rw [List.all_cons, Bool.and_eq_true] at hall
      exact ⟨c, _, rfl, .inr hall.1⟩

variable (gap : Word → Space → Bytes)

theorem Value.head (v : Value) (rest : Bytes) :
    ∃ c t, v.write gap rest = c :: t ∧ startsValue c = true := by
  cases v with
  | num n =>
    obtain ⟨c, t, heq, hc⟩ := n.head
    refine ⟨c, t ++ rest, by rw [Value.write, heq, List.cons_append], ?_⟩
    rcases hc with rfl | hc
    · rfl
    · simp [startsValue, hc]
  | bool b => cases b <;> exact ⟨_, _, rfl, rfl⟩
  | null | str | emptyArr | arr | emptyObj | obj => exact ⟨_, _, rfl, rfl⟩

theorem isBlank_of_startsValue {c : UInt8} (hc : startsValue c = true) :
    Json.isBlank c = false := by
  by_contra hblank
  simp only [Json.isBlank, Bool.not_eq_false, Bool.or_eq_true, decide_eq_true_eq] at hblank
  rcases hblank with ((rfl | rfl) | rfl) | rfl <;> exact absurd hc (by decide)

theorem Value.skip_write (v : Value) (w : Blank) (rest : Bytes) :
    skip (w.text ++ v.write gap rest) = v.write gap rest := by
  obtain ⟨c, t, heq, hc⟩ := v.head gap rest
  rw [heq]
  exact skip_blank w (isBlank_of_startsValue hc) t

theorem length_writeString (s : List StringChar) (rest : Bytes) :
    rest.length + 2 ≤ (writeString s rest).length := by
  simp only [writeString, List.length_cons, List.length_append]
  omega

mutual

theorem Value.size_le (hgap : ∀ key space, 2 ≤ (gap key space).length) :
    ∀ (v : Value) (rest : Bytes), v.size + rest.length ≤ (v.write gap rest).length
  | .null, rest => by simp [Value.size, Value.write, ascii]; omega
  | .bool true, rest => by simp [Value.size, Value.write, ascii]; omega
  | .bool false, rest => by simp [Value.size, Value.write, ascii]; omega
  | .num n, rest => by
    obtain ⟨c, t, heq, -⟩ := n.head
    simp [Value.size, Value.write, heq]
    omega
  | .str s, rest => by
    have h := length_writeString s rest
    simp only [Value.size, Value.write]
    omega
  | .emptyArr w, rest => by simp [Value.size, Value.write]; omega
  | .arr items, rest => by
    have h := Items.size_le hgap items (93 :: rest)
    simp only [Value.size, Value.write, List.length_cons] at h ⊢
    omega
  | .emptyObj w, rest => by simp [Value.size, Value.write]; omega
  | .obj members, rest => by
    have h := Members.size_le hgap members (125 :: rest)
    simp only [Value.size, Value.write, List.length_cons] at h ⊢
    omega

theorem Items.size_le (hgap : ∀ key space, 2 ≤ (gap key space).length) :
    ∀ (items : Items) (rest : Bytes), items.size + rest.length ≤ (items.write gap rest).length + 1
  | .one w v w', rest => by
    have h := Value.size_le hgap v (w'.text ++ rest)
    simp only [Items.size, Items.write, List.length_append] at h ⊢
    omega
  | .more w v w' items, rest => by
    have hitems := Items.size_le hgap items rest
    have h := Value.size_le hgap v (w'.text ++ 44 :: items.write gap rest)
    simp only [Items.size, Items.write, List.length_append, List.length_cons] at h ⊢
    omega

theorem Members.size_le (hgap : ∀ key space, 2 ≤ (gap key space).length) :
    ∀ (members : Members) (rest : Bytes),
      members.size + rest.length ≤ (members.write gap rest).length
  | .one w key w₁ w₂ v w₃, rest => by
    have h := Value.size_le hgap v (w₃.text ++ rest)
    have hkey := length_writeString key (w₁.text ++ 58 :: (w₂.text ++ v.write gap (w₃.text ++ rest)))
    simp only [Members.size, Members.write, List.length_append, List.length_cons] at h hkey ⊢
    omega
  | .more w key w₁ w₂ v w₃ members, rest => by
    have hmembers := Members.size_le hgap members rest
    have h := Value.size_le hgap v (w₃.text ++ 44 :: members.write gap rest)
    have hkey := length_writeString key
      (w₁.text ++ 58 :: (w₂.text ++ v.write gap (w₃.text ++ 44 :: members.write gap rest)))
    simp only [Members.size, Members.write, List.length_append, List.length_cons] at h hkey ⊢
    omega
  | .gap w key space members, rest => by
    have hmembers := Members.size_le hgap members rest
    have h := hgap key space
    simp only [Members.size, Members.write, List.length_append]
    omega

end

def Ends (rest : Bytes) : Prop := ∃ c t, rest = c :: t ∧ endsNumber c = true

theorem ends_blank (w : Blank) {c : UInt8} (hc : endsNumber c = true) (t : Bytes) :
    Ends (w.text ++ c :: t) := by
  obtain ⟨s, hs⟩ := w
  cases s with
  | nil => exact ⟨c, t, rfl, hc⟩
  | cons b s =>
    rw [List.all_cons, Bool.and_eq_true] at hs
    refine ⟨b, s ++ c :: t, rfl, ?_⟩
    have hb := hs.1
    simp only [Json.isBlank, Bool.or_eq_true, decide_eq_true_eq] at hb
    rcases hb with ((rfl | rfl) | rfl) | rfl <;> rfl

theorem value_num (n : ℕ) (x : Number) (hrest : Ends rest) :
    Json.value (n + 1) (x.text ++ rest) = some (.num x.text, rest) := by
  obtain ⟨c, t, rfl, hc⟩ := hrest
  obtain ⟨b, u, heq, hb⟩ := x.head
  have hread := x.read hc t
  have hne : b ≠ 34 ∧ b ≠ 123 ∧ b ≠ 91 ∧ b ≠ 116 ∧ b ≠ 102 ∧ b ≠ 110 := by
    refine ⟨?_, ?_, ?_, ?_, ?_, ?_⟩ <;> rintro rfl <;> exact absurd hb (by decide)
  have hhead : (x.text ++ c :: t).head? = some b := by rw [heq]; rfl
  simp only [Json.value, hhead, Option.some.injEq, hne, if_false, hread, Option.map_some]

theorem value_string (n : ℕ) (s : List StringChar) (rest : Bytes) :
    Json.value (n + 1) (writeString s rest) = some (.str (stringValue s), rest) := by
  have hbody : stringBody (writeString s rest).length (writeString s rest).tail =
      some (stringValue s, rest) := by
    refine readsAs_string s rest _ ?_
    simp only [writeString, List.length_cons, List.length_append]
    omega
  have hhead : (writeString s rest).head? = some 34 := rfl
  rw [Json.value, if_pos hhead, hbody]
  rfl

theorem membersWith_string (f : Bytes → Option (Json × Bytes)) (n : ℕ) {body val t : Bytes}
    (hbody : ReadsAs body val) (w w₁ w₂ : Blank) (ht : skip (w₂.text ++ t) = t) :
    membersWith f (n + 1)
      (skip (w.text ++ 34 :: (body ++ 34 :: (w₁.text ++ 58 :: (w₂.text ++ t))))) =
    (f t).bind fun x =>
      if (skip x.2).head? = some 125 then some ([(val, x.1)], (skip x.2).tail)
      else if (skip x.2).head? = some 44 then
        (membersWith f n (skip (skip x.2).tail)).map fun rest => ((val, x.1) :: rest.1, rest.2)
      else none := by
  have hkey : stringBody (34 :: (body ++ 34 :: (w₁.text ++ 58 :: (w₂.text ++ t)))).length
      (body ++ 34 :: (w₁.text ++ 58 :: (w₂.text ++ t))) =
        some (val, w₁.text ++ 58 :: (w₂.text ++ t)) := by
    refine hbody _ _ ?_
    simp only [List.length_cons, List.length_append]
    omega
  rw [skip_blank w rfl, membersWith, if_neg (by simp), List.tail_cons, hkey]
  simp only [Option.bind_eq_bind, Option.bind_some, skip_blank w₁ (c := 58) rfl, List.head?_cons,
    ne_eq, not_true_eq_false, if_false, List.tail_cons, ht]
  congr 1
  funext x
  split_ifs
  · rfl
  · cases membersWith f n (skip (skip x.2).tail) <;> rfl
  · rfl

theorem Members.skip_head (hgap : ∀ key space, (gap key space).head? = some 34) (members : Members)
    (rest : Bytes) : (skip (members.write gap rest)).head? = some 34 := by
  cases members with
  | one w key w₁ w₂ v w₃ | more w key w₁ w₂ v w₃ members =>
    rw [Members.write, writeString, skip_blank w rfl]; rfl
  | gap w key space members =>
    obtain ⟨t, ht⟩ := List.head?_eq_some_iff.mp (hgap key space)
    rw [Members.write, ht, List.cons_append, skip_blank w rfl]
    rfl

theorem Members.ends (hgap : ∀ key space, (gap key space).head? = some 34) (members : Members)
    (rest : Bytes) : Ends (members.write gap rest) := by
  cases members with
  | one w key w₁ w₂ v w₃ | more w key w₁ w₂ v w₃ members => exact ends_blank w rfl _
  | gap w key space members =>
    obtain ⟨t, ht⟩ := List.head?_eq_some_iff.mp (hgap key space)
    rw [Members.write, ht, List.cons_append]
    exact ends_blank w rfl _

def noComma (key : Word) (_ : Space) : Bytes := 34 :: (key.text ++ [34, 58, 48])

theorem head_noComma (key : Word) (space : Space) : (noComma key space).head? = some 34 := rfl

theorem length_noComma (key : Word) (space : Space) : 2 ≤ (noComma key space).length := by
  simp [noComma]

theorem membersWith_gap (k n : ℕ) (w : Blank) (key : Word) (space : Space) (members : Members)
    (rest : Bytes) : membersWith (Json.value (k + 1)) (n + 1)
      (skip ((Members.gap w key space members).write noComma rest)) = none := by
  have hkey := membersWith_string (Json.value (k + 1)) n (readsAs_word key.all) w ⟨[], rfl⟩ ⟨[], rfl⟩
    (t := 48 :: members.write noComma rest) (skip_cons rfl _)
  have htext : (Members.gap w key space members).write noComma rest =
      w.text ++ 34 :: (key.text ++ 34 :: ([] ++ 58 :: ([] ++ 48 :: members.write noComma rest))) := by
    simp [Members.write, noComma]
  have hhead := members.skip_head noComma head_noComma rest
  obtain ⟨c, t, heq, hc⟩ := members.ends noComma head_noComma rest
  have hzero : Json.value (k + 1) (48 :: members.write noComma rest) =
      some (.num [48], members.write noComma rest) := by
    have hread : Json.number (48 :: c :: t) = some ([48], c :: t) := number_itoa 0 hc t
    rw [heq]
    simp [Json.value, hread]
  rw [htext, hkey, hzero]
  simp [hhead]

def result {α : Type} (full : Bool) (x : α) (rest : Bytes) : Option (α × Bytes) :=
  if full then some (x, rest) else none

mutual

theorem value_write : ∀ (v : Value) (n : ℕ) (rest : Bytes), v.size ≤ n →
    (∀ x, v = .num x → Ends rest) → Json.value n (v.write noComma rest) = result v.full v.json rest
  | v, 0, rest, hn, _ => by
    cases v <;> simp [Value.size] at hn
  | .null, n + 1, rest, _, _ => rfl
  | .bool true, n + 1, rest, _, _ => rfl
  | .bool false, n + 1, rest, _, _ => rfl
  | .num x, n + 1, rest, _, hrest => value_num n x (hrest x rfl)
  | .str s, n + 1, rest, _, _ => value_string n s rest
  | .emptyArr w, n + 1, rest, _, _ => by
    simp [Value.write, Json.value, skip_blank w (c := 93) rfl, result, Value.full, Value.json]
  | .emptyObj w, n + 1, rest, _, _ => by
    simp [Value.write, Json.value, skip_blank w (c := 125) rfl, result, Value.full, Value.json]
  | .arr items, n + 1, rest, hn, _ => by
    have hsize : items.size ≤ n := by simpa [Value.size] using hn
    have hlen := items.size_le noComma length_noComma (93 :: rest)
    simp only [List.length_cons] at hlen
    have hitems := itemsWith_write items n (items.write noComma (93 :: rest)).length.succ rest hsize
      (by omega)
    have hhead : (skip (items.write noComma (93 :: rest))).head? ≠ some 93 := by
      cases items with
      | one w v w' =>
        obtain ⟨c, t, heq, hc⟩ := v.head noComma (w'.text ++ 93 :: rest)
        rw [Items.write, v.skip_write, heq]
        rintro ⟨⟩
        exact absurd hc (by decide)
      | more w v w' items =>
        obtain ⟨c, t, heq, hc⟩ := v.head noComma (w'.text ++ 44 :: items.write noComma (93 :: rest))
        rw [Items.write, v.skip_write, heq]
        rintro ⟨⟩
        exact absurd hc (by decide)
    cases hfull : items.full <;>
      simp [Value.write, Json.value, hhead, hitems, result, Value.full, Value.json, hfull]
  | .obj members, n + 1, rest, hn, _ => by
    have hsize : members.size ≤ n := by simpa [Value.size] using hn
    have hlen := members.size_le noComma length_noComma (125 :: rest)
    simp only [List.length_cons] at hlen
    have hmembers := membersWith_write members n
      (members.write noComma (125 :: rest)).length.succ rest hsize (by omega)
    have hhead := members.skip_head noComma head_noComma (125 :: rest)
    cases hfull : members.full <;>
      simp [Value.write, Json.value, hhead, hmembers, result, Value.full, Value.json, hfull]

theorem itemsWith_write : ∀ (items : Items) (k n : ℕ) (rest : Bytes), items.size ≤ k →
    items.size ≤ n → itemsWith (Json.value k) n (skip (items.write noComma (93 :: rest))) =
      result items.full items.json rest
  | items, k, 0, rest, _, hn => by
    cases items <;> simp [Items.size] at hn
  | .one w v w', k, n + 1, rest, hk, _ => by
    have hv := value_write v k (w'.text ++ 93 :: rest)
      (by simp only [Items.size] at hk; omega) (fun _ _ => ends_blank w' rfl rest)
    rw [Items.write, v.skip_write, itemsWith, hv, Items.full, Items.json]
    cases v.full <;> simp [result, skip_blank w' (c := 93) rfl]
  | .more w v w' items, k, n + 1, rest, hk, hn => by
    simp only [Items.size] at hk hn
    have hv := value_write v k (w'.text ++ 44 :: items.write noComma (93 :: rest)) (by omega)
      (fun _ _ => ends_blank w' rfl _)
    have hitems := itemsWith_write items k n rest (by omega) (by omega)
    rw [Items.write, v.skip_write, itemsWith, hv, Items.full, Items.json]
    cases v.full with
    | false => simp [result]
    | true => cases hfull : items.full <;> simp [result, hfull, skip_blank w' (c := 44) rfl, hitems]

theorem membersWith_write : ∀ (members : Members) (k n : ℕ) (rest : Bytes), members.size ≤ k →
    members.size ≤ n → membersWith (Json.value k) n (skip (members.write noComma (125 :: rest))) =
      result members.full members.json rest
  | members, k, 0, rest, _, hn => by
    cases members <;> simp [Members.size] at hn
  | .one w key w₁ w₂ v w₃, k, n + 1, rest, hk, _ => by
    have hv := value_write v k (w₃.text ++ 125 :: rest)
      (by simp only [Members.size] at hk; omega) (fun _ _ => ends_blank w₃ rfl rest)
    rw [Members.write, writeString, membersWith_string _ n (readsAs_string key) w w₁ w₂
      (v.skip_write noComma w₂ _), hv, Members.full, Members.json]
    cases v.full <;> simp [result, skip_blank w₃ (c := 125) rfl]
  | .more w key w₁ w₂ v w₃ members, k, n + 1, rest, hk, hn => by
    simp only [Members.size] at hk hn
    have hv := value_write v k (w₃.text ++ 44 :: members.write noComma (125 :: rest)) (by omega)
      (fun _ _ => ends_blank w₃ rfl _)
    have hmembers := membersWith_write members k n rest (by omega) (by omega)
    rw [Members.write, writeString, membersWith_string _ n (readsAs_string key) w w₁ w₂
      (v.skip_write noComma w₂ _), hv, Members.full, Members.json]
    cases v.full with
    | false => simp [result]
    | true => cases hfull : members.full <;> simp [result, hfull, skip_blank w₃ (c := 44) rfl, hmembers]
  | .gap w key space members, k, n + 1, rest, hk, _ => by
    obtain ⟨k, rfl⟩ : ∃ m, k = m + 1 := ⟨k - 1, by simp only [Members.size] at hk; omega⟩
    exact membersWith_gap k n w key space members (125 :: rest)

end

theorem parse_write (w : Blank) (v : Value) (w' : Blank) (hv : ∀ x, v ≠ .num x) :
    parse (w.text ++ v.write noComma w'.text) = if v.full then some v.json else none := by
  have hsize : v.size ≤ (w.text ++ v.write noComma w'.text).length + 1 := by
    have h := v.size_le noComma length_noComma w'.text
    rw [List.length_append]
    omega
  have hend : skip w'.text = [] := List.dropWhile_eq_nil_iff.mpr (List.all_eq_true.mp w'.all)
  rw [parse, v.skip_write, value_write v _ _ hsize fun x hx => absurd hx (hv x), result]
  split_ifs
  · simp [hend]
  · rfl

end GoStream.Foundations.JsonText
