import GoStream.Engines.Names
import GoStream.Foundations.Expand
import GoStream.Foundations.JsonText

/-!
# Repair of webhook payloads
-/

namespace GoStream.Webhook

open Foundations Regex JsonText Engines

def reEmptyNumber : Regex :=
  inOrder [.byte 34, .group 1 (plus (cls isWord)), lit [34, 58], .star (cls isSpace), .byte 44]

def zeroMember (k : Captures) : Bytes := 34 :: (groupText k 1 ++ [34, 58, 48])

def sanitize (payload : Bytes) : Bytes := reEmptyNumber.expandAll zeroMember payload

def emptied (key : Word) (space : Space) : Bytes :=
  34 :: (key.text ++ 34 :: 58 :: (space.text ++ [44]))

structure Template where
  before : Blank
  object : Value
  isObject : (∃ w, object = .emptyObj w) ∨ ∃ members, object = .obj members
  after : Blank

def Template.text (d : Template) : Bytes := d.before.text ++ d.object.write emptied d.after.text

theorem lt_of_isWord {c : UInt8} (h : isWord c = true) : c < 128 := by
  simp only [isWord, isDecimal, Bool.or_eq_true, Bool.and_eq_true, decide_eq_true_eq,
    UInt8.le_iff_toNat_le, ← UInt8.toNat_inj, UInt8.reduceToNat, UInt8.lt_iff_toNat_lt] at h ⊢
  omega

theorem lt_of_isSpace {c : UInt8} (h : Regex.isSpace c = true) : c < 128 := by
  simp only [Regex.isSpace, Bool.or_eq_true, decide_eq_true_eq] at h
  rcases h with (((rfl | rfl) | rfl) | rfl) | rfl <;> decide

theorem matches_reEmptyNumber {b t u : Bytes} {k : Captures} :
    reEmptyNumber.Matches b t u k ↔ ∃ w sp, t = 34 :: (w ++ 34 :: 58 :: (sp ++ [44])) ∧
      k = [(1, w)] ∧ w ≠ [] ∧ w.all isWord = true ∧ sp.all Regex.isSpace = true := by
  simp only [reEmptyNumber, inOrder, matches_byte_seq, matches_group_seq, matches_lit_seq,
    matches_plus_cls, List.all_eq_true]
  simp only [matches_seq, matches_star_cls, matches_byte]
  constructor
  · rintro ⟨t', rfl, w, t₂, k₁, k₂, rfl, rfl, ⟨hne, hw, rfl⟩, t₃, rfl, sp, t₄, k₃, k₄, rfl, rfl,
      ⟨hsp, rfl⟩, rfl, rfl⟩
    exact ⟨w, sp, rfl, rfl, hne, fun c hc => (hw c hc).2, fun c hc => (hsp c hc).2⟩
  · rintro ⟨w, sp, rfl, rfl, hne, hw, hsp⟩
    exact ⟨_, rfl, w, 34 :: 58 :: (sp ++ [44]), [], [], rfl, rfl,
      ⟨hne, fun c hc => ⟨lt_of_isWord (hw c hc), hw c hc⟩, rfl⟩, sp ++ [44], rfl, sp, [44], [], [],
      rfl, rfl, ⟨fun c hc => ⟨lt_of_isSpace (hsp c hc), hsp c hc⟩, rfl⟩, rfl, rfl⟩

theorem noMatch_of_ne {s : Bytes} (h : ∀ w sp u, w ≠ [] → w.all isWord = true →
    sp.all Regex.isSpace = true → s ≠ 34 :: (w ++ 34 :: 58 :: (sp ++ 44 :: u))) :
    NoMatch reEmptyNumber s := by
  rintro b t u k rfl hM
  obtain ⟨w, sp, rfl, -, hne, hw, hsp⟩ := matches_reEmptyNumber.mp hM
  exact h w sp u hne hw hsp (by simp)

theorem noMatch_of_head {c : UInt8} (hc : c ≠ 34) (s : Bytes) : NoMatch reEmptyNumber (c :: s) :=
  noMatch_of_ne fun _ _ _ _ _ _ heq => hc (List.cons.inj heq).1

abbrev Sanitizes (s s' : Bytes) : Prop := Expands reEmptyNumber zeroMember s s'

theorem sanitizes_append {t u u' : Bytes} (ht : 34 ∉ t) (hu : Sanitizes u u') :
    Sanitizes (t ++ u) (t ++ u') :=
  expands_append (fun _ hc s => noMatch_of_head (fun heq => ht (heq ▸ hc)) s) hu

theorem word_inj {w w' u u' : Bytes} (hw : w.all isWord = true) (hw' : w'.all isWord = true)
    (h : w ++ 34 :: u = w' ++ 34 :: u') : w = w' ∧ u = u' := by
  have htake : ∀ {w : Bytes} (u : Bytes), w.all isWord = true →
      (w ++ 34 :: u).takeWhile isWord = w := by
    intro w u hw
    rw [List.takeWhile_append_of_pos (List.all_eq_true.mp hw), List.takeWhile_cons_of_neg (by decide),
      List.append_nil]
  have hsame : w = w' := by rw [← htake u hw, h, htake u' hw']
  subst hsame
  exact ⟨rfl, (List.cons.inj (List.append_cancel_left h)).2⟩

theorem space_inj {sp sp' u u' : Bytes} {c c' : UInt8} (hsp : sp.all Regex.isSpace = true)
    (hsp' : sp'.all Regex.isSpace = true) (hc : Regex.isSpace c = false)
    (hc' : Regex.isSpace c' = false) (h : sp ++ c :: u = sp' ++ c' :: u') :
    sp = sp' ∧ c = c' := by
  have htake : ∀ {sp : Bytes} {c : UInt8} (u : Bytes), sp.all Regex.isSpace = true →
      Regex.isSpace c = false → (sp ++ c :: u).takeWhile Regex.isSpace = sp := by
    intro sp c u hsp hc
    rw [List.takeWhile_append_of_pos (List.all_eq_true.mp hsp),
      List.takeWhile_cons_of_neg (by rw [hc]; decide), List.append_nil]
  have hsame : sp = sp' := by rw [← htake u hsp hc, h, htake u' hsp' hc']
  subst hsame
  exact ⟨rfl, (List.cons.inj (List.append_cancel_left h)).1⟩

theorem sanitizes_emptied (key : Word) (space : Space) {u u' : Bytes} (hu : Sanitizes u u') :
    Sanitizes (emptied key space ++ u) (noComma key space ++ u') := by
  refine expands_match (k := [(1, key.text)]) (by simp [emptied]) (fun before => ?_) ?_ hu
  · exact matches_reEmptyNumber.mpr
      ⟨key.text, space.text, rfl, rfl, key.nonempty, key.all, space.all⟩
  · intro before t' v k' heq hM
    obtain ⟨w, sp, rfl, rfl, -, hw, hsp⟩ := matches_reEmptyNumber.mp hM
    simp only [emptied, List.cons_append, List.append_assoc, List.cons.injEq, true_and] at heq
    obtain ⟨rfl, hrest⟩ := word_inj key.all hw heq
    obtain ⟨rfl, -⟩ := space_inj space.all hsp rfl rfl (List.cons.inj hrest).2
    exact ⟨rfl, rfl⟩

structure AfterString (u : Bytes) : Prop where
  noWord : ∀ c, u.head? = some c → isWord c = false
  noGap : ∀ sp t, sp.all Regex.isSpace = true → u ≠ 58 :: (sp ++ 44 :: t)

theorem noGap_string {u : Bytes} (hu : AfterString u) {sp t : Bytes}
    (hsp : sp.all Regex.isSpace = true) (s : List StringChar) : ∀ w : Bytes, w.all isWord = true →
      s.flatMap StringChar.text ++ 34 :: u ≠ w ++ 34 :: 58 :: (sp ++ 44 :: t) := by
  have hslash : isWord 92 = false := by decide
  have hquote : isWord 34 = false := by decide
  induction s with
  | nil =>
    intro w hw heq
    cases w with
    | nil => exact hu.noGap sp t hsp (List.cons.inj heq).2
    | cons c w =>
      rw [← (List.cons.inj heq).1, List.all_cons, hquote] at hw
      cases hw
  | cons x s ih =>
    intro w hw heq
    -- an escape starts with a backslash, which is neither a quote nor a word character
    have hescape : ∀ v, (92 :: v) ≠ w ++ 34 :: 58 :: (sp ++ 44 :: t) := by
      intro v heq
      cases w with
      | nil => exact absurd (List.cons.inj heq).1 (by decide)
      | cons c w =>
        rw [← (List.cons.inj heq).1, List.all_cons, hslash] at hw
        cases hw
    cases x with
    | plain c h =>
      cases w with
      | nil => exact h.1 (List.cons.inj heq).1
      | cons d w =>
        rw [List.all_cons, Bool.and_eq_true] at hw
        exact ih w hw.2 (List.cons.inj heq).2
    | short c b h | unicode ds n h => exact hescape _ heq

theorem quote_not_mem_hex {ds : Bytes} {n : ℕ} (h : Json.hex4 ds = some (n, [])) : 34 ∉ ds := by
  have hquote : Json.hexValue 34 = none := by decide
  match ds, h with
  | a :: b :: c :: d :: s, h =>
    simp only [Json.hex4, Option.bind_eq_bind, Option.bind_eq_some_iff] at h
    obtain ⟨a', ha, b', hb, c', hc, d', hd, heq⟩ := h
    obtain ⟨-, rfl⟩ := Prod.mk.inj (Option.some.inj heq)
    simp only [List.mem_cons, List.not_mem_nil, or_false]
    rintro (rfl | rfl | rfl | rfl)
    · rw [hquote] at ha; cases ha
    · rw [hquote] at hb; cases hb
    · rw [hquote] at hc; cases hc
    · rw [hquote] at hd; cases hd

theorem noMatch_quote {u : Bytes} (hu : AfterString u) (s : List StringChar) :
    NoMatch reEmptyNumber (34 :: (s.flatMap StringChar.text ++ 34 :: u)) :=
  noMatch_of_ne fun w _ _ _ hw hsp heq => noGap_string hu hsp s w hw (List.cons.inj heq).2

theorem sanitizes_string {u u' : Bytes} (hu : AfterString u) (h : Sanitizes u u')
    (s : List StringChar) : Sanitizes (writeString s u) (writeString s u') := by
  have hbody : Sanitizes (s.flatMap StringChar.text ++ 34 :: u)
      (s.flatMap StringChar.text ++ 34 :: u') := by
    induction s with
    | nil =>
      refine expands_cons (noMatch_of_ne fun w sp t hne hw _ heq => ?_) h
      -- the last quote is not followed by a word character
      cases w with
      | nil => exact hne rfl
      | cons c w =>
        have hc := hu.noWord c (by rw [(List.cons.inj heq).2]; rfl)
        rw [List.all_cons, hc] at hw
        cases hw
    | cons x s ih =>
      cases x with
      | plain c h => exact expands_cons (noMatch_of_head h.1 _) ih
      | short c b h =>
        refine expands_cons (noMatch_of_head (by decide) _) ?_
        by_cases hc : c = 34
        · subst hc
          exact expands_cons (noMatch_quote hu s) ih
        · exact expands_cons (noMatch_of_head hc _) ih
      | unicode ds n h =>
        have hds : 34 ∉ 92 :: 117 :: ds := by simp [quote_not_mem_hex h]
        have heq : ∀ u, (StringChar.unicode ds n h :: s).flatMap StringChar.text ++ 34 :: u =
            (92 :: 117 :: ds) ++ (s.flatMap StringChar.text ++ 34 :: u) := by
          simp [StringChar.text]
        rw [heq, heq]
        exact sanitizes_append hds ih
  exact expands_cons (noMatch_quote hu s) hbody

theorem quote_not_mem_blank (w : Blank) : 34 ∉ w.text := not_mem_of_all w.all rfl

theorem isSpace_of_isBlank {c : UInt8} (h : Json.isBlank c = true) : Regex.isSpace c = true := by
  simp only [Json.isBlank, Bool.or_eq_true, decide_eq_true_eq] at h
  rcases h with ((rfl | rfl) | rfl) | rfl <;> rfl

theorem afterString_blank (w : Blank) {u : Bytes} (hu : AfterString u) :
    AfterString (w.text ++ u) := by
  obtain ⟨s, hs⟩ := w
  cases s with
  | nil => exact hu
  | cons c s =>
    rw [List.all_cons, Bool.and_eq_true] at hs
    have hblank := hs.1
    simp only [Json.isBlank, Bool.or_eq_true, decide_eq_true_eq] at hblank
    refine ⟨fun d hd => ?_, fun sp t _ heq => ?_⟩
    · obtain rfl : c = d := Option.some.inj hd
      rcases hblank with ((rfl | rfl) | rfl) | rfl <;> rfl
    · rw [(List.cons.inj heq).1] at hblank
      exact absurd hblank (by decide)

theorem afterString_nil : AfterString [] := ⟨by simp, by simp⟩

theorem afterString_cons {c : UInt8} (hword : isWord c = false) (hcolon : c ≠ 58) (t : Bytes) :
    AfterString (c :: t) where
  noWord _ hd := Option.some.inj hd ▸ hword
  noGap _ _ _ heq := hcolon (List.cons.inj heq).1

theorem afterString_colon (w : Blank) (v : Value) (rest : Bytes) :
    AfterString (58 :: (w.text ++ v.write emptied rest)) where
  noWord _ hd := Option.some.inj hd ▸ rfl
  noGap sp t hsp heq := by
    obtain ⟨c, u, hwrite, hc⟩ := v.head emptied rest
    have hspace : Regex.isSpace c = false := by
      by_contra hspace
      simp only [Regex.isSpace, Bool.not_eq_false, Bool.or_eq_true, decide_eq_true_eq] at hspace
      rcases hspace with (((rfl | rfl) | rfl) | rfl) | rfl <;> exact absurd hc (by decide)
    have hblank : w.text.all Regex.isSpace = true :=
      List.all_eq_true.mpr fun d hd => isSpace_of_isBlank (List.all_eq_true.mp w.all d hd)
    rw [hwrite] at heq
    obtain ⟨-, rfl⟩ := space_inj hblank hsp hspace rfl (List.cons.inj heq).2
    exact absurd hc (by decide)

theorem quote_not_mem_digits (d : Digits) : 34 ∉ d.text := not_mem_of_all d.all rfl

theorem quote_not_mem_number (n : Number) : 34 ∉ n.text := by
  obtain ⟨negative, int, -, frac, exp⟩ := n
  simp only [Number.text, List.mem_append, not_or]
  refine ⟨⟨⟨?_, quote_not_mem_digits int⟩, ?_⟩, ?_⟩
  · cases negative <;> simp
  · cases frac with
    | none => simp
    | some d => simpa using quote_not_mem_digits d
  · cases exp with
    | none => simp
    | some e =>
      obtain ⟨letter, hletter, sign, hsign, ds⟩ := e
      simp only [Option.elim_some, Exponent.text, List.mem_cons, List.mem_append, not_or]
      refine ⟨?_, ?_, quote_not_mem_digits ds⟩
      · rcases hletter with rfl | rfl <;> decide
      · rcases hsign with rfl | rfl | rfl <;> decide

mutual

theorem sanitizes_value : ∀ (v : Value) {u u' : Bytes}, AfterString u → Sanitizes u u' →
    Sanitizes (v.write emptied u) (v.write noComma u')
  | .null, _, _, _, h => sanitizes_append (by decide) h
  | .bool true, _, _, _, h => sanitizes_append (by decide) h
  | .bool false, _, _, _, h => sanitizes_append (by decide) h
  | .num n, _, _, _, h => sanitizes_append (quote_not_mem_number n) h
  | .str s, _, _, hu, h => sanitizes_string hu h s
  | .emptyArr w, _, _, _, h =>
    expands_cons (noMatch_of_head (by decide) _) (sanitizes_append (quote_not_mem_blank w)
      (expands_cons (noMatch_of_head (by decide) _) h))
  | .emptyObj w, _, _, _, h =>
    expands_cons (noMatch_of_head (by decide) _) (sanitizes_append (quote_not_mem_blank w)
      (expands_cons (noMatch_of_head (by decide) _) h))
  | .arr items, _, _, _, h =>
    expands_cons (noMatch_of_head (by decide) _) (sanitizes_items items h)
  | .obj members, _, _, _, h =>
    expands_cons (noMatch_of_head (by decide) _) (sanitizes_members members h)

theorem sanitizes_items : ∀ (items : Items) {u u' : Bytes}, Sanitizes u u' →
    Sanitizes (items.write emptied (93 :: u)) (items.write noComma (93 :: u'))
  | .one w v w', u, u', h => by
    have hend : Sanitizes (w'.text ++ 93 :: u) (w'.text ++ 93 :: u') :=
      sanitizes_append (quote_not_mem_blank w') (expands_cons (noMatch_of_head (by decide) _) h)
    exact sanitizes_append (quote_not_mem_blank w)
      (sanitizes_value v (afterString_blank w' (afterString_cons rfl (by decide) u)) hend)
  | .more w v w' items, u, u', h => by
    have hend : Sanitizes (w'.text ++ 44 :: items.write emptied (93 :: u))
        (w'.text ++ 44 :: items.write noComma (93 :: u')) :=
      sanitizes_append (quote_not_mem_blank w')
        (expands_cons (noMatch_of_head (by decide) _) (sanitizes_items items h))
    exact sanitizes_append (quote_not_mem_blank w)
      (sanitizes_value v (afterString_blank w' (afterString_cons rfl (by decide) _)) hend)

theorem sanitizes_members : ∀ (members : Members) {u u' : Bytes}, Sanitizes u u' →
    Sanitizes (members.write emptied (125 :: u)) (members.write noComma (125 :: u'))
  | .one w key w₁ w₂ v w₃, u, u', h => by
    have hend : Sanitizes (w₃.text ++ 125 :: u) (w₃.text ++ 125 :: u') :=
      sanitizes_append (quote_not_mem_blank w₃) (expands_cons (noMatch_of_head (by decide) _) h)
    have hvalue := sanitizes_value v
      (afterString_blank w₃ (afterString_cons rfl (by decide) u)) hend
    exact sanitizes_append (quote_not_mem_blank w) (sanitizes_string
      (afterString_blank w₁ (afterString_colon w₂ v _)) (sanitizes_append (quote_not_mem_blank w₁)
        (expands_cons (noMatch_of_head (by decide) _)
          (sanitizes_append (quote_not_mem_blank w₂) hvalue))) key)
  | .more w key w₁ w₂ v w₃ members, u, u', h => by
    have hend : Sanitizes (w₃.text ++ 44 :: members.write emptied (125 :: u))
        (w₃.text ++ 44 :: members.write noComma (125 :: u')) :=
      sanitizes_append (quote_not_mem_blank w₃)
        (expands_cons (noMatch_of_head (by decide) _) (sanitizes_members members h))
    have hvalue := sanitizes_value v
      (afterString_blank w₃ (afterString_cons rfl (by decide) _)) hend
    exact sanitizes_append (quote_not_mem_blank w) (sanitizes_string
      (afterString_blank w₁ (afterString_colon w₂ v _)) (sanitizes_append (quote_not_mem_blank w₁)
        (expands_cons (noMatch_of_head (by decide) _)
          (sanitizes_append (quote_not_mem_blank w₂) hvalue))) key)
  | .gap w key space members, u, u', h =>
    sanitizes_append (quote_not_mem_blank w)
      (sanitizes_emptied key space (sanitizes_members members h))

end

theorem sanitize_text (d : Template) :
    sanitize d.text = d.before.text ++ d.object.write noComma d.after.text := by
  have hafter : Sanitizes (d.after.text ++ []) (d.after.text ++ []) :=
    sanitizes_append (quote_not_mem_blank d.after) expands_nil
  rw [List.append_nil] at hafter
  have hend : AfterString d.after.text := by
    have h := afterString_blank d.after afterString_nil
    rwa [List.append_nil] at h
  exact (sanitizes_append (quote_not_mem_blank d.before)
    (sanitizes_value d.object hend hafter)).expandAll

theorem parse_sanitize (d : Template) : Json.parse (sanitize d.text) =
    if d.object.full then some d.object.json else none := by
  rw [sanitize_text]
  refine parse_write d.before d.object d.after fun x hx => ?_
  rcases d.isObject with ⟨w, hw⟩ | ⟨members, hmembers⟩
  · cases hx.symm.trans hw
  · cases hx.symm.trans hmembers

/-- When the repair gives the intended object. -/
theorem payload_repaired_iff (d : Template) :
    (Json.parse (sanitize d.text) = some d.object.json ↔ d.object.full = true) ∧
      (d.object.full = false → Json.parse (sanitize d.text) = none) := by
  rw [parse_sanitize]
  cases d.object.full <;> simp

def emptyYear : Template where
  before := ⟨[], rfl⟩
  object := .obj (.gap ⟨[], rfl⟩ ⟨ascii "year", by decide, by decide⟩ ⟨[], rfl⟩
    (.one ⟨[], rfl⟩ [.plain 97 (by decide)] ⟨[], rfl⟩ ⟨[], rfl⟩ (.bool true) ⟨[], rfl⟩))
  isObject := .inr ⟨_, rfl⟩
  after := ⟨[], rfl⟩

theorem emptyYear_not_repaired :
    emptyYear.text = ascii "\x7b\"year\":,\"a\":true\x7d" ∧
    sanitize emptyYear.text = ascii "\x7b\"year\":0\"a\":true\x7d" ∧
    (Json.parse (sanitize emptyYear.text)).isNone = true := by
  decide

end GoStream.Webhook
