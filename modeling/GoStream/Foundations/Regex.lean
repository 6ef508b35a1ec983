import GoStream.Foundations.Text

/-!
# Regular expressions
-/

namespace GoStream.Foundations

structure Cursor where
  before : Bytes
  rest : Bytes

abbrev Captures := List (ℕ × Bytes)

inductive Regex
  | empty
  | byte (b : UInt8)
  | rune (ok : UInt8 → Bool) (wide : Bool)
  | seq (r s : Regex)
  | alt (r s : Regex)
  | star (r : Regex)
  | lazy (r : Regex)
  | group (i : ℕ) (r : Regex)
  | boundary
  | textEnd

def isContinuation (c : UInt8) : Bool := 128 ≤ c && c < 192

def isWord (c : UInt8) : Bool :=
  isDecimal c || (65 ≤ c && c ≤ 90) || c = 95 || (97 ≤ c && c ≤ 122)

namespace Regex

def runeAt (ok : UInt8 → Bool) (wide : Bool) : Bytes → Option (Bytes × Bytes)
  | [] => none
  | c :: s =>
    if c < 128 then if ok c then some ([c], s) else none
    else if wide then some (c :: s.takeWhile isContinuation, s.dropWhile isContinuation)
    else none

def rounds (f : Cursor → List (Cursor × Captures)) : ℕ → Cursor → List (Cursor × Captures)
  | 0, c => [(c, [])]
  | n + 1, c =>
    ((f c).filter fun x => x.1.rest.length < c.rest.length).flatMap
      (fun x => (rounds f n x.1).map fun y => (y.1, y.2 ++ x.2)) ++ [(c, [])]

def lazyRounds (f : Cursor → List (Cursor × Captures)) : ℕ → Cursor → List (Cursor × Captures)
  | 0, c => [(c, [])]
  | n + 1, c =>
    (c, []) :: ((f c).filter fun x => x.1.rest.length < c.rest.length).flatMap
      fun x => (lazyRounds f n x.1).map fun y => (y.1, y.2 ++ x.2)

def ends : Regex → Cursor → List (Cursor × Captures)
  | .empty, c => [(c, [])]
  | .byte b, c =>
    match c.rest with
    | [] => []
    | b' :: s => if b' = b then [(⟨b' :: c.before, s⟩, [])] else []
  | .rune ok wide, c =>
    match runeAt ok wide c.rest with
    | none => []
    | some (t, s) => [(⟨t.reverse ++ c.before, s⟩, [])]
  | .seq r s, c => (r.ends c).flatMap fun x => (s.ends x.1).map fun y => (y.1, y.2 ++ x.2)
  | .alt r s, c => r.ends c ++ s.ends c
  | .star r, c => rounds r.ends c.rest.length c
  | .lazy r, c => lazyRounds r.ends c.rest.length c
  | .group i r, c =>
    (r.ends c).map fun x => (x.1, (i, c.rest.take (c.rest.length - x.1.rest.length)) :: x.2)
  | .boundary, c =>
    if (c.before.head?.map isWord).getD false = (c.rest.head?.map isWord).getD false then []
    else [(c, [])]
  | .textEnd, c => if c.rest = [] then [(c, [])] else []

def cls (ok : UInt8 → Bool) : Regex := .rune ok false

def lit : Bytes → Regex
  | [] => .empty
  | b :: s => .seq (.byte b) (lit s)

def foldByte (b : UInt8) : Regex :=
  let letter := cls fun c => c = b || (97 ≤ b && b ≤ 122 && c = b - 32)
  if b = 107 then .alt letter (lit [0xE2, 0x84, 0xAA])
  else if b = 115 then .alt letter (lit [0xC5, 0xBF])
  else letter

def fold : Bytes → Regex
  | [] => .empty
  | b :: s => .seq (foldByte b) (fold s)

def opt (r : Regex) : Regex := .alt r .empty

def plus (r : Regex) : Regex := .seq r (.star r)

def times : ℕ → Regex → Regex
  | 0, _ => .empty
  | n + 1, r => .seq r (times n r)

def upTo : ℕ → Regex → Regex
  | 0, _ => .empty
  | n + 1, r => opt (.seq r (upTo n r))

def oneOf : List Regex → Regex
  | [] => cls fun _ => false
  | [r] => r
  | r :: rs => .alt r (oneOf rs)

def inOrder : List Regex → Regex
  | [] => .empty
  | [r] => r
  | r :: rs => .seq r (inOrder rs)

def dot : Regex := .rune (· ≠ 10) true

def digit : Regex := cls isDecimal

def isSpace (c : UInt8) : Bool := c = 32 || c = 9 || c = 10 || c = 12 || c = 13

def submatchFrom (r : Regex) : Bytes → Bytes → Option Captures
  | before, [] => (r.ends ⟨before, []⟩).head?.map Prod.snd
  | before, b :: s =>
    match (r.ends ⟨before, b :: s⟩).head? with
    | some x => some x.2
    | none => submatchFrom r (b :: before) s

def submatch (r : Regex) (s : Bytes) : Option Captures := r.submatchFrom [] s

def matchString (r : Regex) (s : Bytes) : Bool := (r.submatch s).isSome

def replaceFrom (r : Regex) (repl : Bytes) : ℕ → Cursor → Bytes
  | 0, c => c.rest
  | n + 1, c =>
    match c.rest with
    | [] => []
    | b :: s =>
      match (r.ends c).head? with
      | some x =>
        if x.1.rest.length < c.rest.length then repl ++ replaceFrom r repl n x.1
        else b :: replaceFrom r repl n ⟨b :: c.before, s⟩
      | none => b :: replaceFrom r repl n ⟨b :: c.before, s⟩

def replaceAll (r : Regex) (repl s : Bytes) : Bytes := r.replaceFrom repl s.length ⟨[], s⟩

inductive Repeats (M : Bytes → Bytes → Bytes → Captures → Prop) :
    Bytes → Bytes → Bytes → Captures → Prop
  | done (b u : Bytes) : Repeats M b [] u []
  | again {b t₁ t₂ u : Bytes} {k₁ k₂ : Captures} (hne : t₁ ≠ []) (h : M b t₁ (t₂ ++ u) k₁)
      (hs : Repeats M (t₁.reverse ++ b) t₂ u k₂) : Repeats M b (t₁ ++ t₂) u (k₂ ++ k₁)

def Matches : Regex → Bytes → Bytes → Bytes → Captures → Prop
  | .empty, _, t, _, k => t = [] ∧ k = []
  | .byte x, _, t, _, k => t = [x] ∧ k = []
  | .rune ok wide, _, t, u, k => runeAt ok wide (t ++ u) = some (t, u) ∧ k = []
  | .seq r s, b, t, u, k => ∃ t₁ t₂ k₁ k₂, t = t₁ ++ t₂ ∧ k = k₂ ++ k₁ ∧
      Matches r b t₁ (t₂ ++ u) k₁ ∧ Matches s (t₁.reverse ++ b) t₂ u k₂
  | .alt r s, b, t, u, k => Matches r b t u k ∨ Matches s b t u k
  | .star r, b, t, u, k => Repeats (Matches r) b t u k
  | .lazy r, b, t, u, k => Repeats (Matches r) b t u k
  | .group i r, b, t, u, k => ∃ k', k = (i, t) :: k' ∧ Matches r b t u k'
  | .boundary, b, t, u, k => t = [] ∧ k = [] ∧
      (b.head?.map isWord).getD false ≠ (u.head?.map isWord).getD false
  | .textEnd, _, t, u, k => t = [] ∧ u = [] ∧ k = []

section Equations

variable {r s : Regex} {b t u : Bytes} {k : Captures}

theorem ends_seq (c : Cursor) : (seq r s).ends c =
    (r.ends c).flatMap fun x => (s.ends x.1).map fun y => (y.1, y.2 ++ x.2) := rfl

theorem ends_alt (c : Cursor) : (alt r s).ends c = r.ends c ++ s.ends c := rfl

theorem ends_group (i : ℕ) (c : Cursor) : (group i r).ends c = (r.ends c).map fun x =>
    (x.1, (i, c.rest.take (c.rest.length - x.1.rest.length)) :: x.2) := rfl

theorem matches_empty : empty.Matches b t u k ↔ t = [] ∧ k = [] := Iff.rfl

theorem matches_byte {x : UInt8} : (byte x).Matches b t u k ↔ t = [x] ∧ k = [] := Iff.rfl

theorem matches_rune {ok : UInt8 → Bool} {wide : Bool} : (rune ok wide).Matches b t u k ↔
    runeAt ok wide (t ++ u) = some (t, u) ∧ k = [] := Iff.rfl

theorem matches_seq : (seq r s).Matches b t u k ↔ ∃ t₁ t₂ k₁ k₂, t = t₁ ++ t₂ ∧ k = k₂ ++ k₁ ∧
    r.Matches b t₁ (t₂ ++ u) k₁ ∧ s.Matches (t₁.reverse ++ b) t₂ u k₂ := Iff.rfl

theorem matches_alt : (alt r s).Matches b t u k ↔ r.Matches b t u k ∨ s.Matches b t u k := Iff.rfl

theorem matches_group {i : ℕ} : (group i r).Matches b t u k ↔
    ∃ k', k = (i, t) :: k' ∧ r.Matches b t u k' := Iff.rfl

end Equations

def Lists (f : Cursor → List (Cursor × Captures))
    (M : Bytes → Bytes → Bytes → Captures → Prop) : Prop :=
  ∀ c x, x ∈ f c ↔
    ∃ t, c.rest = t ++ x.1.rest ∧ x.1.before = t.reverse ++ c.before ∧ M c.before t x.1.rest x.2

theorem runeAt_eq_some {ok : UInt8 → Bool} {wide : Bool} {s t u : Bytes}
    (h : runeAt ok wide s = some (t, u)) : s = t ++ u ∧ t ≠ [] := by
  cases s with
  | nil => cases h
  | cons c s =>
    simp only [runeAt] at h
    split_ifs at h
    · obtain ⟨rfl, rfl⟩ := Prod.mk.inj (Option.some.inj h)
      simp
    · obtain ⟨rfl, rfl⟩ := Prod.mk.inj (Option.some.inj h)
      simp

theorem Repeats.again_nil {M : Bytes → Bytes → Bytes → Captures → Prop} {b t₁ t₂ u : Bytes}
    (hne : t₁ ≠ []) (h : M b t₁ (t₂ ++ u) []) (hs : Repeats M (t₁.reverse ++ b) t₂ u []) :
    Repeats M b (t₁ ++ t₂) u [] :=
  (Repeats.again hne h hs :)

theorem Repeats.captures_eq_nil {M : Bytes → Bytes → Bytes → Captures → Prop} {b t u : Bytes}
    {k : Captures} (h : Repeats M b t u k) (ht : t = []) : k = [] := by
  cases h with
  | done => rfl
  | again hne => exact absurd (List.append_eq_nil_iff.mp ht).1 hne

theorem lists_rounds {f : Cursor → List (Cursor × Captures)}
    {M : Bytes → Bytes → Bytes → Captures → Prop} (hf : Lists f M) (n : ℕ) (c : Cursor)
    (hn : c.rest.length ≤ n) (x : Cursor × Captures) : x ∈ rounds f n c ↔
      ∃ t, c.rest = t ++ x.1.rest ∧ x.1.before = t.reverse ++ c.before ∧
        Repeats M c.before t x.1.rest x.2 := by
  induction n generalizing c x with
  | zero =>
    have hnil : c.rest = [] := List.eq_nil_of_length_eq_zero (Nat.le_zero.mp hn)
    rw [rounds, List.mem_singleton]
    constructor
    · rintro rfl
      exact ⟨[], by simp, by simp, .done _ _⟩
    · rintro ⟨t, hrest, hbefore, hrep⟩
      obtain ⟨⟨b, u⟩, k⟩ := x
      obtain ⟨cb, cr⟩ := c
      obtain rfl : cr = [] := hnil
      obtain ⟨rfl, rfl⟩ := List.append_eq_nil_iff.mp hrest.symm
      obtain rfl : b = cb := hbefore
      obtain rfl : k = [] := hrep.captures_eq_nil rfl
      rfl
  | succ n ih =>
    rw [rounds, List.mem_append, List.mem_singleton, List.mem_flatMap]
    constructor
    · rintro (⟨y, hy, hx⟩ | rfl)
      · rw [List.mem_filter, decide_eq_true_eq] at hy
        obtain ⟨hmem, hlt⟩ := hy
        obtain ⟨t₁, hrest, hbefore, hM⟩ := (hf c y).mp hmem
        obtain ⟨z, hz, rfl⟩ := List.mem_map.mp hx
        obtain ⟨t₂, hrest₂, hbefore₂, hrep⟩ := (ih y.1 (by omega) z).mp hz
        refine ⟨t₁ ++ t₂, by rw [hrest, hrest₂, List.append_assoc], ?_, .again ?_ ?_ ?_⟩
        · rw [hbefore₂, hbefore, List.reverse_append, List.append_assoc]
        · rintro rfl
          rw [hrest] at hlt
          simp at hlt
        · rw [← hrest₂]
          exact hM
        · rw [← hbefore]
          exact hrep
      · exact ⟨[], by simp, by simp, .done _ _⟩
    · rintro ⟨t, hrest, hbefore, hrep⟩
      obtain ⟨⟨b, u⟩, k⟩ := x
      obtain ⟨cb, cr⟩ := c
      dsimp only at hrest hbefore hrep hn ⊢
      cases hrep with
      | done =>
        right
        simp_all
      | @again _ t₁ t₂ _ k₁ k₂ hne hM hrep =>
        left
        refine ⟨(⟨t₁.reverse ++ cb, t₂ ++ u⟩, k₁), ?_, ?_⟩
        · rw [List.mem_filter, decide_eq_true_eq]
          refine ⟨(hf _ _).mpr ⟨t₁, by rw [hrest, List.append_assoc], rfl, hM⟩, ?_⟩
          have hpos := List.length_pos_of_ne_nil hne
          simp only [hrest, List.length_append]
          omega
        · refine List.mem_map.mpr ⟨(⟨b, u⟩, k₂), (ih _ ?_ _).mpr ⟨t₂, rfl, ?_, hrep⟩, rfl⟩
          · have hpos := List.length_pos_of_ne_nil hne
            simp only [hrest, List.length_append] at hn ⊢
            omega
          · rw [hbefore, List.reverse_append, List.append_assoc]

theorem mem_lazyRounds {f : Cursor → List (Cursor × Captures)} (n : ℕ) (c : Cursor)
    (x : Cursor × Captures) : x ∈ lazyRounds f n c ↔ x ∈ rounds f n c := by
  induction n generalizing c x with
  | zero => rfl
  | succ n ih =>
    simp only [lazyRounds, rounds, List.mem_cons, List.mem_append, List.mem_flatMap, List.mem_map,
      List.not_mem_nil, or_false, ih]
    exact or_comm

theorem lists_here {f : Cursor → List (Cursor × Captures)}
    {M : Bytes → Bytes → Bytes → Captures → Prop} {P : Cursor → Prop} [DecidablePred P]
    (hf : ∀ c, f c = if P c then [(c, [])] else [])
    (hM : ∀ b t u k, M b t u k ↔ t = [] ∧ k = [] ∧ P ⟨b, u⟩) : Lists f M := by
  rintro ⟨b, s⟩ ⟨⟨b', s'⟩, k⟩
  simp only [hf, hM]
  constructor
  · intro h
    split_ifs at h with hP
    · obtain ⟨⟨rfl, rfl⟩, rfl⟩ : (b' = b ∧ s' = s) ∧ k = [] := by simpa using h
      exact ⟨[], rfl, rfl, rfl, rfl, hP⟩
    · cases h
  · rintro ⟨t, hs, hb, rfl, rfl, hP⟩
    obtain rfl : s = s' := hs
    obtain rfl : b' = b := hb
    rw [if_pos hP]
    exact List.mem_singleton_self _

theorem lists_byte (x : UInt8) : Lists (byte x).ends (byte x).Matches := by
  rintro ⟨b, s⟩ ⟨⟨b', s'⟩, k⟩
  simp only [ends, matches_byte]
  cases s with
  | nil => simp
  | cons c s =>
    dsimp only
    split_ifs with hc
    · subst hc
      simp only [List.mem_singleton, Prod.mk.injEq, Cursor.mk.injEq]
      constructor
      · rintro ⟨⟨rfl, rfl⟩, rfl⟩
        exact ⟨[c], by simp⟩
      · rintro ⟨t, hs, hb, rfl, rfl⟩
        simp_all
    · simp only [List.not_mem_nil, false_iff]
      rintro ⟨t, hs, -, rfl, -⟩
      exact hc (List.cons.inj hs).1

theorem lists_rune (ok : UInt8 → Bool) (wide : Bool) :
    Lists (rune ok wide).ends (rune ok wide).Matches := by
  rintro ⟨b, s⟩ ⟨⟨b', s'⟩, k⟩
  simp only [ends, matches_rune]
  cases hrune : runeAt ok wide s with
  | none =>
    simp only [List.not_mem_nil, false_iff]
    rintro ⟨t, rfl, -, h, -⟩
    rw [hrune] at h
    cases h
  | some y =>
    obtain ⟨t, u⟩ := y
    obtain ⟨rfl, -⟩ := runeAt_eq_some hrune
    simp only [List.mem_singleton, Prod.mk.injEq, Cursor.mk.injEq]
    constructor
    · rintro ⟨⟨rfl, rfl⟩, rfl⟩
      exact ⟨t, rfl, rfl, hrune, rfl⟩
    · rintro ⟨t', hs, hb, h, rfl⟩
      rw [← hs, hrune] at h
      obtain ⟨rfl, rfl⟩ := Prod.mk.inj (Option.some.inj h)
      exact ⟨⟨hb, rfl⟩, rfl⟩

section Compound

variable {r s : Regex} (hr : Lists r.ends r.Matches) (hs : Lists s.ends s.Matches)

include hr

include hs in
theorem lists_seq : Lists (seq r s).ends (seq r s).Matches := by
  intro c x
  simp only [ends_seq, matches_seq, List.mem_flatMap, List.mem_map]
  constructor
  · rintro ⟨y, hy, z, hz, rfl⟩
    obtain ⟨t₁, hrest, hbefore, hM⟩ := (hr c y).mp hy
    obtain ⟨t₂, hrest₂, hbefore₂, hM₂⟩ := (hs y.1 z).mp hz
    rw [hrest₂] at hM
    rw [hbefore] at hM₂
    refine ⟨t₁ ++ t₂, by rw [hrest, hrest₂, List.append_assoc], ?_, t₁, t₂, y.2, z.2, rfl, rfl, hM,
      hM₂⟩
    rw [hbefore₂, hbefore, List.reverse_append, List.append_assoc]
  · rintro ⟨t, hrest, hbefore, t₁, t₂, k₁, k₂, rfl, hk, hM, hM₂⟩
    refine ⟨(⟨t₁.reverse ++ c.before, t₂ ++ x.1.rest⟩, k₁), (hr _ _).mpr ⟨t₁, ?_, rfl, hM⟩,
      (x.1, k₂), (hs _ _).mpr ⟨t₂, rfl, ?_, hM₂⟩, by rw [← hk]⟩
    · rw [hrest, List.append_assoc]
    · rw [hbefore, List.reverse_append, List.append_assoc]

include hs in
theorem lists_alt : Lists (alt r s).ends (alt r s).Matches := by
  intro c x
  simp only [ends_alt, matches_alt, List.mem_append, hr c x, hs c x]
  constructor
  · rintro (⟨t, hrest, hbefore, hM⟩ | ⟨t, hrest, hbefore, hM⟩)
    · exact ⟨t, hrest, hbefore, .inl hM⟩
    · exact ⟨t, hrest, hbefore, .inr hM⟩
  · rintro ⟨t, hrest, hbefore, hM | hM⟩
    · exact .inl ⟨t, hrest, hbefore, hM⟩
    · exact .inr ⟨t, hrest, hbefore, hM⟩

theorem lists_group (i : ℕ) : Lists (group i r).ends (group i r).Matches := by
  intro c x
  simp only [ends_group, matches_group, List.mem_map]
  have htext : ∀ {t u : Bytes}, c.rest = t ++ u →
      c.rest.take (c.rest.length - u.length) = t := by
    intro t u h
    rw [h, List.length_append, Nat.add_sub_cancel, List.take_left]
  constructor
  · rintro ⟨y, hy, rfl⟩
    obtain ⟨t, hrest, hbefore, hM⟩ := (hr c y).mp hy
    exact ⟨t, hrest, hbefore, y.2, by rw [htext hrest], hM⟩
  · rintro ⟨t, hrest, hbefore, k', hk, hM⟩
    refine ⟨(x.1, k'), (hr _ _).mpr ⟨t, hrest, hbefore, hM⟩, ?_⟩
    rw [htext hrest, ← hk]

end Compound

theorem mem_ends_iff (r : Regex) : Lists r.ends r.Matches := by
  induction r with
  | empty =>
    apply lists_here (P := fun _ => True)
    · exact fun c => (if_pos trivial).symm
    · simp [matches_empty]
  | byte x => exact lists_byte x
  | rune ok wide => exact lists_rune ok wide
  | seq r s ihr ihs => exact lists_seq ihr ihs
  | alt r s ihr ihs => exact lists_alt ihr ihs
  | star r ih => exact fun c x => lists_rounds ih c.rest.length c le_rfl x
  | lazy r ih =>
    intro c x
    rw [ends, mem_lazyRounds]
    exact lists_rounds ih c.rest.length c le_rfl x
  | group i r ih => exact lists_group ih i
  | boundary =>
    apply lists_here (P := fun c => (c.before.head?.map isWord).getD false ≠
      (c.rest.head?.map isWord).getD false)
    · intro c
      rw [ends, ite_not]
    · exact fun _ _ _ _ => Iff.rfl
  | textEnd =>
    apply lists_here (P := fun c => c.rest = [])
    · exact fun _ => rfl
    · intro b t u k
      rw [Matches, and_comm (a := u = [])]

section Common

variable {ok : UInt8 → Bool} {b t u : Bytes} {k : Captures}

theorem matches_lit (w : Bytes) : (lit w).Matches b t u k ↔ t = w ∧ k = [] := by
  induction w generalizing b t k with
  | nil => rfl
  | cons c w ih =>
    simp only [lit, matches_seq, matches_byte, ih]
    constructor
    · rintro ⟨t₁, t₂, k₁, k₂, rfl, rfl, ⟨rfl, rfl⟩, rfl, rfl⟩
      exact ⟨rfl, rfl⟩
    · rintro ⟨rfl, rfl⟩
      exact ⟨[c], w, [], [], rfl, rfl, ⟨rfl, rfl⟩, rfl, rfl⟩

theorem matches_lit_seq (w : Bytes) {r : Regex} : (Regex.seq (lit w) r).Matches b t u k ↔
    ∃ t', t = w ++ t' ∧ r.Matches (w.reverse ++ b) t' u k := by
  simp only [matches_seq, matches_lit]
  constructor
  · rintro ⟨t₁, t₂, k₁, k₂, rfl, rfl, ⟨rfl, rfl⟩, h⟩
    exact ⟨t₂, rfl, by rwa [List.append_nil]⟩
  · rintro ⟨t', rfl, h⟩
    exact ⟨w, t', [], k, rfl, (List.append_nil k).symm, ⟨rfl, rfl⟩, h⟩

theorem matches_oneOf {rs : List Regex} (h : (oneOf rs).Matches b t u k) :
    ∃ r ∈ rs, r.Matches b t u k := by
  induction rs with
  | nil =>
    obtain ⟨hrune, -⟩ := h
    cases hs : t ++ u with
    | nil =>
      rw [hs] at hrune
      cases hrune
    | cons c s =>
      rw [hs] at hrune
      by_cases hc : c < 128
      · simp [runeAt, hc] at hrune
      · simp [runeAt, hc] at hrune
  | cons r rs ih =>
    cases rs with
    | nil => exact ⟨r, List.mem_cons_self, h⟩
    | cons r' rs =>
      rcases h with h | h
      · exact ⟨r, List.mem_cons_self, h⟩
      · obtain ⟨r'', hmem, hM⟩ := ih h
        exact ⟨r'', List.mem_cons_of_mem _ hmem, hM⟩

theorem matches_byte_seq {c : UInt8} {r : Regex} : (Regex.seq (.byte c) r).Matches b t u k ↔
    ∃ t', t = c :: t' ∧ r.Matches (c :: b) t' u k := by
  simp only [matches_seq, matches_byte]
  constructor
  · rintro ⟨t₁, t₂, k₁, k₂, rfl, rfl, ⟨rfl, rfl⟩, h⟩
    exact ⟨t₂, rfl, by rwa [List.append_nil]⟩
  · rintro ⟨t', rfl, h⟩
    exact ⟨[c], t', [], k, rfl, (List.append_nil k).symm, ⟨rfl, rfl⟩, h⟩

theorem matches_group_seq {i : ℕ} {r r' : Regex} :
    (Regex.seq (.group i r) r').Matches b t u k ↔ ∃ t₁ t₂ k₁ k₂, t = t₁ ++ t₂ ∧
      k = k₂ ++ (i, t₁) :: k₁ ∧ r.Matches b t₁ (t₂ ++ u) k₁ ∧
      r'.Matches (t₁.reverse ++ b) t₂ u k₂ := by
  simp only [matches_seq, matches_group]
  constructor
  · rintro ⟨t₁, t₂, k₁, k₂, rfl, rfl, ⟨k', rfl, h⟩, h'⟩
    exact ⟨t₁, t₂, k', k₂, rfl, rfl, h, h'⟩
  · rintro ⟨t₁, t₂, k₁, k₂, rfl, rfl, h, h'⟩
    exact ⟨t₁, t₂, (i, t₁) :: k₁, k₂, rfl, rfl, ⟨k₁, rfl, h⟩, h'⟩

theorem matches_cls :
    (cls ok).Matches b t u k ↔ ∃ c, t = [c] ∧ (c < 128 ∧ ok c = true) ∧ k = [] := by
  simp only [cls, matches_rune]
  constructor
  · rintro ⟨h, rfl⟩
    obtain ⟨-, hne⟩ := runeAt_eq_some h
    cases t with
    | nil => exact absurd rfl hne
    | cons c t =>
      simp only [List.cons_append, runeAt, Bool.false_eq_true, if_false] at h
      split_ifs at h with hc hok
      obtain ⟨heq, -⟩ := Prod.mk.inj (Option.some.inj h)
      exact ⟨c, heq.symm, ⟨hc, hok⟩, rfl⟩
  · rintro ⟨c, rfl, ⟨hc, hok⟩, rfl⟩
    simp [runeAt, hc, hok]

theorem matches_star_cls :
    (star (cls ok)).Matches b t u k ↔ (∀ c ∈ t, c < 128 ∧ ok c = true) ∧ k = [] := by
  constructor
  · intro h
    induction h with
    | done => simp
    | again _ h _ ih =>
      obtain ⟨c, rfl, hc, rfl⟩ := matches_cls.mp h
      obtain ⟨hall, rfl⟩ := ih
      simpa using ⟨hc, hall⟩
  · rintro ⟨hall, rfl⟩
    change Repeats _ _ _ _ _
    induction t generalizing b with
    | nil => exact .done b u
    | cons c t ih =>
      have hc := hall c (by simp)
      exact .again_nil (List.cons_ne_nil c [])
        (matches_cls.mpr ⟨c, rfl, hc, rfl⟩) (ih fun d hd => hall d (by simp [hd]))

theorem matches_plus_cls : (plus (cls ok)).Matches b t u k ↔
    t ≠ [] ∧ (∀ c ∈ t, c < 128 ∧ ok c = true) ∧ k = [] := by
  simp only [plus, matches_seq, matches_cls]
  constructor
  · rintro ⟨t₁, t₂, k₁, k₂, rfl, rfl, ⟨c, rfl, hc, rfl⟩, h⟩
    obtain ⟨hall, rfl⟩ := matches_star_cls.mp h
    simpa using ⟨hc, hall⟩
  · rintro ⟨hne, hall, rfl⟩
    cases t with
    | nil => exact absurd rfl hne
    | cons c t =>
      refine ⟨[c], t, [], [], rfl, rfl, ⟨c, rfl, hall c (by simp), rfl⟩, ?_⟩
      exact matches_star_cls.mpr ⟨fun d hd => hall d (by simp [hd]), rfl⟩

theorem matches_times_cls (n : ℕ) : (times n (cls ok)).Matches b t u k ↔
    t.length = n ∧ (∀ c ∈ t, c < 128 ∧ ok c = true) ∧ k = [] := by
  induction n generalizing b t k with
  | zero =>
    simp only [times, matches_empty, List.length_eq_zero_iff]
    constructor
    · rintro ⟨rfl, rfl⟩
      simp
    · rintro ⟨rfl, -, rfl⟩
      simp
  | succ n ih =>
    simp only [times, matches_seq, matches_cls, ih]
    constructor
    · rintro ⟨t₁, t₂, k₁, k₂, rfl, rfl, ⟨c, rfl, hc, rfl⟩, rfl, hall, rfl⟩
      simpa using ⟨hc, hall⟩
    · rintro ⟨hlen, hall, rfl⟩
      cases t with
      | nil => cases hlen
      | cons c t =>
        exact ⟨[c], t, [], [], rfl, rfl, ⟨c, rfl, hall c (by simp), rfl⟩, by simpa using hlen,
          fun d hd => hall d (by simp [hd]), rfl⟩

def Settled (u : Bytes) : Prop := ∀ c, u.head? = some c → isContinuation c = false

theorem settled_cons {c : UInt8} (hc : c < 128) (s : Bytes) : Settled (c :: s) := by
  intro d hd
  obtain rfl := Option.some.inj hd
  rw [isContinuation, decide_eq_false (UInt8.not_le.mpr hc), Bool.false_and]

theorem takeWhile_append_settled (t : Bytes) (hu : Settled u) :
    (t ++ u).takeWhile isContinuation = t.takeWhile isContinuation ∧
      (t ++ u).dropWhile isContinuation = t.dropWhile isContinuation ++ u := by
  induction t with
  | nil =>
    cases u with
    | nil => simp
    | cons c u => simp [hu c rfl]
  | cons c t ih =>
    cases hc : isContinuation c
    · simp [hc]
    · simpa [hc] using ih

theorem runeAt_dot {c : UInt8} (hc : c ≠ 10) (t : Bytes) (hu : Settled u) : ∃ t₁ t₂,
    c :: t = t₁ ++ t₂ ∧ t₁ ≠ [] ∧
      runeAt (· ≠ 10) true (c :: t ++ u) = some (t₁, t₂ ++ u) := by
  by_cases hascii : c < 128
  · exact ⟨[c], t, rfl, by simp, by simp [runeAt, hascii, hc]⟩
  · obtain ⟨htake, hdrop⟩ := takeWhile_append_settled t hu
    refine ⟨c :: t.takeWhile isContinuation, t.dropWhile isContinuation, by simp, by simp, ?_⟩
    simp [runeAt, hascii, htake, hdrop]

theorem not_mem_of_runeAt_dot {s : Bytes} (h : runeAt (· ≠ 10) true s = some (t, u)) : 10 ∉ t := by
  cases s with
  | nil => cases h
  | cons c s =>
    simp only [runeAt, if_true] at h
    split_ifs at h with hascii hc
    · obtain ⟨rfl, -⟩ := Prod.mk.inj (Option.some.inj h)
      simpa using Ne.symm (by simpa using hc)
    · obtain ⟨rfl, -⟩ := Prod.mk.inj (Option.some.inj h)
      intro hmem
      rcases List.mem_cons.mp hmem with rfl | hmem
      · exact hascii (by decide)
      · exact absurd (List.all_eq_true.mp List.all_takeWhile 10 hmem) (by decide)

theorem matches_star_dot (hu : Settled u) : (star dot).Matches b t u k ↔ 10 ∉ t ∧ k = [] := by
  constructor
  · intro h
    change Repeats _ _ _ _ _ at h
    clear hu
    induction h with
    | done => simp
    | again _ h _ ih =>
      obtain ⟨hrune, rfl⟩ := h
      obtain ⟨hno, rfl⟩ := ih
      exact ⟨by simpa using ⟨not_mem_of_runeAt_dot hrune, hno⟩, rfl⟩
  · rintro ⟨hno, rfl⟩
    change Repeats _ _ _ _ _
    induction hn : t.length using Nat.strongRecOn generalizing b t with
    | ind n ih =>
      cases t with
      | nil => exact .done b u
      | cons c t =>
        have hc : c ≠ 10 := fun h => hno (by simp [h])
        obtain ⟨t₁, t₂, heq, hne, hrune⟩ := runeAt_dot hc t hu
        have hpos := List.length_pos_of_ne_nil hne
        have hlen : t₂.length < n := by
          rw [← hn, heq, List.length_append]
          omega
        have hno₂ : 10 ∉ t₂ := fun h => hno (heq ▸ List.mem_append_right _ h)
        rw [heq] at hrune ⊢
        rw [List.append_assoc] at hrune
        exact .again_nil hne ⟨hrune, rfl⟩ (ih t₂.length hlen hno₂ rfl)

theorem matches_plus_dot (hu : Settled u) :
    (plus dot).Matches b t u k ↔ t ≠ [] ∧ 10 ∉ t ∧ k = [] := by
  constructor
  · rintro ⟨t₁, t₂, k₁, k₂, rfl, rfl, ⟨hrune, rfl⟩, h⟩
    obtain ⟨hno, rfl⟩ := (matches_star_dot hu).mp h
    obtain ⟨-, hne⟩ := runeAt_eq_some hrune
    exact ⟨by simp [hne], by simpa using ⟨not_mem_of_runeAt_dot hrune, hno⟩, rfl⟩
  · rintro ⟨hne, hno, rfl⟩
    cases t with
    | nil => exact absurd rfl hne
    | cons c t =>
      have hc : c ≠ 10 := fun h => hno (by simp [h])
      obtain ⟨t₁, t₂, heq, -, hrune⟩ := runeAt_dot hc t hu
      have hno₂ : 10 ∉ t₂ := fun h => hno (heq ▸ List.mem_append_right _ h)
      rw [heq] at hrune ⊢
      rw [List.append_assoc] at hrune
      exact ⟨t₁, t₂, [], [], rfl, rfl, ⟨hrune, rfl⟩, (matches_star_dot hu).mpr ⟨hno₂, rfl⟩⟩

end Common

section First

variable {r : Regex} {s : Bytes} {k : Captures}

theorem matches_of_submatchFrom {b : Bytes} (h : r.submatchFrom b s = some k) :
    ∃ pre t u, s = pre ++ t ++ u ∧ r.Matches (pre.reverse ++ b) t u k := by
  induction s generalizing b with
  | nil =>
    obtain ⟨x, hx, rfl⟩ := Option.map_eq_some_iff.mp h
    obtain ⟨t, hrest, -, hM⟩ := (mem_ends_iff r _ x).mp (List.mem_of_head? hx)
    exact ⟨[], t, x.1.rest, by simpa using hrest, hM⟩
  | cons c s ih =>
    unfold submatchFrom at h
    cases hx : (r.ends ⟨b, c :: s⟩).head? with
    | none =>
      rw [hx] at h
      obtain ⟨pre, t, u, heq, hM⟩ := ih h
      exact ⟨c :: pre, t, u, by simp [heq], by simpa using hM⟩
    | some x =>
      rw [hx] at h
      obtain rfl := Option.some.inj h
      obtain ⟨t, hrest, -, hM⟩ := (mem_ends_iff r _ x).mp (List.mem_of_head? hx)
      exact ⟨[], t, x.1.rest, by simpa using hrest, hM⟩

theorem submatch_of_matches {t u : Bytes} (h : r.Matches [] t u k) : ∃ t' u' k',
    t ++ u = t' ++ u' ∧ r.Matches [] t' u' k' ∧ r.submatch (t ++ u) = some k' := by
  have hmem : (⟨t.reverse, u⟩, k) ∈ r.ends ⟨[], t ++ u⟩ :=
    (mem_ends_iff r _ _).mpr ⟨t, rfl, by simp, h⟩
  obtain ⟨x, hx⟩ : ∃ x, (r.ends ⟨[], t ++ u⟩).head? = some x := by
    cases hl : r.ends ⟨[], t ++ u⟩ with
    | nil => rw [hl] at hmem; cases hmem
    | cons x l => exact ⟨x, rfl⟩
  obtain ⟨t', hrest, -, hM⟩ := (mem_ends_iff r _ x).mp (List.mem_of_head? hx)
  refine ⟨t', x.1.rest, x.2, hrest, hM, ?_⟩
  unfold submatch
  cases htu : t ++ u with
  | nil =>
    rw [htu] at hx
    simp only [submatchFrom, hx, Option.map_some]
  | cons c s =>
    rw [htu] at hx
    simp only [submatchFrom, hx]

theorem replaceFrom_of_submatchFrom {repl : Bytes} (n : ℕ) {b : Bytes}
    (h : r.submatchFrom b s = none) : r.replaceFrom repl n ⟨b, s⟩ = s := by
  induction s generalizing b n with
  | nil => cases n <;> rfl
  | cons c s ih =>
    cases n with
    | zero => rfl
    | succ n =>
      unfold submatchFrom at h
      cases hx : (r.ends ⟨b, c :: s⟩).head? with
      | none =>
        rw [hx] at h
        simp only [replaceFrom, hx, ih n h]
      | some x =>
        rw [hx] at h
        cases h

theorem mem_of_mem_replaceFrom {c : UInt8} (n : ℕ) {b : Bytes}
    (h : c ∈ r.replaceFrom [] n ⟨b, s⟩) : c ∈ s := by
  induction n generalizing b s with
  | zero => exact h
  | succ n ih =>
    cases s with
    | nil => exact h
    | cons a s =>
      unfold replaceFrom at h
      dsimp only at h
      have hlater : c ∈ a :: r.replaceFrom [] n ⟨a :: b, s⟩ → c ∈ a :: s := by
        intro hmem
        rcases List.mem_cons.mp hmem with rfl | hmem
        · exact List.mem_cons_self
        · exact List.mem_cons_of_mem _ (ih hmem)
      cases hx : (r.ends ⟨b, a :: s⟩).head? with
      | none =>
        rw [hx] at h
        exact hlater h
      | some x =>
        rw [hx] at h
        dsimp only at h
        split_ifs at h
        · obtain ⟨t, hrest, -, -⟩ := (mem_ends_iff r _ x).mp (List.mem_of_head? hx)
          have hmem : c ∈ x.1.rest := ih (b := x.1.before) h
          have hsub : c ∈ t ++ x.1.rest := List.mem_append_right _ hmem
          rwa [← hrest] at hsub
        · exact hlater h

section Count

variable {p : UInt8 → Bool} (hp : ∀ b t u k, r.Matches b t u k → ∃ c ∈ t, p c = true)
include hp

theorem submatchFrom_nil (b : Bytes) : r.submatchFrom b [] = none := by
  cases h : r.submatchFrom b [] with
  | none => rfl
  | some k =>
    obtain ⟨pre, t, u, heq, hM⟩ := matches_of_submatchFrom h
    obtain ⟨c, hc, -⟩ := hp _ t u k hM
    have hmem : c ∈ pre ++ t ++ u := List.mem_append_left _ (List.mem_append_right _ hc)
    rw [← heq] at hmem
    cases hmem

theorem countP_replaceFrom (n : ℕ) {b : Bytes} (hn : s.length ≤ n) :
    (r.replaceFrom [] n ⟨b, s⟩).countP p ≤ s.countP p ∧
      (r.submatchFrom b s ≠ none → (r.replaceFrom [] n ⟨b, s⟩).countP p < s.countP p) := by
  induction n generalizing b s with
  | zero =>
    obtain rfl := List.eq_nil_of_length_eq_zero (Nat.le_zero.mp hn)
    exact ⟨le_rfl, fun h => absurd (submatchFrom_nil hp b) h⟩
  | succ n ih =>
    cases s with
    | nil => exact ⟨le_rfl, fun h => absurd (submatchFrom_nil hp b) h⟩
    | cons a s =>
      rw [List.length_cons] at hn
      cases hx : (r.ends ⟨b, a :: s⟩).head? with
      | none =>
        obtain ⟨hle, hlt⟩ := ih (b := a :: b) (Nat.le_of_succ_le_succ hn)
        simp only [replaceFrom, submatchFrom, hx, List.countP_cons]
        exact ⟨Nat.add_le_add_right hle _, fun h => Nat.add_lt_add_right (hlt h) _⟩
      | some x =>
        -- the match takes a byte of the kind, and the rest loses no more than it has
        obtain ⟨t, hrest, -, hM⟩ := (mem_ends_iff r _ x).mp (List.mem_of_head? hx)
        obtain ⟨c, hc, hpc⟩ := hp _ t _ _ hM
        have hpos : 0 < t.countP p := List.countP_pos_iff.mpr ⟨c, hc, hpc⟩
        have hcount : (a :: s).countP p = t.countP p + x.1.rest.countP p := by
          rw [← List.countP_append]
          exact congrArg (List.countP p) hrest
        have hlen : (a :: s).length = t.length + x.1.rest.length := by
          rw [← List.length_append]
          exact congrArg List.length hrest
        have htpos := List.length_pos_of_mem hc
        rw [List.length_cons] at hlen
        have hle : (r.replaceFrom [] n x.1).countP p ≤ x.1.rest.countP p :=
          (ih (s := x.1.rest) (b := x.1.before) (by omega)).1
        have hshort : x.1.rest.length < (a :: s).length := by
          rw [List.length_cons]
          omega
        simp only [replaceFrom, hx, if_pos hshort, List.nil_append]
        exact ⟨by omega, fun _ => by omega⟩

theorem countP_replaceAll_eq_iff :
    (r.replaceAll [] s).countP p = s.countP p ↔ r.matchString s = false := by
  obtain ⟨-, hlt⟩ := countP_replaceFrom hp s.length (s := s) (b := []) le_rfl
  rw [matchString, submatch, Option.isSome_eq_false_iff, Option.isNone_iff_eq_none]
  constructor
  · intro heq
    by_contra hsome
    exact absurd heq (hlt hsome).ne
  · intro hnone
    rw [replaceAll, replaceFrom_of_submatchFrom _ hnone]

end Count

end First

def avoids (c : UInt8) : Regex → Bool
  | .empty => true
  | .byte b => b != c
  | .rune ok wide => !wide && !ok c
  | .seq r s => avoids c r && avoids c s
  | .alt r s => avoids c r && avoids c s
  | .group _ r => avoids c r
  | .star _ => false
  | .lazy _ => false
  | .boundary => false
  | .textEnd => false

def StopsAt (c : UInt8) (w : Bytes) : Prop := w = [] ∨ ∃ v, w = c :: v

section Separators

variable {r : Regex} {c : UInt8}

def EndsBefore (c : UInt8) (r : Regex) : Prop :=
  ∀ w, StopsAt c w → ∀ b b' u : Bytes,
    (r.ends ⟨b, u ++ w⟩).map (fun x => (x.1.rest, x.2)) =
      (r.ends ⟨b', u⟩).map fun x => (x.1.rest ++ w, x.2)

theorem endsBefore_byte {d : UInt8} (hne : d ≠ c) : EndsBefore c (byte d) := by
  intro w hw b b' u
  cases u with
  | nil =>
    rcases hw with rfl | ⟨v, rfl⟩
    · rfl
    · simp [ends, hne.symm]
  | cons a u =>
    by_cases ha : a = d
    · simp [ends, ha]
    · simp [ends, ha]

theorem endsBefore_rune {ok : UInt8 → Bool} (hc : ok c = false) :
    EndsBefore c (rune ok false) := by
  intro w hw b b' u
  cases u with
  | nil =>
    rcases hw with rfl | ⟨v, rfl⟩
    · rfl
    · simp [ends, runeAt, hc]
  | cons a u =>
    by_cases ha : a < 128 ∧ ok a = true
    · simp [ends, runeAt, ha]
    · rw [not_and] at ha
      by_cases hlt : a < 128
      · simp [ends, runeAt, hlt, ha hlt]
      · simp [ends, runeAt, hlt]

theorem endsBefore_seq {s : Regex} (hr : EndsBefore c r) (hs : EndsBefore c s) :
    EndsBefore c (seq r s) := by
  intro w hw b b' u
  -- the second part only needs what is left of the text, in either run
  let next (p : Bytes × Captures) : List (Bytes × Captures) :=
    ((s.ends ⟨[], p.1⟩).map fun y => (y.1.rest, y.2)).map fun y => (y.1, y.2 ++ p.2)
  have hnext : ∀ {v : Bytes}, StopsAt c v → ∀ x : Cursor × Captures,
      ((s.ends x.1).map fun y => (y.1, y.2 ++ x.2)).map (fun y => (y.1.rest ++ v, y.2)) =
        next (x.1.rest ++ v, x.2) := by
    intro v hv x
    have happend := congrArg (List.map fun y : Bytes × Captures => (y.1, y.2 ++ x.2))
      (hs v hv [] x.1.before x.1.rest)
    simpa only [next, List.map_map, Function.comp_def] using happend.symm
  have hlong : ∀ x : Cursor × Captures, ((s.ends x.1).map fun y => (y.1, y.2 ++ x.2)).map
      (fun y => (y.1.rest, y.2)) = next (x.1.rest, x.2) := by
    simpa only [List.append_nil] using hnext (.inl rfl)
  calc ((seq r s).ends ⟨b, u ++ w⟩).map (fun x => (x.1.rest, x.2))
      = ((r.ends ⟨b, u ++ w⟩).map fun x => (x.1.rest, x.2)).flatMap next := by
        simp only [ends_seq, List.map_flatMap, List.flatMap_map, hlong]
    _ = ((r.ends ⟨b', u⟩).map fun x => (x.1.rest ++ w, x.2)).flatMap next := by
        rw [hr w hw b b' u]
    _ = ((seq r s).ends ⟨b', u⟩).map (fun x => (x.1.rest ++ w, x.2)) := by
        simp only [ends_seq, List.map_flatMap, List.flatMap_map, hnext hw]

theorem endsBefore_group (i : ℕ) (hr : EndsBefore c r) : EndsBefore c (group i r) := by
  intro w hw b b' u
  have htake : ∀ v : Bytes, (u ++ w).take ((u ++ w).length - (v ++ w).length) =
      u.take (u.length - v.length) := by
    intro v
    rw [List.length_append, List.length_append, Nat.add_sub_add_right,
      List.take_append_of_le_length (Nat.sub_le _ _)]
  calc ((group i r).ends ⟨b, u ++ w⟩).map (fun x => (x.1.rest, x.2))
      = ((r.ends ⟨b, u ++ w⟩).map fun x => (x.1.rest, x.2)).map fun p =>
          (p.1, (i, (u ++ w).take ((u ++ w).length - p.1.length)) :: p.2) := by
        simp only [ends_group, List.map_map]
        rfl
    _ = ((group i r).ends ⟨b', u⟩).map fun x => (x.1.rest ++ w, x.2) := by
        rw [hr w hw b b' u]
        simp only [ends_group, List.map_map, Function.comp_def, htake]

theorem endsBefore_of_avoids (h : r.avoids c = true) : EndsBefore c r := by
  induction r with
  | empty => exact fun _ _ _ _ _ => rfl
  | byte d => exact endsBefore_byte (by simpa [avoids] using h)
  | rune ok wide =>
    obtain ⟨rfl, hc⟩ : wide = false ∧ ok c = false := by simpa [avoids] using h
    exact endsBefore_rune hc
  | seq r s ihr ihs =>
    obtain ⟨hr, hs⟩ : r.avoids c = true ∧ s.avoids c = true := by simpa [avoids] using h
    exact endsBefore_seq (ihr hr) (ihs hs)
  | alt r s ihr ihs =>
    obtain ⟨hr, hs⟩ : r.avoids c = true ∧ s.avoids c = true := by simpa [avoids] using h
    intro w hw b b' u
    simp only [ends_alt, List.map_append, ihr hr w hw b b' u, ihs hs w hw b b' u]
  | group i r ih => exact endsBefore_group i (ih h)
  | star | lazy | boundary | textEnd => cases h

theorem head_ends_append (h : r.avoids c = true) {w : Bytes} (hw : StopsAt c w)
    (b b' u : Bytes) :
    (r.ends ⟨b, u ++ w⟩).head?.map Prod.snd = (r.ends ⟨b', u⟩).head?.map Prod.snd := by
  have hhead := congrArg (fun l => l.head?.map Prod.snd) (endsBefore_of_avoids h w hw b b' u)
  simpa only [List.head?_map, Option.map_map, Function.comp_def] using hhead

theorem submatchFrom_cons (r : Regex) (b : Bytes) (a : UInt8) (s : Bytes) :
    r.submatchFrom b (a :: s) =
      ((r.ends ⟨b, a :: s⟩).head?.map Prod.snd).or (r.submatchFrom (a :: b) s) := by
  rw [submatchFrom]
  cases (r.ends ⟨b, a :: s⟩).head? with
  | none | some x => rfl

theorem submatchFrom_before (h : r.avoids c = true) (b b' s : Bytes) :
    r.submatchFrom b s = r.submatchFrom b' s := by
  induction s generalizing b b' with
  | nil => exact head_ends_append h (.inl rfl) b b' []
  | cons a s ih =>
    have hhead := head_ends_append h (.inl rfl) b b' (a :: s)
    rw [List.append_nil] at hhead
    rw [submatchFrom_cons, submatchFrom_cons, hhead, ih (a :: b) (a :: b')]

theorem submatch_append (h : r.avoids c = true) (u v : Bytes) :
    r.submatch (u ++ c :: v) = (r.submatch u).or (r.submatch v) := by
  suffices hfrom : ∀ b, r.submatchFrom b (u ++ c :: v) = (r.submatchFrom b u).or (r.submatch v) from
    hfrom []
  intro b
  induction u generalizing b with
  | nil =>
    rw [List.nil_append, submatchFrom_cons, submatchFrom_before h (c :: b) []]
    exact congrArg (·.or (r.submatch v)) (head_ends_append h (.inr ⟨v, rfl⟩) b b [])
  | cons a u ih =>
    rw [List.cons_append, submatchFrom_cons, submatchFrom_cons, ih (a :: b), Option.or_assoc,
      ← List.cons_append, head_ends_append h (.inr ⟨v, rfl⟩) b b (a :: u)]

end Separators

end Regex

end GoStream.Foundations
