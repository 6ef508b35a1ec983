import GoStream.AutoRemove.Remover
import GoStream.Foundations.Regex

/-!
# Names of episodes
-/

namespace GoStream.Engines

open Foundations Regex Inodes AutoRemove

structure Lowering where
  lower : Bytes → Bytes
  lower_append : ∀ u v, Settled v → lower (u ++ v) = lower u ++ lower v
  lower_ascii : ∀ c : UInt8, c < 128 → lower [c] = [lowerByte c]

def Lowering.ascii : Lowering where
  lower := asciiLower
  lower_append := fun _ _ _ => List.map_append
  lower_ascii := fun _ _ => rfl

theorem Lowering.lower_nil (L : Lowering) : L.lower [] = [] := by
  have h := congrArg List.length (L.lower_append [] [] (by simp [Settled]))
  rw [List.length_append, List.nil_append] at h
  exact List.eq_nil_of_length_eq_zero (by omega)

theorem Lowering.lower_of_ascii (L : Lowering) {s : Bytes} (h : s.all (· < 128) = true) :
    L.lower s = asciiLower s := by
  induction s with
  | nil => exact L.lower_nil
  | cons c s ih =>
    rw [List.all_cons, Bool.and_eq_true, decide_eq_true_eq] at h
    have hsettled : Settled s := by
      intro d hd
      have hlt := List.all_eq_true.mp h.2 d (List.mem_of_head? hd)
      simp only [isContinuation, Bool.and_eq_false_iff, decide_eq_false_iff_not]
      exact .inl (UInt8.not_le.mpr (by simpa using hlt))
    rw [← List.singleton_append, L.lower_append [c] s hsettled, ih h.2, L.lower_ascii c h.1]
    rfl

def isAlnum (c : UInt8) : Bool := (97 ≤ c && c ≤ 122) || isDecimal c

def squeeze (s : Bytes) : Bytes := s.filter isAlnum

def Lowering.normalized (L : Lowering) (showName : Bytes) : Bytes := squeeze (L.lower showName)

def yearOf (firstAirDate : Bytes) : Bytes :=
  if 4 ≤ firstAirDate.length then firstAirDate.take 4 else []

def pad2 (n : Int64) : Bytes :=
  if (itoa n.toInt).length < 2 then 48 :: itoa n.toInt else itoa n.toInt

def Lowering.episodeKey (L : Lowering) (showName firstAirDate : Bytes) (season episode : Int64) :
    Bytes :=
  if yearOf firstAirDate ≠ [] then
    L.normalized showName ++ 95 :: yearOf firstAirDate ++
      95 :: (115 :: pad2 season ++ 101 :: pad2 episode)
  else L.normalized showName ++ 95 :: (115 :: pad2 season ++ 101 :: pad2 episode)

def isForbidden (c : UInt8) : Bool := [60, 62, 58, 34, 47, 92, 124, 63, 42, 39, 38].contains c

def replaceRuns (ok : UInt8 → Bool) (r : UInt8) : Bool → Bytes → Bytes
  | _, [] => []
  | inside, c :: s =>
    if ok c then if inside then replaceRuns ok r true s else r :: replaceRuns ok r true s
    else c :: replaceRuns ok r false s

def trimByte (b : UInt8) (s : Bytes) : Bytes :=
  ((s.dropWhile (· = b)).reverse.dropWhile (· = b)).reverse

def sanitizeName (name : Bytes) : Bytes :=
  let clean := name.filter fun c => !isForbidden c
  let clean := replaceRuns isSpace 95 false clean
  let clean := replaceRuns (· = 95) 95 false clean
  trimByte 95 clean

def getShowFolderName (showName firstAirDate : Bytes) : Bytes :=
  if yearOf firstAirDate ≠ [] then
    sanitizeName showName ++ 32 :: 40 :: yearOf firstAirDate ++ [41]
  else sanitizeName showName

def episodeSuffix (season episode hash8 : Bytes) : Bytes :=
  95 :: 83 :: season ++ 69 :: episode ++ 95 :: hash8 ++ ascii ".mkv"

def buildFilename (showName : Bytes) (season episode : Int64) (hash8 : Bytes) : Bytes :=
  sanitizeName showName ++ episodeSuffix (pad2 season) (pad2 episode) hash8

def joinElem (dir elem : Bytes) : Bytes :=
  if elem = [] ∨ elem = [46] then dir
  else if elem = [46, 46] then filepathDir dir
  else dir ++ 47 :: elem

def seasonName (season : Int64) : Bytes := ascii "Season." ++ pad2 season

def stubPath (tvDir showName firstAirDate : Bytes) (season episode : Int64) (hash8 : Bytes) :
    Bytes :=
  joinElem (joinElem (joinElem tvDir (getShowFolderName showName firstAirDate)) (seasonName season))
    (buildFilename showName season episode hash8)

def reTVFileName : Regex :=
  inOrder [.group 1 (plus dot), lit [95, 83], .group 2 (plus digit), .byte 69,
    .group 3 (plus digit), .byte 95, .group 4 (times 8 (cls isLowerHex)), lit (ascii ".mkv"),
    .textEnd]

def groupText (k : Captures) (i : ℕ) : Bytes := (k.lookup i).getD []

def atoi (s : Bytes) : Int64 := (parseInt s).getD Int64.maxValue

structure ParsedName where
  showName : Bytes
  season : Int64
  episode : Int64
  hash8 : Bytes
  deriving DecidableEq

def parseFileName (filename : Bytes) : Option ParsedName :=
  (reTVFileName.submatch filename).map fun k =>
    ⟨groupText k 1, atoi (groupText k 2), atoi (groupText k 3), groupText k 4⟩

def isTextFrom : Bool → Bytes → Bool
  | _, [] => true
  | start, c :: s => !(start && isContinuation c) && isTextFrom (c < 128) s

def isText (s : Bytes) : Bool := isTextFrom true s

def matters (c : UInt8) : Bool := !(c < 128 && !isAlnum (lowerByte c))

section NormalForm

variable {start : Bool} {s : Bytes} {ok : UInt8 → Bool}

theorem isTextFrom_of_isText (h : isText s = true) : isTextFrom start s = true := by
  cases s with
  | nil => rfl
  | cons c s =>
    simp only [isText, isTextFrom, Bool.true_and, Bool.and_eq_true, Bool.not_eq_true'] at h ⊢
    simp [h.1, h.2]

theorem settled_of_isText (h : isText s = true) : Settled s := by
  intro c hc
  cases s with
  | nil => cases hc
  | cons d s =>
    obtain rfl := Option.some.inj hc
    simp only [isText, isTextFrom, Bool.true_and, Bool.and_eq_true, Bool.not_eq_true'] at h
    exact h.1

theorem isTextFrom_filter (hok : ∀ c, ok c = false → c < 128) (h : isTextFrom start s = true) :
    isTextFrom start (s.filter ok) = true := by
  induction s generalizing start with
  | nil => rfl
  | cons c s ih =>
    rw [isTextFrom, Bool.and_eq_true] at h
    cases hc : ok c with
    | true =>
      rw [List.filter_cons_of_pos hc, isTextFrom, Bool.and_eq_true]
      exact ⟨h.1, ih h.2⟩
    | false =>
      rw [List.filter_cons_of_neg (by simp [hc])]
      have hascii : (decide (c < 128)) = true := by simpa using hok c hc
      rw [hascii] at h
      exact isTextFrom_of_isText (ih h.2)

theorem isTextFrom_replaceRuns {r : UInt8} (hr : r < 128) (hok : ∀ c, ok c = true → c < 128)
    {inside : Bool} (h : isTextFrom start s = true) :
    isTextFrom start (replaceRuns ok r inside s) = true := by
  have hrcont : isContinuation r = false := by
    simp only [isContinuation, Bool.and_eq_false_iff, decide_eq_false_iff_not]
    exact .inl (UInt8.not_le.mpr hr)
  induction s generalizing start inside with
  | nil => rfl
  | cons c s ih =>
    rw [isTextFrom, Bool.and_eq_true] at h
    unfold replaceRuns
    split_ifs with hc hin
    · have hascii : (decide (c < 128)) = true := by simpa using hok c hc
      rw [hascii] at h
      exact isTextFrom_of_isText (ih h.2)
    · have hascii : (decide (c < 128)) = true := by simpa using hok c hc
      rw [hascii] at h
      simp only [isTextFrom, hrcont, Bool.and_false, Bool.not_false, Bool.true_and, hr,
        decide_true]
      exact ih h.2
    · rw [isTextFrom, Bool.and_eq_true]
      exact ⟨h.1, ih h.2⟩

theorem isTextFrom_of_append {u v : Bytes} (h : isTextFrom start (u ++ v) = true) :
    isTextFrom start u = true := by
  induction u generalizing start with
  | nil => rfl
  | cons c u ih =>
    rw [List.cons_append, isTextFrom, Bool.and_eq_true] at h
    rw [isTextFrom, Bool.and_eq_true]
    exact ⟨h.1, ih h.2⟩

theorem isText_trimByte {b : UInt8} (hb : b < 128) (h : isText s = true) :
    isText (trimByte b s) = true := by
  have hdrop : isText (s.dropWhile (· = b)) = true := by
    induction s with
    | nil => rfl
    | cons c s ih =>
      by_cases hc : c = b
      · subst hc
        rw [List.dropWhile_cons_of_pos (by simp)]
        simp only [isText, isTextFrom, hb, decide_true, Bool.and_eq_true] at h
        exact ih h.2
      · rwa [List.dropWhile_cons_of_neg (by simpa using hc)]
  obtain ⟨v, hv⟩ := List.dropWhile_suffix (l := (s.dropWhile (· = b)).reverse) (· = b)
  have happ : trimByte b s ++ v.reverse = s.dropWhile (· = b) := by
    rw [trimByte, ← List.reverse_append, hv, List.reverse_reverse]
  rw [← happ] at hdrop
  exact isTextFrom_of_append hdrop

theorem isForbidden_lt {c : UInt8} (h : isForbidden c = true) : c < 128 := by
  simp only [isForbidden, List.contains_iff_mem, List.mem_cons, List.not_mem_nil, or_false] at h
  rcases h with rfl | rfl | rfl | rfl | rfl | rfl | rfl | rfl | rfl | rfl | rfl <;> decide

theorem isSpace_lt {c : UInt8} (h : isSpace c = true) : c < 128 := by
  simp only [isSpace, Bool.or_eq_true, decide_eq_true_eq] at h
  rcases h with (((rfl | rfl) | rfl) | rfl) | rfl <;> decide

theorem isText_sanitizeName (h : isText s = true) : isText (sanitizeName s) = true := by
  apply isText_trimByte (by decide)
  apply isTextFrom_replaceRuns (by decide) (by rintro c hc; simp at hc; subst hc; decide)
  apply isTextFrom_replaceRuns (by decide) fun c => isSpace_lt
  exact isTextFrom_filter (fun c hc => isForbidden_lt (by simpa using hc)) h

theorem filter_replaceRuns {p : UInt8 → Bool} {r : UInt8} (hr : p r = false)
    (hok : ∀ c, ok c = true → p c = false) (inside : Bool) :
    (replaceRuns ok r inside s).filter p = s.filter p := by
  induction s generalizing inside with
  | nil => rfl
  | cons c s ih =>
    unfold replaceRuns
    split_ifs with hc hin
    · rw [ih, List.filter_cons_of_neg (by simp [hok c hc])]
    · rw [List.filter_cons_of_neg (by simp [hr]), ih, List.filter_cons_of_neg (by simp [hok c hc])]
    · cases hm : p c <;> simp [hm, ih]

theorem filter_dropWhile_eq {p : UInt8 → Bool} {b : UInt8} (hb : p b = false) :
    (s.dropWhile (· = b)).filter p = s.filter p := by
  induction s with
  | nil => rfl
  | cons c s ih =>
    by_cases hc : c = b
    · rw [List.dropWhile_cons_of_pos (by simpa using hc), ih,
        List.filter_cons_of_neg (by simp [hc, hb])]
    · rw [List.dropWhile_cons_of_neg (by simpa using hc)]

theorem filter_trimByte {p : UInt8 → Bool} {b : UInt8} (hb : p b = false) :
    (trimByte b s).filter p = s.filter p := by
  rw [trimByte, List.filter_reverse, filter_dropWhile_eq hb, List.filter_reverse,
    List.reverse_reverse, filter_dropWhile_eq hb]

theorem filter_matters_sanitizeName : (sanitizeName s).filter matters = s.filter matters := by
  have hforbidden : ∀ c, isForbidden c = true → matters c = false := by
    intro c h
    simp only [isForbidden, List.contains_iff_mem, List.mem_cons, List.not_mem_nil, or_false] at h
    rcases h with rfl | rfl | rfl | rfl | rfl | rfl | rfl | rfl | rfl | rfl | rfl <;> decide
  have hspace : ∀ c, isSpace c = true → matters c = false := by
    intro c h
    simp only [isSpace, Bool.or_eq_true, decide_eq_true_eq] at h
    rcases h with (((rfl | rfl) | rfl) | rfl) | rfl <;> decide
  rw [sanitizeName, filter_trimByte (by decide),
    filter_replaceRuns (by decide) (by rintro c hc; simp at hc; subst hc; decide),
    filter_replaceRuns (by decide) hspace, List.filter_filter]
  apply List.filter_congr
  intro c _
  cases hm : matters c with
  | false => rfl
  | true =>
    cases hc : isForbidden c with
    | false => rfl
    | true => rw [hforbidden c hc] at hm; cases hm

variable (L : Lowering)

theorem Lowering.normalized_append {u v : Bytes} (hv : Settled v) :
    L.normalized (u ++ v) = L.normalized u ++ L.normalized v := by
  rw [normalized, L.lower_append u v hv, squeeze, List.filter_append]
  rfl

theorem Lowering.normalized_of_not_matters {c : UInt8} (hc : matters c = false) :
    L.normalized [c] = [] := by
  simp only [matters, Bool.not_eq_false', Bool.and_eq_true, decide_eq_true_eq,
    Bool.not_eq_true'] at hc
  rw [normalized, L.lower_ascii c hc.1, squeeze, List.filter_cons_of_neg (by simp [hc.2])]
  rfl

theorem Lowering.normalized_filter (h : isTextFrom start s = true) (u : Bytes) :
    L.normalized (u ++ s) = L.normalized (u ++ s.filter matters) := by
  induction s generalizing start u with
  | nil => rfl
  | cons c s ih =>
    rw [isTextFrom, Bool.and_eq_true] at h
    cases hc : matters c with
    | true =>
      rw [List.filter_cons_of_pos hc, List.append_cons, List.append_cons u c (s.filter matters)]
      exact ih h.2 (u ++ [c])
    | false =>
      have hascii : c < 128 := by
        simp only [matters, Bool.not_eq_false', Bool.and_eq_true, decide_eq_true_eq] at hc
        exact hc.1
      rw [decide_eq_true hascii] at h
      have hfilter : isText (s.filter matters) = true := by
        apply isTextFrom_filter _ h.2
        intro d hd
        simp only [matters, Bool.not_eq_false', Bool.and_eq_true, decide_eq_true_eq] at hd
        exact hd.1
      calc L.normalized (u ++ c :: s) = L.normalized u ++ (L.normalized [c] ++ L.normalized s) := by
            rw [L.normalized_append (settled_cons hascii s), ← List.singleton_append,
              L.normalized_append (settled_of_isText h.2)]
        _ = L.normalized u ++ L.normalized (s.filter matters) := by
            rw [L.normalized_of_not_matters hc, List.nil_append, ← List.nil_append s,
              ih h.2 [], List.nil_append, List.nil_append]
        _ = L.normalized (u ++ (c :: s).filter matters) := by
            rw [List.filter_cons_of_neg (by simp [hc]),
              L.normalized_append (settled_of_isText hfilter)]

theorem Lowering.normalized_sanitizeName (h : isText s = true) :
    L.normalized (sanitizeName s) = L.normalized s := by
  have hs := L.normalized_filter h []
  have hclean := L.normalized_filter (isText_sanitizeName h) []
  rw [filter_matters_sanitizeName] at hclean
  exact hclean.trans hs.symm

end NormalForm

theorem mem_replaceRuns {ok : UInt8 → Bool} {r c : UInt8} {s : Bytes} {inside : Bool}
    (h : c ∈ replaceRuns ok r inside s) : c = r ∨ (c ∈ s ∧ ok c = false) := by
  induction s generalizing inside with
  | nil => cases h
  | cons d s ih =>
    have hlater : c = r ∨ (c ∈ s ∧ ok c = false) → c = r ∨ (c ∈ d :: s ∧ ok c = false) := by
      rintro (rfl | ⟨hmem, hok⟩)
      · exact .inl rfl
      · exact .inr ⟨List.mem_cons_of_mem _ hmem, hok⟩
    unfold replaceRuns at h
    split_ifs at h with hd hin
    · exact hlater (ih h)
    · rcases List.mem_cons.mp h with rfl | h
      · exact .inl rfl
      · exact hlater (ih h)
    · rcases List.mem_cons.mp h with rfl | h
      · exact .inr ⟨List.mem_cons_self, by simpa using hd⟩
      · exact hlater (ih h)

theorem replaceRuns_of_none {ok : UInt8 → Bool} {s : Bytes} (r : UInt8) (inside : Bool)
    (h : ∀ c ∈ s, ok c = false) : replaceRuns ok r inside s = s := by
  induction s generalizing inside with
  | nil => rfl
  | cons c s ih =>
    rw [replaceRuns, if_neg (by simp [h c List.mem_cons_self]),
      ih false fun d hd => h d (List.mem_cons_of_mem _ hd)]

theorem trimByte_append {b : UInt8} {v : Bytes} (hv : b ∉ v) (hne : v ≠ []) (u : Bytes) :
    trimByte b (u ++ v) = u.dropWhile (· = b) ++ v := by
  have hdrop : ∀ l : Bytes, b ∉ l → l.dropWhile (· = b) = l := by
    intro l hl
    cases l with
    | nil => rfl
    | cons c l =>
      apply List.dropWhile_cons_of_neg
      simp only [decide_eq_true_eq]
      rintro rfl
      exact hl List.mem_cons_self
  have hfront : (u ++ v).dropWhile (· = b) = u.dropWhile (· = b) ++ v := by
    rw [List.dropWhile_append]
    split_ifs with hu
    · rw [hdrop v hv, List.isEmpty_iff.mp hu, List.nil_append]
    · rfl
  have hback : v.reverse.dropWhile (· = b) = v.reverse := hdrop _ (by simpa using hv)
  rw [trimByte, hfront, List.reverse_append, List.dropWhile_append, hback,
    if_neg (by simp [hne]), ← List.reverse_append, List.reverse_reverse]

theorem mem_of_mem_trimByte {b c : UInt8} {s : Bytes} (h : c ∈ trimByte b s) : c ∈ s := by
  have hdrop := (List.dropWhile_sublist _).mem (List.mem_reverse.mp h)
  exact (List.dropWhile_sublist _).mem (List.mem_reverse.mp hdrop)

theorem mem_sanitizeName {c : UInt8} {s : Bytes} (h : c ∈ sanitizeName s) :
    c = 95 ∨ (isForbidden c = false ∧ isSpace c = false) := by
  rcases mem_replaceRuns (mem_of_mem_trimByte h) with hc | ⟨hmem, -⟩
  · exact .inl hc
  · rcases mem_replaceRuns hmem with hc | ⟨hmem, hspace⟩
    · exact .inl hc
    · exact .inr ⟨by simpa using (List.mem_filter.mp hmem).2, hspace⟩

theorem slash_not_mem_sanitizeName (s : Bytes) : 47 ∉ sanitizeName s := fun h =>
  absurd (mem_sanitizeName h) (by decide)

theorem newline_not_mem_sanitizeName (s : Bytes) : 10 ∉ sanitizeName s := fun h =>
  absurd (mem_sanitizeName h) (by decide)

theorem cut_inj {sep : UInt8} {p q u v : Bytes} (hu : sep ∉ u) (hv : sep ∉ v)
    (h : p ++ sep :: u = q ++ sep :: v) : p = q ∧ u = v := by
  obtain rfl := append_separator_inj hu hv h
  exact ⟨rfl, (List.cons.inj (List.append_cancel_left h)).2⟩

theorem all_isNumeral_pad2 (n : Int64) : (pad2 n).all isNumeral = true := by
  unfold pad2
  split_ifs
  · rw [List.all_cons, all_isNumeral_itoa]
    rfl
  · exact all_isNumeral_itoa _

theorem parseInt_pad2 (n : Int64) : parseInt (pad2 n) = some n := by
  unfold pad2
  split_ifs with hlen
  · cases hn : n.toInt with
    | ofNat m =>
      have hall := all_isDecimal_decimal m
      have hval : digitsValue (48 :: decimal m) = m := by
        have hzero : digitsValue (48 :: decimal m) = digitsValue (decimal m) := rfl
        rw [hzero, digitsValue_decimal]
      have hlt : m < 2 ^ 63 := by
        have := n.toInt_lt
        rw [hn] at this
        simpa using this
      have hdec : isDecimal 48 = true := rfl
      rw [itoa, parseInt_digits (by simp) (by simp [hall, hdec]) (by omega), hval,
        ← Int64.ofInt_toInt n, hn]
      rfl
    | negSucc m =>
      have hne := decimal_ne_nil (m + 1)
      rw [hn] at hlen
      cases hd : decimal (m + 1) with
      | nil => exact absurd hd hne
      | cons d t => simp [itoa, hd] at hlen
  · exact parseInt_itoa n

theorem pad2_inj {m n : Int64} (h : pad2 m = pad2 n) : m = n := by
  have := congrArg parseInt h
  rw [parseInt_pad2, parseInt_pad2] at this
  exact Option.some.inj this

theorem episodeSuffix_inj {stem stem' d e h d' e' h' : Bytes} (hd : d.all isNumeral = true)
    (he : e.all isNumeral = true) (hd' : d'.all isNumeral = true) (he' : e'.all isNumeral = true)
    (hh : 95 ∉ h) (hh' : 95 ∉ h')
    (heq : stem ++ episodeSuffix d e h = stem' ++ episodeSuffix d' e' h') :
    stem = stem' ∧ d = d' ∧ e = e' ∧ h = h' := by
  have hcut : ∀ stem d e h : Bytes, stem ++ episodeSuffix d e h =
      (stem ++ [95] ++ 83 :: d ++ 69 :: e) ++ 95 :: (h ++ ascii ".mkv") := by
    intro stem d e h
    simp [episodeSuffix]
  have hmkv : (95 : UInt8) ∉ ascii ".mkv" := by decide
  rw [hcut, hcut] at heq
  have hE : isNumeral 69 = false := rfl
  have hS : isNumeral 83 = false := rfl
  obtain ⟨hnumbers, htail⟩ := cut_inj (by simp [hh, hmkv]) (by simp [hh', hmkv]) heq
  obtain ⟨hseason, hee⟩ := cut_inj (not_mem_of_all he hE) (not_mem_of_all he' hE) hnumbers
  obtain ⟨hstem, hdd⟩ := cut_inj (not_mem_of_all hd hS) (not_mem_of_all hd' hS) hseason
  exact ⟨List.append_cancel_right hstem, hdd, hee, List.append_cancel_right htail⟩

theorem Lowering.not_mem_normalized (L : Lowering) (s : Bytes) : 95 ∉ L.normalized s := fun h =>
  absurd (List.mem_filter.mp h).2 (by decide)

theorem underscore_not_mem_numbers (s e : Int64) :
    (95 : UInt8) ∉ 115 :: pad2 s ++ 101 :: pad2 e := by
  have hpad : ∀ n, (95 : UInt8) ∉ pad2 n := fun n => not_mem_of_all (all_isNumeral_pad2 n) rfl
  simp [hpad]

theorem Lowering.episodeKey_inj (L : Lowering) {a b d d' : Bytes} {s e s' e' : Int64}
    (h : L.episodeKey a d s e = L.episodeKey b d' s' e') :
    L.normalized a = L.normalized b ∧ yearOf d = yearOf d' ∧ s = s' ∧ e = e' := by
  have hkey : ∀ a d s e, L.episodeKey a d s e =
      (L.normalized a ++ if yearOf d ≠ [] then 95 :: yearOf d else []) ++
        95 :: (115 :: pad2 s ++ 101 :: pad2 e) := by
    intro a d s e
    unfold episodeKey
    split_ifs <;> simp
  rw [hkey, hkey] at h
  obtain ⟨hfront, hnumbers⟩ := cut_inj (underscore_not_mem_numbers s e)
    (underscore_not_mem_numbers s' e') h
  obtain ⟨hseason, hepisode⟩ := cut_inj (not_mem_of_all (all_isNumeral_pad2 e) rfl)
    (not_mem_of_all (all_isNumeral_pad2 e') rfl) hnumbers
  have hs : s = s' := pad2_inj (List.cons.inj hseason).2
  have he : e = e' := pad2_inj hepisode
  have ha := L.not_mem_normalized a
  have hb := L.not_mem_normalized b
  split_ifs at hfront with hy hy' hy'
  · have hsplit := congrArg (splitFirst 95) hfront
    rw [splitFirst_append ha, splitFirst_append hb] at hsplit
    obtain ⟨hname, hyear⟩ := Prod.mk.inj (Option.some.inj hsplit)
    exact ⟨hname, hyear, hs, he⟩
  · rw [List.append_nil] at hfront
    rw [← hfront] at hb
    simp at hb
  · rw [List.append_nil] at hfront
    rw [hfront] at ha
    simp at ha
  · simp only [ne_eq, not_not] at hy hy'
    exact ⟨by simpa using hfront, hy.trans hy'.symm, hs, he⟩

def hash8 (h : InfoHash) : Bytes := h.digits.take 8

theorem hash8_length (h : InfoHash) : (hash8 h).length = 8 := by
  simp [hash8, h.length_eq]

theorem mem_hash8 {h : InfoHash} {c : UInt8} (hc : c ∈ hash8 h) : isLowerHex c = true :=
  List.all_eq_true.mp h.hex c (List.mem_of_mem_take hc)

theorem underscore_not_mem_hash8 (h : InfoHash) : 95 ∉ hash8 h := fun hc =>
  absurd (mem_hash8 hc) (by decide)

theorem length_filepathDir_le (p : Bytes) (h : p ≠ []) : (filepathDir p).length ≤ p.length := by
  have hpos := List.length_pos_of_ne_nil h
  simp only [filepathDir]
  split_ifs
  · exact hpos
  · rw [List.length_take]
    omega
  · exact hpos

theorem joinElem_of_long {dir elem : Bytes} (h : 2 < elem.length) :
    joinElem dir elem = dir ++ 47 :: elem := by
  have hne : ∀ l : Bytes, l.length ≤ 2 → elem ≠ l := by
    rintro l hl rfl
    omega
  rw [joinElem, if_neg (not_or.mpr ⟨hne _ (by simp), hne _ (by simp)⟩), if_neg (hne _ (by simp))]

theorem length_joinElem_le {dir elem : Bytes} (hdir : dir ≠ []) :
    (joinElem dir elem).length ≤ dir.length + 1 + elem.length := by
  unfold joinElem
  split_ifs
  · omega
  · have := length_filepathDir_le dir hdir
    omega
  · simp
    omega

theorem joinElem_getShowFolderName_inj {tvDir a b d d' : Bytes} (hdir : tvDir ≠ [])
    (hname : sanitizeName a = sanitizeName b)
    (h : joinElem tvDir (getShowFolderName a d) = joinElem tvDir (getShowFolderName b d')) :
    yearOf d = yearOf d' := by
  have hlong : ∀ {n y : Bytes}, 2 < (n ++ 32 :: 40 :: y ++ [41]).length := by
    intro n y
    simp
    omega
  have hle : (joinElem tvDir (sanitizeName b)).length ≤ _ := length_joinElem_le hdir
  unfold getShowFolderName at h
  rw [hname] at h
  split_ifs at h with hy hy' hy'
  · rw [joinElem_of_long hlong, joinElem_of_long hlong] at h
    simpa using h
  · rw [joinElem_of_long hlong] at h
    rw [← h] at hle
    simp at hle
    omega
  · rw [joinElem_of_long hlong] at h
    rw [h] at hle
    simp at hle
    omega
  · simp only [ne_eq, not_not] at hy hy'
    rw [hy, hy']

theorem slash_not_mem_buildFilename (name : Bytes) (s e : Int64) (h : InfoHash) :
    47 ∉ buildFilename name s e (hash8 h) := by
  have hpad : ∀ n, (47 : UInt8) ∉ pad2 n := fun n => not_mem_of_all (all_isNumeral_pad2 n) rfl
  have hmkv : (47 : UInt8) ∉ ascii ".mkv" := by decide
  have hhash : (47 : UInt8) ∉ hash8 h := fun hc => absurd (mem_hash8 hc) (by decide)
  simp [buildFilename, episodeSuffix, slash_not_mem_sanitizeName, hpad, hmkv, hhash]

theorem stubPath_eq (tvDir name date : Bytes) (s e : Int64) (h : InfoHash) :
    stubPath tvDir name date s e (hash8 h) =
      joinElem tvDir (getShowFolderName name date) ++ 47 :: seasonName s ++
        47 :: buildFilename name s e (hash8 h) := by
  rw [stubPath, joinElem_of_long, joinElem_of_long]
  · have : (ascii "Season.").length = 7 := rfl
    simp [seasonName, this]
    omega
  · have : (ascii ".mkv").length = 4 := rfl
    simp [buildFilename, episodeSuffix, this]
    omega

theorem stubPath_inj {tvDir a b d d' : Bytes} {s e s' e' : Int64} {h h' : InfoHash}
    (hdir : tvDir ≠ [])
    (heq : stubPath tvDir a d s e (hash8 h) = stubPath tvDir b d' s' e' (hash8 h')) :
    sanitizeName a = sanitizeName b ∧ yearOf d = yearOf d' ∧ s = s' ∧ e = e' ∧
      hash8 h = hash8 h' := by
  rw [stubPath_eq, stubPath_eq] at heq
  obtain ⟨hfolder, hfile⟩ := cut_inj (slash_not_mem_buildFilename a s e h)
    (slash_not_mem_buildFilename b s' e' h') heq
  obtain ⟨hname, hs, he, hh⟩ := episodeSuffix_inj (all_isNumeral_pad2 s) (all_isNumeral_pad2 e)
    (all_isNumeral_pad2 s') (all_isNumeral_pad2 e') (underscore_not_mem_hash8 h)
    (underscore_not_mem_hash8 h') hfile
  obtain rfl := pad2_inj hs
  have hyear := joinElem_getShowFolderName_inj hdir hname (List.append_cancel_right hfolder)
  exact ⟨hname, hyear, rfl, pad2_inj he, hh⟩

theorem matches_plus_digit {b t u : Bytes} {k : Captures} : (plus digit).Matches b t u k ↔
    t ≠ [] ∧ t.all isDecimal = true ∧ k = [] := by
  have hlt : ∀ c, isDecimal c = true → c < 128 := by
    intro c hc
    simp only [isDecimal, Bool.and_eq_true, decide_eq_true_eq] at hc
    exact UInt8.lt_of_le_of_lt hc.2 (by decide)
  rw [digit, matches_plus_cls, List.all_eq_true]
  constructor
  · rintro ⟨hne, hall, hk⟩
    exact ⟨hne, fun c hc => (hall c hc).2, hk⟩
  · rintro ⟨hne, hall, hk⟩
    exact ⟨hne, fun c hc => ⟨hlt c (hall c hc), hall c hc⟩, hk⟩

theorem isLowerHex_lt {c : UInt8} (h : isLowerHex c = true) : c < 128 := by
  simp only [isLowerHex, isDecimal, Bool.or_eq_true, Bool.and_eq_true, decide_eq_true_eq] at h
  rcases h with h | h
  · exact UInt8.lt_of_le_of_lt h.2 (by decide)
  · exact UInt8.lt_of_le_of_lt h.2 (by decide)

theorem matches_reTVFileName {b t u : Bytes} {k : Captures} :
    reTVFileName.Matches b t u k ↔ u = [] ∧ ∃ stem d e h, t = stem ++ episodeSuffix d e h ∧
      (stem ≠ [] ∧ 10 ∉ stem) ∧ (d ≠ [] ∧ d.all isDecimal = true) ∧
      (e ≠ [] ∧ e.all isDecimal = true) ∧ (h.length = 8 ∧ h.all isLowerHex = true) ∧
      k = [(4, h), (3, e), (2, d), (1, stem)] := by
  have hsettled : ∀ v : Bytes, Settled (95 :: v) := settled_cons (by decide)
  simp only [reTVFileName, inOrder, matches_group_seq, matches_lit_seq, matches_byte_seq,
    matches_plus_digit, matches_times_cls]
  constructor
  · rintro ⟨stem, t, k₁, k₂, rfl, rfl, hstem, t, rfl, d, t, k₃, k₄, rfl, rfl, hd, t, rfl, e, t, k₅,
      k₆, rfl, rfl, he, t, rfl, h, t, k₇, k₈, rfl, rfl, hh, t, rfl, rfl, rfl, rfl⟩
    obtain ⟨hne, hline, rfl⟩ := (matches_plus_dot (by apply hsettled)).mp hstem
    obtain ⟨hd, hdall, rfl⟩ := hd
    obtain ⟨he, heall, rfl⟩ := he
    obtain ⟨hh, hhall, rfl⟩ := hh
    refine ⟨rfl, stem, d, e, h, ?_, ⟨hne, hline⟩, ⟨hd, hdall⟩, ⟨he, heall⟩,
      ⟨hh, List.all_eq_true.mpr fun c hc => (hhall c hc).2⟩, rfl⟩
    simp [episodeSuffix]
  · rintro ⟨rfl, stem, d, e, h, rfl, ⟨hne, hline⟩, ⟨hd, hdall⟩, ⟨he, heall⟩, ⟨hh, hhall⟩, rfl⟩
    have hhex : ∀ c ∈ h, c < 128 ∧ isLowerHex c = true := fun c hc =>
      ⟨isLowerHex_lt (List.all_eq_true.mp hhall c hc), List.all_eq_true.mp hhall c hc⟩
    refine ⟨stem, episodeSuffix d e h, [], [(4, h), (3, e), (2, d)], rfl, rfl,
      (matches_plus_dot (by apply hsettled)).mpr ⟨hne, hline, rfl⟩,
      d ++ 69 :: e ++ 95 :: h ++ ascii ".mkv", by simp [episodeSuffix],
      d, 69 :: e ++ 95 :: h ++ ascii ".mkv", [], [(4, h), (3, e)], by simp, rfl, ⟨hd, hdall, rfl⟩,
      e ++ 95 :: h ++ ascii ".mkv", by simp,
      e, 95 :: h ++ ascii ".mkv", [], [(4, h)], by simp, rfl, ⟨he, heall, rfl⟩,
      h ++ ascii ".mkv", by simp,
      h, ascii ".mkv", [], [], rfl, rfl, ⟨hh, hhex, rfl⟩, [], by simp, rfl, rfl, rfl⟩

theorem all_isNumeral_of_all_isDecimal {s : Bytes} (h : s.all isDecimal = true) :
    s.all isNumeral = true := by
  rw [List.all_eq_true] at h ⊢
  intro c hc
  simp [isNumeral, h c hc]

theorem submatch_reTVFileName {stem d e h : Bytes} (hstem : stem ≠ [] ∧ 10 ∉ stem)
    (hd : d ≠ [] ∧ d.all isDecimal = true) (he : e ≠ [] ∧ e.all isDecimal = true)
    (hh : h.length = 8 ∧ h.all isLowerHex = true) :
    reTVFileName.submatch (stem ++ episodeSuffix d e h) =
      some [(4, h), (3, e), (2, d), (1, stem)] := by
  obtain ⟨t', u', k', heq, hM, hk⟩ := submatch_of_matches
    (matches_reTVFileName.mpr ⟨rfl, stem, d, e, h, rfl, hstem, hd, he, hh, rfl⟩)
  obtain ⟨rfl, stem', d', e', h', rfl, -, hd', he', hh', rfl⟩ := matches_reTVFileName.mp hM
  rw [List.append_nil] at heq hk
  rw [List.append_nil] at heq
  have hhex : ∀ {l : Bytes}, l.all isLowerHex = true → 95 ∉ l := fun hl => not_mem_of_all hl rfl
  obtain ⟨rfl, rfl, rfl, rfl⟩ := episodeSuffix_inj (all_isNumeral_of_all_isDecimal hd.2)
    (all_isNumeral_of_all_isDecimal he.2) (all_isNumeral_of_all_isDecimal hd'.2)
    (all_isNumeral_of_all_isDecimal he'.2) (hhex hh.2) (hhex hh'.2) heq
  exact hk

theorem pad2_ne_nil (n : Int64) : pad2 n ≠ [] := by
  unfold pad2
  split_ifs with h
  · exact List.cons_ne_nil _ _
  · intro hnil
    rw [hnil] at h
    simp at h

theorem atoi_pad2 (n : Int64) : atoi (pad2 n) = n := by
  rw [atoi, parseInt_pad2]
  rfl

theorem hash8_spec (h : InfoHash) : (hash8 h).length = 8 ∧ (hash8 h).all isLowerHex = true :=
  ⟨hash8_length h, List.all_eq_true.mpr fun _ hc => mem_hash8 hc⟩

theorem parseFileName_buildFilename {name : Bytes} {s e : Int64} (h : InfoHash)
    (hname : sanitizeName name ≠ []) (hs : (pad2 s).all isDecimal = true)
    (he : (pad2 e).all isDecimal = true) :
    parseFileName (buildFilename name s e (hash8 h)) = some ⟨sanitizeName name, s, e, hash8 h⟩ := by
  rw [parseFileName, buildFilename, submatch_reTVFileName
    ⟨hname, newline_not_mem_sanitizeName name⟩ ⟨pad2_ne_nil s, hs⟩ ⟨pad2_ne_nil e, he⟩
    (hash8_spec h), Option.map_some]
  change some (ParsedName.mk (sanitizeName name) (atoi (pad2 s)) (atoi (pad2 e)) (hash8 h)) = _
  rw [atoi_pad2, atoi_pad2]

theorem eq_of_parseFileName {name : Bytes} {s e : Int64} {h : InfoHash} {x : ParsedName}
    (hx : parseFileName (buildFilename name s e (hash8 h)) = some x) :
    x = ⟨sanitizeName name, s, e, hash8 h⟩ ∧ sanitizeName name ≠ [] ∧
      (pad2 s).all isDecimal = true ∧ (pad2 e).all isDecimal = true := by
  obtain ⟨k, hk, -⟩ := Option.map_eq_some_iff.mp hx
  obtain ⟨pre, t, u, heq, hM⟩ := matches_of_submatchFrom hk
  obtain ⟨rfl, stem, d', e', h', rfl, hstem, hd', he', hh', -⟩ := matches_reTVFileName.mp hM
  rw [List.append_nil, ← List.append_assoc] at heq
  obtain ⟨hname, hd, he, -⟩ := episodeSuffix_inj (all_isNumeral_pad2 s) (all_isNumeral_pad2 e)
    (all_isNumeral_of_all_isDecimal hd'.2) (all_isNumeral_of_all_isDecimal he'.2)
    (underscore_not_mem_hash8 h) (not_mem_of_all hh'.2 rfl) heq
  have hne : sanitizeName name ≠ [] := by
    rw [hname]
    exact List.append_ne_nil_of_right_ne_nil pre hstem.1
  have hs : (pad2 s).all isDecimal = true := hd ▸ hd'.2
  have he : (pad2 e).all isDecimal = true := he ▸ he'.2
  rw [parseFileName_buildFilename h hne hs he] at hx
  exact ⟨(Option.some.inj hx).symm, hne, hs, he⟩

end GoStream.Engines
