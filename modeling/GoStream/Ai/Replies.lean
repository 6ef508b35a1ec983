import GoStream.Foundations.Text
import Mathlib.Data.List.TakeWhile

/-!
# The replies of a language model
-/

namespace GoStream.Ai

open Foundations

def sliceOf (s : Bytes) (i j : ℕ) : Option Bytes :=
  if i ≤ j ∧ j ≤ s.length then some ((s.take j).drop i) else none

def scanWhile (ok : UInt8 → Bool) (s : Bytes) : ℕ → ℕ → Option ℕ
  | 0, i => some i
  | turns + 1, i =>
    if i < s.length then
      s[i]?.bind fun c => if ok c then scanWhile ok s turns (i + 1) else some i
    else some i

theorem sliceOf_append (u v w : Bytes) :
    sliceOf (u ++ v ++ w) u.length (u.length + v.length) = some v := by
  rw [sliceOf, if_pos (by simp)]
  simp [List.take_append]

theorem sliceOf_to_end (u v : Bytes) : sliceOf (u ++ v) u.length (u ++ v).length = some v := by
  have hslice := sliceOf_append u v []
  rwa [List.append_nil, ← List.length_append] at hslice

theorem scanWhile_append {ok : UInt8 → Bool} {v w : Bytes} (hv : ∀ c ∈ v, ok c = true)
    (hw : ∀ c, w.head? = some c → ok c = false) (u : Bytes) {turns : ℕ}
    (hturns : v.length ≤ turns) :
    scanWhile ok (u ++ v ++ w) turns u.length = some (u.length + v.length) := by
  induction v generalizing u turns with
  | nil =>
    cases turns with
    | zero => rfl
    | succ turns =>
      rw [scanWhile, List.append_nil]
      split_ifs with hlt
      · cases w with
        | nil => simp at hlt
        | cons c w => simp [hw c rfl]
      · rfl
  | cons c v ih =>
    obtain ⟨turns, rfl⟩ : ∃ n, turns = n + 1 := ⟨turns - 1, by simp at hturns; omega⟩
    have hrest := ih (fun d hd => hv d (List.mem_cons_of_mem _ hd)) (u ++ [c])
      (show v.length ≤ turns by simpa using hturns)
    have htext : u ++ [c] ++ v ++ w = u ++ (c :: v) ++ w := by simp
    have hget : (u ++ (c :: v) ++ w)[u.length]? = some c := by simp
    rw [htext, List.length_append, List.length_singleton] at hrest
    rw [scanWhile, if_pos (List.getElem?_eq_some_iff.mp hget).1, hget, Option.bind_some,
      if_pos (hv c List.mem_cons_self), hrest, List.length_cons]
    congr 1
    omega

def fence : Bytes := [96, 96, 96]

def jsonTag : Bytes := ascii "json"

def closeFence (trim : Bytes → Bytes) (trimmed : Bytes) (startIdx : ℕ) : Option Bytes :=
  (sliceOf trimmed startIdx trimmed.length).bind fun rest =>
    match indexOf fence rest with
    | none => some trimmed
    | some endIdx => (sliceOf trimmed startIdx (startIdx + endIdx)).map trim

def extractJSON (trim : Bytes → Bytes) (trimmed : Bytes) : Option Bytes :=
  match indexOf fence trimmed with
  | none => some trimmed
  | some idx =>
    if idx + 3 < trimmed.length then
      (sliceOf trimmed (idx + 3) (idx + 3 + 4)).bind fun tag =>
        closeFence trim trimmed (if tag = jsonTag then idx + 3 + 4 else idx + 3)
    else closeFence trim trimmed (idx + 3)

def CutShort (trimmed : Bytes) : Prop :=
  ∃ idx, indexOf fence trimmed = some idx ∧ idx + 3 < trimmed.length ∧ trimmed.length < idx + 3 + 4

structure Block (text pre tag body post : Bytes) : Prop where
  eq : text = pre ++ fence ++ (tag ++ (body ++ fence ++ post))
  first : indexOf fence text = some pre.length
  tagged : tag = jsonTag ∨ tag = [] ∧ ¬ jsonTag <+: body ++ fence ++ post
  next : indexOf fence (body ++ fence ++ post) = some body.length

variable (trim : Bytes → Bytes) {text pre tag body post : Bytes}

theorem length_of_indexOf {sub s : Bytes} {i : ℕ} (h : indexOf sub s = some i) :
    ∃ u v, s = u ++ sub ++ v ∧ u.length = i := by
  obtain ⟨⟨v, hv⟩, -⟩ := indexOf_spec h
  refine ⟨s.take i, v, ?_, ?_⟩
  · rw [List.append_assoc, hv, List.take_append_drop]
  · rw [List.length_take]
    have hlen := congrArg List.length hv
    rw [List.length_append, List.length_drop] at hlen
    by_contra hne
    -- an occurrence past the end is one at the end, which comes earlier
    have hnil : sub = [] := List.eq_nil_of_length_eq_zero (by omega)
    have hle := (indexOf_spec h).2 0 (by simp [hnil])
    omega

theorem closeFence_eq (u v : Bytes) : ∃ out, closeFence trim (u ++ v) u.length = some out ∧
    ∀ w, indexOf fence v = some w.length → w <+: v → out = trim w := by
  rw [closeFence, sliceOf_to_end, Option.bind_some]
  cases hfind : indexOf fence v with
  | none => exact ⟨_, rfl, fun w hw => by cases hw⟩
  | some k =>
    obtain ⟨w, rest, rfl, rfl⟩ := length_of_indexOf hfind
    have hslice := sliceOf_append u w (fence ++ rest)
    rw [List.append_assoc, ← List.append_assoc w] at hslice
    refine ⟨trim w, by simp only [hslice, Option.map_some], fun w' hlen hbegins => ?_⟩
    have hlen' : w.length = w'.length := Option.some.inj hlen
    have heq : w' = w :=
      (List.prefix_of_prefix_length_le hbegins (by simp) hlen'.ge).eq_of_length hlen'.symm
    rw [heq]

theorem extractJSON_eq {v : Bytes} (hfirst : indexOf fence (pre ++ fence ++ v) = some pre.length)
    (hlong : v = [] ∨ 4 ≤ v.length) : ∃ tag w out, v = tag ++ w ∧
      (tag = jsonTag ∨ tag = [] ∧ ¬ jsonTag <+: w) ∧
      extractJSON trim (pre ++ fence ++ v) = some out ∧
      ∀ body, indexOf fence w = some body.length → body <+: w → out = trim body := by
  have hfence : (pre ++ fence).length = pre.length + 3 := by simp [fence]
  by_cases htag : jsonTag <+: v
  · obtain ⟨w, rfl⟩ := htag
    obtain ⟨out, hout, hbody⟩ := closeFence_eq trim (pre ++ fence ++ jsonTag) w
    have hslice := sliceOf_append (pre ++ fence) jsonTag w
    have hstart : (pre ++ fence ++ jsonTag).length = pre.length + 3 + 4 := by simp [fence, jsonTag, ascii]
    have hlt : pre.length + 3 < (pre ++ fence ++ (jsonTag ++ w)).length := by
      simp [fence, jsonTag, ascii]
    rw [hfence, List.append_assoc (pre ++ fence)] at hslice
    rw [hstart, List.append_assoc (pre ++ fence)] at hout
    refine ⟨jsonTag, w, out, rfl, .inl rfl, ?_, hbody⟩
    have htaglen : jsonTag.length = 4 := rfl
    rw [htaglen] at hslice
    simpa only [extractJSON, hfirst, if_pos hlt, hslice, Option.bind_some, if_true] using hout
  · obtain ⟨out, hout, hbody⟩ := closeFence_eq trim (pre ++ fence) v
    rw [hfence] at hout
    refine ⟨[], v, out, rfl, .inr ⟨rfl, htag⟩, ?_, hbody⟩
    rcases hlong with rfl | hlong
    · have hlt : ¬ pre.length + 3 < (pre ++ fence ++ []).length := by simp [fence]
      simpa only [extractJSON, hfirst, if_neg hlt] using hout
    · have hslice := sliceOf_append (pre ++ fence) (v.take 4) (v.drop 4)
      have hlt : pre.length + 3 < (pre ++ fence ++ v).length := by
        simp [fence]
        omega
      rw [hfence, List.length_take_of_le hlong, List.append_assoc (pre ++ fence),
        List.take_append_drop] at hslice
      have hne : v.take 4 ≠ jsonTag := fun heq => htag (heq ▸ List.take_prefix 4 v)
      simpa only [extractJSON, hfirst, if_pos hlt, hslice, Option.bind_some, if_neg hne] using hout

theorem extractJSON_eq_none_iff (text : Bytes) :
    extractJSON trim text = none ↔ CutShort text := by
  cases hfind : indexOf fence text with
  | none => simp [extractJSON, CutShort, hfind]
  | some idx =>
    obtain ⟨pre, v, rfl, rfl⟩ := length_of_indexOf hfind
    have hlen : (pre ++ fence ++ v).length = pre.length + 3 + v.length := by simp [fence]; omega
    by_cases hlong : v = [] ∨ 4 ≤ v.length
    · obtain ⟨-, -, out, -, -, hout, -⟩ := extractJSON_eq trim hfind hlong
      refine iff_of_false (fun hnone => by rw [hnone] at hout; cases hout) ?_
      rintro ⟨idx, hidx, hlt, hshort⟩
      obtain rfl := Option.some.inj (hfind.symm.trans hidx)
      rcases hlong with rfl | hlong
      · simp [fence] at hlt
      · omega
    · rw [not_or] at hlong
      have hpos := List.length_pos_of_ne_nil hlong.1
      refine iff_of_true ?_ ⟨_, hfind, by omega, by omega⟩
      have hslice : sliceOf (pre ++ fence ++ v) (pre.length + 3) (pre.length + 3 + 4) = none :=
        if_neg (by omega)
      have hlt : pre.length + 3 < (pre ++ fence ++ v).length := by omega
      simp only [extractJSON, hfind, if_pos hlt, hslice, Option.bind_none]

theorem extractJSON_block (h : Block text pre tag body post) :
    extractJSON trim text = some (trim body) ↔ ¬(tag = [] ∧ body = [] ∧ post = []) := by
  have hfirst := h.first
  rw [h.eq] at hfirst ⊢
  have hlen : (tag ++ (body ++ fence ++ post)).length =
      tag.length + (body.length + 3 + post.length) := by simp [fence]; omega
  constructor
  · rintro hout ⟨rfl, rfl, rfl⟩
    have hnone := (extractJSON_eq_none_iff trim _).mpr ⟨_, hfirst, by simp [fence], by simp [fence]⟩
    rw [hnone] at hout
    cases hout
  · intro hne
    have hlong : 4 ≤ (tag ++ (body ++ fence ++ post)).length := by
      by_contra hshort
      exact hne ⟨List.eq_nil_of_length_eq_zero (by omega),
        List.eq_nil_of_length_eq_zero (by omega), List.eq_nil_of_length_eq_zero (by omega)⟩
    obtain ⟨tag', w, out, hsplit, htag', hout, hbody⟩ :=
      extractJSON_eq trim hfirst (.inr hlong)
    -- both tags are the one that the text has
    have hw : w = body ++ fence ++ post := by
      rcases htag' with rfl | ⟨rfl, hno'⟩ <;> rcases h.tagged with rfl | ⟨rfl, hno⟩
      · exact (List.append_cancel_left hsplit).symm
      · exact absurd ⟨w, by simpa using hsplit.symm⟩ hno
      · exact absurd ⟨_, by simpa using hsplit⟩ hno'
      · simpa using hsplit.symm
    subst hw
    rw [hout, hbody body h.next (by simp)]

def isGap (c : UInt8) : Bool := c = 32 || c = 58

def truncateKey (key cleaned : Bytes) : Option Bytes :=
  match indexOf key cleaned with
  | none => some cleaned
  | some idx =>
    (scanWhile isGap cleaned cleaned.length (idx + key.length)).bind fun vStart =>
      (scanWhile isDecimal cleaned cleaned.length vStart).bind fun vEnd =>
        if vEnd - vStart > 2 then
          (sliceOf cleaned 0 vStart).bind fun before =>
            (sliceOf cleaned vStart (vStart + 2)).bind fun two =>
              (sliceOf cleaned vEnd cleaned.length).map fun after => before ++ two ++ after
        else some cleaned

def connectionsKey : Bytes := 34 :: (ascii "connections_limit" ++ [34, 58])

def timeoutKey : Bytes := 34 :: (ascii "peer_timeout_seconds" ++ [34, 58])

def truncateNumbers (trimmed : Bytes) : Option Bytes :=
  (truncateKey connectionsKey trimmed).bind (truncateKey timeoutKey)

def Truncates (key s s' : Bytes) : Prop :=
  indexOf key s = none ∧ s' = s ∨
    ∃ u gap digits rest, s = u ++ key ++ gap ++ digits ++ rest ∧
      indexOf key s = some u.length ∧ (∀ c ∈ gap, isGap c = true) ∧
      (∀ c ∈ digits, isDecimal c = true) ∧ (∀ c, rest.head? = some c → isDecimal c = false) ∧
      s' = u ++ key ++ gap ++ digits.take 2 ++ rest

theorem exists_span (ok : UInt8 → Bool) (s : Bytes) : ∃ v w, s = v ++ w ∧
    (∀ c ∈ v, ok c = true) ∧ ∀ c, w.head? = some c → ok c = false := by
  refine ⟨s.takeWhile ok, s.dropWhile ok, List.takeWhile_append_dropWhile.symm,
    fun c hc => List.mem_takeWhile_imp hc, fun c hc => ?_⟩
  have hnot := List.head?_dropWhile_not ok s
  rw [hc] at hnot
  simpa using hnot

theorem truncateKey_eq (key s : Bytes) : ∃ s', truncateKey key s = some s' ∧ Truncates key s s' := by
  cases hfind : indexOf key s with
  | none => exact ⟨s, by simp only [truncateKey, hfind], .inl ⟨hfind, rfl⟩⟩
  | some idx =>
    obtain ⟨u, v, hs, rfl⟩ := length_of_indexOf hfind
    obtain ⟨gap, w, rfl, hgap, hw⟩ := exists_span isGap v
    obtain ⟨digits, rest, rfl, hdigits, hrest⟩ := exists_span isDecimal w
    have hgapScan := scanWhile_append hgap hw (u ++ key) (show gap.length ≤ s.length by
      rw [hs]; simp only [List.length_append]; omega)
    have hdigitScan := scanWhile_append hdigits hrest (u ++ key ++ gap)
      (show digits.length ≤ s.length by rw [hs]; simp only [List.length_append]; omega)
    have hsplit : s = u ++ key ++ gap ++ digits ++ rest := by rw [hs]; simp
    have hsplit' : s = u ++ key ++ gap ++ (digits ++ rest) := by rw [hs]; simp
    rw [← hsplit', List.length_append] at hgapScan
    rw [← hsplit, List.length_append, List.length_append] at hdigitScan
    by_cases hlong : 2 < digits.length
    · have hbefore := sliceOf_append [] (u ++ key ++ gap) (digits ++ rest)
      have htwo := sliceOf_append (u ++ key ++ gap) (digits.take 2) (digits.drop 2 ++ rest)
      have hafter := sliceOf_to_end (u ++ key ++ gap ++ digits) rest
      rw [List.nil_append, List.length_nil, Nat.zero_add, ← hsplit'] at hbefore
      rw [List.append_assoc (u ++ key ++ gap), ← List.append_assoc (digits.take 2),
        List.take_append_drop, ← hsplit', List.length_take_of_le (by omega)] at htwo
      rw [← hsplit] at hafter
      simp only [List.length_append] at hbefore htwo hafter
      refine ⟨u ++ key ++ gap ++ digits.take 2 ++ rest, ?_,
        .inr ⟨u, gap, digits, rest, hsplit, hfind, hgap, hdigits, hrest, rfl⟩⟩
      have hcount : u.length + key.length + gap.length + digits.length -
          (u.length + key.length + gap.length) > 2 := by omega
      simp only [truncateKey, hfind, hgapScan, hdigitScan, Option.bind_some, if_pos hcount, hbefore,
        htwo, hafter, Option.map_some]
    · refine ⟨s, ?_, .inr ⟨u, gap, digits, rest, hsplit, hfind, hgap, hdigits, hrest, ?_⟩⟩
      · have hcount : ¬ u.length + key.length + gap.length + digits.length -
            (u.length + key.length + gap.length) > 2 := by omega
        simp only [truncateKey, hfind, hgapScan, hdigitScan, Option.bind_some, if_neg hcount]
      · rw [List.take_of_length_le (by omega)]
        exact hsplit

/-- When an extraction stops the process. -/
theorem replies_safe_iff (trim : Bytes → Bytes) :
    (∀ text, extractJSON trim text = none ↔ CutShort text) ∧
      (∀ text pre tag body post, Block text pre tag body post →
        (extractJSON trim text = some (trim body) ↔ ¬(tag = [] ∧ body = [] ∧ post = []))) ∧
      ∀ text, ∃ mid out, truncateNumbers text = some out ∧
        Truncates connectionsKey text mid ∧ Truncates timeoutKey mid out := by
  refine ⟨extractJSON_eq_none_iff trim, fun _ _ _ _ _ h => extractJSON_block trim h, fun text => ?_⟩
  obtain ⟨mid, hmid, hfirst⟩ := truncateKey_eq connectionsKey text
  obtain ⟨out, hout, hsecond⟩ := truncateKey_eq timeoutKey mid
  exact ⟨mid, out, by rw [truncateNumbers, hmid, Option.bind_some, hout], hfirst, hsecond⟩

theorem short_fence_stops :
    extractJSON trimSpace (fence ++ ascii "x") = none ∧
      extractJSON trimSpace (fence ++ fence) = none ∧ Block (fence ++ fence) [] [] [] [] :=
  ⟨by decide, by decide, ⟨rfl, by decide, .inr ⟨rfl, by decide⟩, by decide⟩⟩

end GoStream.Ai
