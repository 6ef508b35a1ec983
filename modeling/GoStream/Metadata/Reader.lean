import GoStream.Foundations.Json
import GoStream.Foundations.Regex

/-!
# Reading a stub
-/

namespace GoStream.Metadata

open Foundations Regex

structure FileMetadata where
  url : Bytes
  size : Int64
  imdbID : Bytes
  deriving DecidableEq

inductive ReadError
  | parseJSON
  | invalidURL
  | invalidSize (got : Int64)
  | invalidFormat
  | parseSize
  deriving DecidableEq

def minFileSize : Int64 := 104857600

def maxFileSize : Int64 := 107374182400

def isHTTP (url : Bytes) : Bool :=
  (ascii "http://").isPrefixOf url || (ascii "https://").isPrefixOf url

def reID : Regex := inOrder [lit (ascii "tt"), times 7 digit, upTo 3 digit]

def findID (s : Bytes) : Bytes :=
  match (Regex.group 0 reID).submatch s with
  | some k => (k.lookup 0).getD []
  | none => []

structure MkvJSON where
  url : Bytes
  size : Int64
  magnet : Bytes
  imdb : Bytes

def isKey (name key : Bytes) : Bool := ((fold name).ends ⟨[], key⟩).any fun x => x.1.rest.isEmpty

def decodeString (old : Bytes) : Json → Option Bytes
  | .str s => some s
  | .null => some old
  | _ => none

def decodeInt (old : Int64) : Json → Option Int64
  | .num literal => parseInt literal
  | .null => some old
  | _ => none

def MkvJSON.decode (j : MkvJSON) (m : Bytes × Json) : Option MkvJSON :=
  if isKey (ascii "url") m.1 then (decodeString j.url m.2).map fun s => { j with url := s }
  else if isKey (ascii "size") m.1 then (decodeInt j.size m.2).map fun n => { j with size := n }
  else if isKey (ascii "magnet") m.1 then
    (decodeString j.magnet m.2).map fun s => { j with magnet := s }
  else if isKey (ascii "imdb") m.1 then (decodeString j.imdb m.2).map fun s => { j with imdb := s }
  else some j

def unmarshal (content : Bytes) : Option MkvJSON :=
  match Json.parse content with
  | some (.obj members) => members.foldlM MkvJSON.decode ⟨[], 0, [], []⟩
  | _ => none

def validate (url : Bytes) (size : Int64) (id content : Bytes) : Except ReadError FileMetadata :=
  if isHTTP url = false then .error .invalidURL
  else if size < minFileSize ∨ maxFileSize < size then .error (.invalidSize size)
  else .ok ⟨url, size, if id = [] then findID content else id⟩

def parseJSONFormat (content : Bytes) : Except ReadError FileMetadata :=
  match unmarshal content with
  | none => .error .parseJSON
  | some j => validate (trimSpace j.url) j.size j.imdb content

def splitLines (content : Bytes) : List Bytes := splitN 10 (content.length + 1) content

def lineID (lines : List Bytes) : Bytes :=
  match lines[3]? with
  | some line => if (ascii "tt").isPrefixOf (trimSpace line) then trimSpace line else []
  | none => []

def parseLineFormat (content : Bytes) : Except ReadError FileMetadata :=
  let lines := splitLines content
  match lines with
  | first :: second :: _ =>
    if isHTTP (trimSpace first) = false then .error .invalidURL
    else
      match parseInt (trimSpace second) with
      | none => .error .parseSize
      | some size => validate (trimSpace first) size (lineID lines) content
  | _ => .error .invalidFormat

def readMetadata (data : Bytes) : Except ReadError FileMetadata :=
  if ([123] : Bytes).isPrefixOf (trimSpace data) then parseJSONFormat (trimSpace data)
  else parseLineFormat data

def stubMembers (url : Bytes) (size : Int64) (magnet imdb : Bytes) : List (Bytes × Json) :=
  [(ascii "url", .str url), (ascii "size", .num (itoa size.toInt)), (ascii "magnet", .str magnet),
    (ascii "imdb", .str imdb)]

section Fields

variable {url magnet imdb : Bytes} {size : Int64} {members : List (Bytes × Json)}

def setIf {α : Type} (key name : Bytes) (new old : α) : α := if key = name then new else old

theorem decode_member {m : Bytes × Json} (hm : m ∈ stubMembers url size magnet imdb) (j : MkvJSON) :
    j.decode m = some
      ⟨setIf m.1 (ascii "url") url j.url, setIf m.1 (ascii "size") size j.size,
        setIf m.1 (ascii "magnet") magnet j.magnet, setIf m.1 (ascii "imdb") imdb j.imdb⟩ := by
  simp only [stubMembers, List.mem_cons, List.not_mem_nil, or_false] at hm
  rcases hm with rfl | rfl | rfl | rfl
  · rfl
  · have hurl : isKey (ascii "url") (ascii "size") = false := by decide
    have hsize : isKey (ascii "size") (ascii "size") = true := by decide
    rw [MkvJSON.decode, if_neg (by simp [hurl]), if_pos hsize, decodeInt, parseInt_itoa]
    rfl
  · have hurl : isKey (ascii "url") (ascii "magnet") = false := by decide
    have hsize : isKey (ascii "size") (ascii "magnet") = false := by decide
    have hmagnet : isKey (ascii "magnet") (ascii "magnet") = true := by decide
    rw [MkvJSON.decode, if_neg (by simp [hurl]), if_neg (by simp [hsize]), if_pos hmagnet]
    rfl
  · rfl

theorem decode_stable {m m' : Bytes × Json} (hm : m ∈ stubMembers url size magnet imdb)
    (hm' : m' ∈ stubMembers url size magnet imdb) {j j' : MkvJSON} (hj : j.decode m = some j')
    (hset : m' = m ∨ j.decode m' = some j) : j'.decode m' = some j' := by
  rw [decode_member hm] at hj
  obtain rfl := Option.some.inj hj
  rw [decode_member hm'] at hset ⊢
  simp only [Option.some.injEq, MkvJSON.mk.injEq, setIf] at hset ⊢
  refine ⟨?_, ?_, ?_, ?_⟩ <;> grind

theorem foldlM_decode (hmembers : ∀ m ∈ members, m ∈ stubMembers url size magnet imdb) (j : MkvJSON)
    (hj : ∀ m ∈ stubMembers url size magnet imdb, m ∈ members ∨ j.decode m = some j) :
    members.foldlM MkvJSON.decode j = some ⟨url, size, magnet, imdb⟩ := by
  induction members generalizing j with
  | nil =>
    have hset : ∀ m ∈ stubMembers url size magnet imdb, j.decode m = some j :=
      fun m hm => (hj m hm).resolve_left List.not_mem_nil
    obtain ⟨u, n, t, i⟩ := j
    have hfield : ∀ m, m ∈ stubMembers url size magnet imdb →
        MkvJSON.mk (setIf m.1 (ascii "url") url u) (setIf m.1 (ascii "size") size n)
          (setIf m.1 (ascii "magnet") magnet t) (setIf m.1 (ascii "imdb") imdb i) = ⟨u, n, t, i⟩ :=
      fun m hm => Option.some.inj ((decode_member hm _).symm.trans (hset m hm))
    simp only [stubMembers, List.forall_mem_cons] at hfield
    obtain ⟨hurl, hsize, hmagnet, himdb, -⟩ := hfield
    obtain rfl : url = u := congrArg MkvJSON.url hurl
    obtain rfl : size = n := congrArg MkvJSON.size hsize
    obtain rfl : magnet = t := congrArg MkvJSON.magnet hmagnet
    obtain rfl : imdb = i := congrArg MkvJSON.imdb himdb
    rfl
  | cons m members ih =>
    have hm := hmembers m List.mem_cons_self
    rw [List.foldlM_cons, decode_member hm]
    apply ih (fun m' hm' => hmembers m' (List.mem_cons_of_mem _ hm'))
    intro m' hm'
    rcases hj m' hm' with hmem | hset
    · rcases List.mem_cons.mp hmem with heq | hmem
      · exact .inr (decode_stable hm hm' (decode_member hm j) (.inl heq))
      · exact .inl hmem
    · exact .inr (decode_stable hm hm' (decode_member hm j) (.inr hset))

def HasMembers (v : Option Json) (url : Bytes) (size : Int64) (magnet imdb : Bytes) : Prop :=
  ∃ members, v = some (.obj members) ∧ ∀ m, m ∈ members ↔ m ∈ stubMembers url size magnet imdb

theorem unmarshal_eq {content : Bytes} (h : HasMembers (Json.parse content) url size magnet imdb) :
    unmarshal content = some ⟨url, size, magnet, imdb⟩ := by
  obtain ⟨members, hparse, hmem⟩ := h
  rw [unmarshal, hparse]
  exact foldlM_decode (fun m hm => (hmem m).mp hm) _ fun m hm => .inl ((hmem m).mpr hm)

theorem readMetadata_json (data : Bytes) (hbrace : ([123] : Bytes).isPrefixOf (trimSpace data) = true)
    (h : HasMembers (Json.parse (trimSpace data)) url size magnet imdb) :
    readMetadata data = validate (trimSpace url) size imdb (trimSpace data) := by
  rw [readMetadata, if_pos hbrace, parseJSONFormat, unmarshal_eq h]

def stubLines (url : Bytes) (size : Int64) (magnet imdb : Bytes) : Bytes :=
  url ++ 10 :: (itoa size.toInt ++ 10 :: (magnet ++ 10 :: imdb))

theorem newline_not_mem_itoa (n : ℤ) : 10 ∉ itoa n := not_mem_of_all (all_isNumeral_itoa n) rfl

theorem trimmed_itoa (n : ℤ) : Trimmed (itoa n) := by
  have hblank : ∀ c, isNumeral c = true → isBlank c = false := by
    intro c hc
    simp only [isNumeral, isDecimal, Bool.or_eq_true, Bool.and_eq_true, decide_eq_true_eq] at hc
    rcases hc with rfl | ⟨hlow, -⟩
    · rfl
    · simp only [isBlank, Bool.or_eq_false_iff, Bool.and_eq_false_iff, decide_eq_false_iff_not]
      refine ⟨?_, .inr fun hle => absurd (UInt8.le_trans hlow hle) (by decide)⟩
      rintro rfl
      exact absurd hlow (by decide)
  have hall := List.all_eq_true.mp (all_isNumeral_itoa n)
  exact ⟨fun c hc => hblank c (hall c (List.mem_of_head? hc)),
    fun c hc => hblank c (hall c (List.mem_of_getLast? hc))⟩

theorem head_of_isHTTP (h : isHTTP url = true) : url.head? = some 104 := by
  rw [isHTTP, Bool.or_eq_true, List.isPrefixOf_iff_prefix, List.isPrefixOf_iff_prefix] at h
  rcases h with ⟨v, rfl⟩ | ⟨v, rfl⟩
  · rfl
  · rfl

structure FitsLines (url magnet imdb : Bytes) : Prop where
  http : isHTTP url = true
  trimmed_url : Trimmed url
  trimmed_magnet : Trimmed magnet
  trimmed_imdb : Trimmed imdb
  magnet_ne : magnet ≠ []
  newline : 10 ∉ url ∧ 10 ∉ magnet ∧ 10 ∉ imdb

theorem FitsLines.url_ne (h : FitsLines url magnet imdb) : url ≠ [] := by
  rintro rfl
  cases head_of_isHTTP h.http

theorem trimSpace_stubLines (h : FitsLines url magnet imdb) {tail : Bytes} (htail : tail.all isBlank = true) :
    trimSpace (stubLines url size magnet imdb ++ tail) =
      if imdb = [] then url ++ 10 :: (itoa size.toInt ++ 10 :: magnet)
      else stubLines url size magnet imdb := by
  split_ifs with himdb
  · subst himdb
    have heq : stubLines url size magnet [] ++ tail =
        (url ++ (10 :: (itoa size.toInt ++ [10])) ++ magnet) ++ 10 :: tail := by simp [stubLines]
    have htrim := h.trimmed_url.append h.trimmed_magnet h.url_ne h.magnet_ne (10 :: (itoa size.toInt ++ [10]))
    rw [heq, trimSpace_append htrim (by simp [h.url_ne]) (by rw [List.all_cons, htail]; rfl)]
    simp
  · have heq : stubLines url size magnet imdb =
        url ++ (10 :: (itoa size.toInt ++ 10 :: (magnet ++ [10]))) ++ imdb := by simp [stubLines]
    have htrim := h.trimmed_url.append h.trimmed_imdb h.url_ne himdb (10 :: (itoa size.toInt ++ 10 :: (magnet ++ [10])))
    rw [heq]
    exact trimSpace_append htrim (by simp [h.url_ne]) htail

theorem splitN_stubLines (h : FitsLines url magnet imdb) (n : ℕ) (rest : Bytes) :
    splitN 10 (n + 4) (stubLines url size magnet imdb ++ rest) =
      url :: itoa size.toInt :: magnet :: splitN 10 (n + 1) (imdb ++ rest) := by
  have heq : stubLines url size magnet imdb ++ rest =
      url ++ 10 :: (itoa size.toInt ++ 10 :: (magnet ++ 10 :: (imdb ++ rest))) := by simp [stubLines]
  rw [heq, splitN_append h.newline.1, splitN_append (newline_not_mem_itoa _),
    splitN_append h.newline.2.1]

theorem not_brace_of_isHTTP (h : isHTTP url = true) (rest : Bytes) :
    ([123] : Bytes).isPrefixOf (url ++ rest) = false := by
  cases url with
  | nil => cases head_of_isHTTP h
  | cons c url =>
    obtain rfl := Option.some.inj (head_of_isHTTP h)
    rfl

theorem not_brace_stubLines (h : FitsLines url magnet imdb) {tail : Bytes} (htail : tail.all isBlank = true) :
    ([123] : Bytes).isPrefixOf (trimSpace (stubLines url size magnet imdb ++ tail)) = false := by
  rw [trimSpace_stubLines h htail]
  split_ifs
  · exact not_brace_of_isHTTP h.http _
  · exact not_brace_of_isHTTP h.http _

theorem head_splitN_append (himdb : 10 ∉ imdb) {tail : Bytes} (htail : tail = [] ∨ tail = [10]) (n : ℕ) :
    (splitN 10 (n + 2) (imdb ++ tail))[0]? = some imdb := by
  rcases htail with rfl | rfl
  · rw [List.append_nil, splitN_of_not_mem himdb]
    rfl
  · rw [splitN_append himdb]
    rfl

theorem readMetadata_lines (h : FitsLines url magnet imdb) {tail : Bytes}
    (htail : tail = [] ∨ tail = [10]) :
    readMetadata (stubLines url size magnet imdb ++ tail) =
      validate url size (if (ascii "tt").isPrefixOf imdb then imdb else [])
        (stubLines url size magnet imdb ++ tail) := by
  have hblank : tail.all isBlank = true := by rcases htail with rfl | rfl <;> rfl
  obtain ⟨n, hn⟩ : ∃ n, (stubLines url size magnet imdb ++ tail).length + 1 = n + 5 := by
    have hurl := List.length_pos_iff.mpr h.url_ne
    refine ⟨(stubLines url size magnet imdb ++ tail).length - 4, ?_⟩
    simp only [stubLines, List.length_append, List.length_cons]
    omega
  have hlines : splitLines (stubLines url size magnet imdb ++ tail) =
      url :: itoa size.toInt :: magnet :: splitN 10 (n + 2) (imdb ++ tail) := by
    rw [splitLines, hn, splitN_stubLines h]
  have hid : lineID (url :: itoa size.toInt :: magnet :: splitN 10 (n + 2) (imdb ++ tail)) =
      if (ascii "tt").isPrefixOf imdb then imdb else [] := by
    have hget : (url :: itoa size.toInt :: magnet :: splitN 10 (n + 2) (imdb ++ tail))[3]? = some imdb :=
      head_splitN_append h.newline.2.2 htail n
    rw [lineID, hget]
    simp only [h.trimmed_imdb.trimSpace_eq]
  rw [readMetadata, if_neg (by rw [not_brace_stubLines h hblank]; simp), parseLineFormat, hlines]
  simp only [h.trimmed_url.trimSpace_eq, h.http, (trimmed_itoa size.toInt).trimSpace_eq, parseInt_itoa,
    hid, Bool.true_eq_false, if_false]

end Fields

section FirstID

variable {s : Bytes} {k : Captures}

def firstID (s t : Bytes) : Bytes := if findID s = [] then findID t else findID s

theorem captures_reID (h : (Regex.group 0 reID).submatch s = some k) :
    116 ∈ s ∧ ∃ t, t ≠ [] ∧ k.lookup 0 = some t := by
  obtain ⟨pre, t, u, rfl, k', rfl, hmatch⟩ := matches_of_submatchFrom h
  obtain ⟨t', rfl, -⟩ := (matches_lit_seq (ascii "tt")).mp hmatch
  have hmem : 116 ∈ ascii "tt" := by decide
  exact ⟨by simp [hmem], _, by simp [List.ne_nil_of_mem hmem], rfl⟩

theorem findID_eq_nil_iff : findID s = [] ↔ (Regex.group 0 reID).submatch s = none := by
  unfold findID
  cases h : (Regex.group 0 reID).submatch s with
  | none => simp
  | some k =>
    obtain ⟨-, t, hne, hlookup⟩ := captures_reID h
    simp [hlookup, hne]

theorem findID_of_not_mem (hs : 116 ∉ s) : findID s = [] := by
  rw [findID_eq_nil_iff]
  cases h : (Regex.group 0 reID).submatch s with
  | none => rfl
  | some k => exact absurd (captures_reID h).1 hs

def separates (c : UInt8) : Bool := (Regex.group 0 reID).avoids c

variable {c : UInt8}

theorem findID_append (hc : separates c = true) (u v : Bytes) :
    findID (u ++ c :: v) = firstID u v := by
  have hsub := submatch_append hc u v
  rw [firstID]
  cases hu : (Regex.group 0 reID).submatch u with
  | none =>
    rw [if_pos (findID_eq_nil_iff.mpr hu), findID, hsub, hu, Option.none_or, findID]
  | some k =>
    have hne : findID u ≠ [] := by simp [findID_eq_nil_iff, hu]
    rw [if_neg hne, findID, hsub, hu, Option.some_or, findID, hu]

theorem findID_skip (hc : separates c = true) {u : Bytes} (hu : findID u = []) (v : Bytes) :
    findID (u ++ c :: v) = findID v := by
  rw [findID_append hc, firstID, if_pos hu]

theorem findID_stop (hc : separates c = true) (u : Bytes) {v : Bytes} (hv : findID v = []) :
    findID (u ++ c :: v) = findID u := by
  rw [findID_append hc, firstID, hv]
  split_ifs with hu
  · exact hu.symm
  · rfl

theorem separates_of_isBlank (hc : isBlank c = true) : separates c = true := by
  have hle : c ≤ 32 := by
    simp only [isBlank, Bool.or_eq_true, Bool.and_eq_true, decide_eq_true_eq] at hc
    rcases hc with rfl | ⟨-, hle⟩
    · decide
    · exact UInt8.le_trans hle (by decide)
  have hletter : c ≠ 116 := by
    rintro rfl
    exact absurd hle (by decide)
  have hdigit : isDecimal c = false := by
    rw [isDecimal, Bool.and_eq_false_iff, decide_eq_false_iff_not]
    exact .inl fun hlow => absurd (UInt8.le_trans hlow hle) (by decide)
  have hbyte : byteOf 't' = 116 := rfl
  simp [separates, reID, inOrder, avoids, lit, ascii, times, upTo, opt, digit, cls, hdigit, hbyte,
    hletter.symm]

theorem findID_trimSpace (s : Bytes) : findID (trimSpace s) = findID s := by
  have hfront : ∀ s : Bytes, findID (s.dropWhile isBlank) = findID s := by
    intro s
    induction s with
    | nil => rfl
    | cons c s ih =>
      by_cases hc : isBlank c = true
      · rw [List.dropWhile_cons_of_pos hc, ih]
        exact (findID_skip (u := []) (separates_of_isBlank hc) rfl s).symm
      · rw [List.dropWhile_cons_of_neg hc]
  have hback : ∀ s : Bytes, findID (s.reverse.dropWhile isBlank).reverse = findID s := by
    intro s
    induction s using List.reverseRecOn with
    | nil => rfl
    | append_singleton s c ih =>
      rw [List.reverse_append, List.reverse_singleton, List.singleton_append]
      by_cases hc : isBlank c = true
      · rw [List.dropWhile_cons_of_pos hc, ih]
        exact (findID_stop (separates_of_isBlank hc) s rfl).symm
      · rw [List.dropWhile_cons_of_neg hc, List.reverse_cons, List.reverse_reverse]
  rw [trimSpace, hback, hfront]

end FirstID

end GoStream.Metadata
