import GoStream.Engines.Readable

/-!
# Rehydration
-/

namespace GoStream.Engines

open Foundations Regex Inodes AutoRemove Quality Metadata

structure StubParts where
  url : Bytes
  magnet : Bytes
  size : ℚ

def numberField (v : Json) (key : Bytes) : ℚ :=
  match v.field key with
  | some (.num literal) => (Float64.parseFloat literal).getD 0
  | _ => 0

def stubParts (data : Bytes) : Option StubParts :=
  if ([123] : Bytes).isPrefixOf (trimSpace data) then
    (Json.parse data).map fun obj =>
      ⟨obj.stringField (ascii "url"), obj.stringField (ascii "magnet"), numberField obj (ascii "size")⟩
  else
    match splitN 10 4 (trimSpace data) with
    | url :: size :: magnet :: _ =>
      some ⟨trimSpace url, trimSpace magnet, (Float64.parseFloat (trimSpace size)).getD 0⟩
    | _ => none

def linkHash (url : Bytes) : Option Bytes := (reTVHashURL.submatch url).map (groupText · 1)

def rehydrated (path hash : Bytes) (p : StubParts) : Bytes :=
  stubContent p.url (Int64.ofInt (truncate p.size))
    (buildMagnet hash (titleFromFilename (filepathBase path)) defaultTrackers) []

def missingHash (active : List Bytes) (p : StubParts) : Option Bytes :=
  (linkHash p.url).filter fun hash =>
    !active.contains hash && (ascii "magnet:?").isPrefixOf p.magnet

def rehydrateFile (marks : Bool) (answer : Bytes → Option Write) (acc : List Bytes × Files)
    (f : Bytes × Bytes) : List Bytes × Files :=
  match stubParts f.2 with
  | none => acc
  | some p =>
    match missingHash acc.1 p, answer f.1 with
    | some hash, some write =>
      (if marks then hash :: acc.1 else acc.1, (createMKV acc.2 f.1 (rehydrated f.1 hash p) write).1)
    | _, _ => acc

def rehydrate (marks : Bool) (stubs : List (Bytes × Bytes)) (listed : Option (List TorrentStats))
    (answer : Bytes → Option Write) (files : Files) : Files :=
  match listed with
  | none => files
  | some torrents =>
    (stubs.foldl (rehydrateFile marks answer) (torrents.map TorrentStats.hash, files)).2

def MovieConfig.rehydrateMissingTorrents (c : MovieConfig) (order : MapOrder)
    (listed : Option (List TorrentStats)) (answer : Bytes → Option Write) (files : Files) : Files :=
  rehydrate false (c.walk order files) listed answer files

def TVConfig.rehydrateMissingTorrents (c : TVConfig) (order : MapOrder)
    (listed : Option (List TorrentStats)) (answer : Bytes → Option Write) (files : Files) : Files :=
  rehydrate true (c.walk order files) listed answer files

structure StubFields where
  url : Bytes
  size : Int64
  magnet : Bytes
  imdb : Bytes
  http : isHTTP url = true
  trimmed : Trimmed url
  exact : |size.toInt| < 2 ^ 53

inductive StubFields.In (x : StubFields) : Bytes → Prop
  | json (data : Bytes) (hbrace : ([123] : Bytes).isPrefixOf (trimSpace data) = true)
      (hdata : HasMembers (Json.parse data) x.url x.size x.magnet x.imdb)
      (htrim : HasMembers (Json.parse (trimSpace data)) x.url x.size x.magnet x.imdb) : In x data
  | lines (h : FitsLines x.url x.magnet x.imdb) (tail : Bytes) (htail : tail = [] ∨ tail = [10]) :
      In x (stubLines x.url x.size x.magnet x.imdb ++ tail)

section Fields

variable {x : StubFields} {data : Bytes}

theorem field_of_hasMembers {v : Json} {url magnet imdb : Bytes} {size : Int64}
    (h : HasMembers (some v) url size magnet imdb) {m : Bytes × Json}
    (hm : m ∈ stubMembers url size magnet imdb) : v.field m.1 = some m.2 := by
  obtain ⟨members, hv, hmem⟩ := h
  obtain rfl := Option.some.inj hv
  have hkeys : ((stubMembers url size magnet imdb).map Prod.fst).Nodup := by
    show [ascii "url", ascii "size", ascii "magnet", ascii "imdb"].Nodup
    decide
  rw [Json.field]
  cases hfind : members.reverse.find? fun m' => m'.1 = m.1 with
  | none =>
    have hno := List.find?_eq_none.mp hfind m (List.mem_reverse.mpr ((hmem m).mpr hm))
    simp at hno
  | some m' =>
    have hkey : m'.1 = m.1 := by simpa using List.find?_some hfind
    have hmem' := (hmem m').mp (List.mem_reverse.mp (List.mem_of_find?_eq_some hfind))
    rw [Option.map_some, List.inj_on_of_nodup_map hkeys hmem' hm hkey]

theorem splitN_trimSpace_stubLines (h : FitsLines x.url x.magnet x.imdb) {tail : Bytes}
    (htail : tail = [] ∨ tail = [10]) :
    splitN 10 4 (trimSpace (stubLines x.url x.size x.magnet x.imdb ++ tail)) =
      x.url :: itoa x.size.toInt :: x.magnet :: if x.imdb = [] then [] else [x.imdb] := by
  have hblank : tail.all isBlank = true := by rcases htail with rfl | rfl <;> rfl
  rw [trimSpace_stubLines h hblank]
  split_ifs with himdb
  · rw [splitN_append h.newline.1, splitN_append (newline_not_mem_itoa _),
      splitN_of_not_mem h.newline.2.1]
  · have hsplit : splitN 10 (0 + 4) (stubLines x.url x.size x.magnet x.imdb ++ []) = _ :=
      splitN_stubLines h 0 []
    rwa [List.append_nil, List.append_nil] at hsplit

theorem imdbOf_of_in (h : x.In data) : imdbOf data = x.imdb := by
  cases h with
  | json data hbrace hdata htrim =>
    obtain ⟨members, hparse, hmem⟩ := htrim
    have hfield : (Json.obj members).field (ascii "imdb") = some (.str x.imdb) :=
      field_of_hasMembers (m := (ascii "imdb", .str x.imdb)) ⟨members, rfl, hmem⟩
        (by simp [stubMembers])
    simp only [imdbOf, hbrace, if_true, hparse, Json.stringField, hfield]
  | lines h tail htail =>
    have hblank : tail.all isBlank = true := by rcases htail with rfl | rfl <;> rfl
    simp only [imdbOf, not_brace_stubLines h hblank, splitN_trimSpace_stubLines h htail]
    by_cases himdb : x.imdb = []
    · simp [himdb]
    · simp [himdb, h.trimmed_imdb.trimSpace_eq]

theorem stubParts_of_in (h : x.In data) : stubParts data = some ⟨x.url, x.magnet, x.size.toInt⟩ := by
  have hsize := Float64.parseFloat_itoa x.exact
  cases h with
  | json data hbrace hdata htrim =>
    obtain ⟨members, hparse, hmem⟩ := hdata
    have hfield : ∀ m ∈ stubMembers x.url x.size x.magnet x.imdb,
        (Json.obj members).field m.1 = some m.2 :=
      fun m hm => field_of_hasMembers ⟨members, rfl, hmem⟩ hm
    simp only [stubMembers, List.forall_mem_cons] at hfield
    obtain ⟨hurl, hnum, hmagnet, -⟩ := hfield
    simp only [stubParts, hbrace, if_true, hparse, Option.map_some, Json.stringField, numberField, hurl,
      hnum, hmagnet, hsize, Option.getD_some]
  | lines h tail htail =>
    have hblank : tail.all isBlank = true := by rcases htail with rfl | rfl <;> rfl
    simp only [stubParts, not_brace_stubLines h hblank, splitN_trimSpace_stubLines h htail,
      h.trimmed_url.trimSpace_eq, h.trimmed_magnet.trimSpace_eq, (trimmed_itoa _).trimSpace_eq, hsize,
      Option.getD_some, Bool.false_eq_true, if_false]

theorem readMetadata_of_in (h : x.In data) (himdb : x.imdb = []) : ∃ text,
    readMetadata data = validate x.url x.size [] text ∧ findID text = findID data := by
  cases h with
  | json data hbrace hdata htrim =>
    have hread := readMetadata_json data hbrace htrim
    rw [x.trimmed.trimSpace_eq, himdb] at hread
    exact ⟨trimSpace data, hread, findID_trimSpace data⟩
  | lines h tail htail =>
    have hread : readMetadata (stubLines x.url x.size x.magnet x.imdb ++ tail) = _ :=
      readMetadata_lines h htail
    rw [himdb] at hread ⊢
    exact ⟨_, hread, rfl⟩

end Fields

theorem flatMap_escapeByte {s : Bytes} (h : ∀ c ∈ s, Json.escapeByte c = [c]) :
    s.flatMap Json.escapeByte = s := by
  induction s with
  | nil => rfl
  | cons c s ih =>
    rw [List.flatMap_cons, h c List.mem_cons_self, ih fun d hd => h d (List.mem_cons_of_mem _ hd)]
    rfl

def isEscaped (c : UInt8) : Bool := isWord c || c = 45 || c = 46 || c = 126 || c = 43 || c = 37

theorem escapeByte_of_isEscaped : ∀ {c : UInt8}, isEscaped c = true → Json.escapeByte c = [c] :=
  @(forall_byte (by decide +kernel))

theorem isEscaped_of_mem_queryEscape {s : Bytes} {c : UInt8} (hc : c ∈ queryEscape s) :
    isEscaped c = true := by
  have hhex : ∀ d < 16, isEscaped (upperHexDigit d) = true := by decide
  obtain ⟨a, -, ha⟩ := List.mem_flatMap.mp hc
  have hlt := a.toNat_lt
  split_ifs at ha with hword hspace
  · obtain rfl := List.mem_singleton.mp ha
    simp only [isEscaped, hword, Bool.true_or]
  · obtain rfl := List.mem_singleton.mp ha
    rfl
  · simp only [List.mem_cons, List.not_mem_nil, or_false] at ha
    rcases ha with rfl | rfl | rfl
    · rfl
    · exact hhex _ (by omega)
    · exact hhex _ (by omega)

theorem findID_stubContent (url : Bytes) (size : Int64) (magnet : Bytes) :
    findID (stubContent url size magnet []) =
      firstID (magnet.flatMap Json.escapeByte) (url.flatMap Json.escapeByte) := by
  have heq : stubContent url size magnet [] =
      ascii "\x7b\"imdb\":\"\",\"magnet\":" ++ 34 :: (magnet.flatMap Json.escapeByte ++ 34 ::
        (ascii ",\"size\"" ++ 58 :: (itoa size.toInt ++ 44 :: (ascii "\"url\":" ++ 34 ::
          (url.flatMap Json.escapeByte ++ 34 :: [125]))))) := by
    simp only [stubContent, Json.renderObject, Json.renderMembers, Json.renderMember, Json.quote,
      Json.Scalar.render, List.append_assoc, List.cons_append, List.nil_append]
    rfl
  have hsize : findID (itoa size.toInt) = [] :=
    findID_of_not_mem (not_mem_of_all (all_isNumeral_itoa size.toInt) rfl)
  rw [heq, findID_skip rfl (by decide +kernel), findID_append rfl, firstID, findID_skip rfl (by decide +kernel),
    findID_skip rfl hsize, findID_skip rfl (by decide +kernel), findID_stop rfl _ rfl, firstID]

def trackerText : Bytes :=
  ((defaultTrackers.flatMap fun tr => ascii "&tr=" ++ queryEscape tr).flatMap Json.escapeByte).tail

theorem flatMap_escapeByte_trackers :
    (defaultTrackers.flatMap fun tr => ascii "&tr=" ++ queryEscape tr).flatMap Json.escapeByte =
      92 :: trackerText :=
  List.eq_cons_of_mem_head? (Option.mem_def.mpr rfl)

theorem findID_trackerText : findID trackerText = [] := by decide +kernel

theorem findID_buildMagnet {hash : Bytes} (hhash : ∀ c ∈ hash, isLowerHex c = true) (name : Bytes) :
    findID ((buildMagnet hash name defaultTrackers).flatMap Json.escapeByte) =
      findID (queryEscape name) := by
  have hnone : findID hash = [] := findID_of_not_mem fun hmem => absurd (hhash 116 hmem) (by decide)
  have hesc : hash.flatMap Json.escapeByte = hash := by
    apply flatMap_escapeByte
    intro c hc
    have hword : isWord c = true := by
      have hhex := hhash c hc
      simp only [isLowerHex, Bool.or_eq_true, Bool.and_eq_true, decide_eq_true_eq] at hhex
      simp only [isWord, Bool.or_eq_true, Bool.and_eq_true, decide_eq_true_eq]
      rcases hhex with hdigit | ⟨hlow, hhigh⟩
      · exact .inl (.inl (.inl hdigit))
      · exact .inr ⟨hlow, UInt8.le_trans hhigh (by decide)⟩
    exact escapeByte_of_isEscaped (by simp [isEscaped, hword])
  have hquery : (queryEscape name).flatMap Json.escapeByte = queryEscape name :=
    flatMap_escapeByte fun c hc => escapeByte_of_isEscaped (isEscaped_of_mem_queryEscape hc)
  have hstart : (ascii "magnet:?xt=urn:btih:").flatMap Json.escapeByte =
      ascii "magnet:?xt=urn:btih" ++ [58] := by decide +kernel
  have hdn : (ascii "&dn=").flatMap Json.escapeByte = 92 :: (ascii "u0026dn" ++ [61]) := by decide +kernel
  rw [buildMagnet, List.flatMap_append, flatMap_escapeByte_trackers, List.flatMap_append, List.flatMap_append,
    hstart, hesc]
  by_cases hname : name = []
  · subst hname
    simp only [ne_eq, not_true_eq_false, if_false, List.flatMap_nil, List.append_nil, List.append_assoc,
      List.cons_append, List.nil_append]
    rw [findID_skip rfl (by decide +kernel), findID_stop rfl _ findID_trackerText, hnone]
    rfl
  · rw [if_pos hname, List.flatMap_append, hdn, hquery]
    simp only [List.append_assoc, List.cons_append, List.nil_append]
    rw [findID_skip rfl (by decide +kernel), findID_skip rfl hnone, findID_skip rfl (by decide +kernel),
      findID_stop rfl _ findID_trackerText]

theorem linkHash_spec {url hash : Bytes} (h : linkHash url = some hash) :
    ∀ c ∈ hash, isLowerHex c = true := by
  obtain ⟨k, hk, rfl⟩ := Option.map_eq_some_iff.mp h
  obtain ⟨pre, t, u, -, hmatch⟩ := matches_of_submatchFrom hk
  obtain ⟨t', -, k', rfl, htimes⟩ := (matches_lit_seq (ascii "link=")).mp hmatch
  intro c hc
  exact (((matches_times_cls 40).mp htimes).2.1 c hc).2

def Kept (before after : Bytes) : Prop :=
  readMetadata after = readMetadata before ∧ imdbOf after = imdbOf before

theorem validate_congr_iff {url : Bytes} (hhttp : isHTTP url = true) (size : Int64) (s t : Bytes) :
    validate url size [] s = validate url size [] t ↔
      (minFileSize ≤ size → size ≤ maxFileSize → findID s = findID t) := by
  simp only [validate, hhttp, Bool.true_eq_false, if_false, if_true]
  by_cases hsize : size < minFileSize ∨ maxFileSize < size
  · rw [if_pos hsize, if_pos hsize]
    refine iff_of_true rfl fun hmin hmax => ?_
    rcases hsize with hlt | hlt
    · exact absurd hlt (Int64.not_lt.mpr hmin)
    · exact absurd hlt (Int64.not_lt.mpr hmax)
  · rw [if_neg hsize, if_neg hsize]
    rw [not_or, Int64.not_lt, Int64.not_lt] at hsize
    constructor
    · intro h _ _
      exact congrArg FileMetadata.imdbID (Except.ok.inj h)
    · intro h
      rw [h hsize.1 hsize.2]

theorem truncate_intCast (n : ℤ) : truncate (n : ℚ) = n := by
  rw [truncate, Int.floor_intCast, Int.ceil_intCast, ite_self]

def newID (path url : Bytes) : Bytes :=
  firstID (queryEscape (titleFromFilename (filepathBase path))) (url.flatMap Json.escapeByte)

theorem kept_rehydrated_iff {x : StubFields} {data hash : Bytes} (h : x.In data) (path : Bytes)
    (hhash : linkHash x.url = some hash) :
    Kept data (rehydrated path hash ⟨x.url, x.magnet, x.size.toInt⟩) ↔
      x.imdb = [] ∧
        (minFileSize ≤ x.size → x.size ≤ maxFileSize → findID data = newID path x.url) := by
  have hnew : rehydrated path hash ⟨x.url, x.magnet, x.size.toInt⟩ = stubContent x.url x.size
      (buildMagnet hash (titleFromFilename (filepathBase path)) defaultTrackers) [] := by
    rw [rehydrated, truncate_intCast, Int64.ofInt_toInt]
  have hid : findID (rehydrated path hash ⟨x.url, x.magnet, x.size.toInt⟩) = newID path x.url := by
    rw [hnew, findID_stubContent, firstID, findID_buildMagnet (linkHash_spec hhash)]
    rfl
  rw [Kept, imdbOf_of_in h, ← hid, hnew, imdbOf_stubContent, readMetadata_stubContent x.trimmed, and_comm,
    eq_comm (a := ([] : Bytes))]
  refine and_congr_right fun himdb => ?_
  obtain ⟨text, hread, htext⟩ := readMetadata_of_in h himdb
  rw [hread, validate_congr_iff x.http, htext]
  exact forall₂_congr fun _ _ => eq_comm

section Walk

variable {marks : Bool} {added : Bytes → Bool} {active : List Bytes} {acc : List Bytes × Files}
  {f : Bytes × Bytes} {p : StubParts} {hash : Bytes}

def adds (added : Bytes → Bool) (path : Bytes) : Option Write :=
  if added path then some .done else none

theorem linkHash_of_missingHash (h : missingHash active p = some hash) : linkHash p.url = some hash :=
  (Option.filter_eq_some_iff.mp h).1

theorem missingHash_anti {active' : List Bytes} (hsub : active ⊆ active')
    (h : missingHash active' p = some hash) : missingHash active p = some hash := by
  obtain ⟨hlink, hmissing⟩ := Option.filter_eq_some_iff.mp h
  refine Option.filter_eq_some_iff.mpr ⟨hlink, ?_⟩
  simp only [Bool.and_eq_true, Bool.not_eq_true', List.contains_eq_mem, decide_eq_false_iff_not] at hmissing ⊢
  exact ⟨fun hmem => hmissing.1 (hsub hmem), hmissing.2⟩

theorem rehydrateFile_missing (hparts : stubParts f.2 = some p)
    (hmissing : missingHash acc.1 p = some hash) (hadded : added f.1 = true) :
    rehydrateFile marks (adds added) acc f =
      (if marks then hash :: acc.1 else acc.1, AList.insert f.1 (rehydrated f.1 hash p) acc.2) := by
  simp only [rehydrateFile, hparts, hmissing, adds, hadded, if_true, createMKV]

theorem rehydrateFile_cases (marks : Bool) (added : Bytes → Bool) (acc : List Bytes × Files)
    (f : Bytes × Bytes) :
    rehydrateFile marks (adds added) acc f = acc ∨
      ∃ p hash, stubParts f.2 = some p ∧ missingHash acc.1 p = some hash ∧ added f.1 = true ∧
        rehydrateFile marks (adds added) acc f =
          (if marks then hash :: acc.1 else acc.1, AList.insert f.1 (rehydrated f.1 hash p) acc.2) := by
  cases hparts : stubParts f.2 with
  | none => exact .inl (by simp only [rehydrateFile, hparts])
  | some p =>
    cases hmissing : missingHash acc.1 p with
    | none => exact .inl (by simp only [rehydrateFile, hparts, hmissing])
    | some hash =>
      cases hadded : added f.1 with
      | false => exact .inl (by simp [rehydrateFile, hparts, adds, hadded])
      | true => exact .inr ⟨p, hash, rfl, hmissing, rfl, rehydrateFile_missing hparts hmissing hadded⟩

theorem lookup_walk (marks : Bool) (added : Bytes → Bool) (path : Bytes) (stubs : List (Bytes × Bytes))
    (acc : List Bytes × Files) (hacc : active ⊆ acc.1) :
    (stubs.foldl (rehydrateFile marks (adds added)) acc).2.lookup path = acc.2.lookup path ∨
      ∃ f ∈ stubs, f.1 = path ∧ ∃ p hash, stubParts f.2 = some p ∧ missingHash active p = some hash ∧
        (stubs.foldl (rehydrateFile marks (adds added)) acc).2.lookup path =
          some (rehydrated path hash p) := by
  induction stubs generalizing acc with
  | nil => exact .inl rfl
  | cons g stubs ih =>
    rw [List.foldl_cons]
    rcases rehydrateFile_cases marks added acc g with heq | ⟨p, hash, hparts, hmissing, -, heq⟩
    · rw [heq]
      rcases ih acc hacc with h | ⟨f, hf, h⟩
      · exact .inl h
      · exact .inr ⟨f, List.mem_cons_of_mem _ hf, h⟩
    · have hactive : active ⊆ (rehydrateFile marks (adds added) acc g).1 := by
        rw [heq]
        cases marks with
        | false => exact hacc
        | true => exact List.subset_cons_of_subset _ hacc
      rcases ih _ hactive with h | ⟨f, hf, h⟩
      · rw [heq, Dict.lookup_insert] at h
        by_cases hpath : path = g.1
        · rw [if_pos hpath] at h
          exact .inr ⟨g, List.mem_cons_self, hpath.symm, p, hash, hparts, missingHash_anti hacc hmissing,
            by rw [heq, h, hpath]⟩
        · rw [if_neg hpath] at h
          exact .inl (by rw [heq]; exact h)
      · exact .inr ⟨f, List.mem_cons_of_mem _ hf, h⟩

theorem lookup_walk_single (marks : Bool) (hparts : stubParts f.2 = some p)
    (hmissing : missingHash active p = some hash) {stubs : List (Bytes × Bytes)} (hf : f ∈ stubs)
    (hunique : ∀ g ∈ stubs, g.1 = f.1 → g = f) (files : Files) :
    (stubs.foldl (rehydrateFile marks (adds fun path => path = f.1)) (active, files)).2.lookup f.1 =
      some (rehydrated f.1 hash p) := by
  have hother : ∀ (acc : List Bytes × Files) (g : Bytes × Bytes), g.1 ≠ f.1 →
      rehydrateFile marks (adds fun path => path = f.1) acc g = acc := by
    intro acc g hg
    rcases rehydrateFile_cases marks (fun path => path = f.1) acc g with h | ⟨-, -, -, -, hadded, -⟩
    · exact h
    · exact absurd (of_decide_eq_true hadded) hg
  have hkeep : ∀ acc : List Bytes × Files, acc.2.lookup f.1 = some (rehydrated f.1 hash p) →
      (rehydrateFile marks (adds fun path => path = f.1) acc f).2.lookup f.1 =
        some (rehydrated f.1 hash p) := by
    intro acc hacc
    rcases rehydrateFile_cases marks (fun path => path = f.1) acc f with
      h | ⟨p', hash', hparts', hmissing', -, h⟩
    · rw [h, hacc]
    · obtain rfl := Option.some.inj (hparts.symm.trans hparts')
      obtain rfl := Option.some.inj ((linkHash_of_missingHash hmissing).symm.trans
        (linkHash_of_missingHash hmissing'))
      rw [h, Dict.lookup_insert, if_pos rfl]
  suffices hfold : ∀ acc : List Bytes × Files,
      (acc.2.lookup f.1 = some (rehydrated f.1 hash p) ∨ acc.1 = active ∧ f ∈ stubs) →
      (stubs.foldl (rehydrateFile marks (adds fun path => path = f.1)) acc).2.lookup f.1 =
        some (rehydrated f.1 hash p) from hfold (active, files) (.inr ⟨rfl, hf⟩)
  clear hf
  induction stubs with
  | nil =>
    rintro acc (h | ⟨-, hf⟩)
    · exact h
    · cases hf
  | cons g stubs ih =>
    intro acc hacc
    rw [List.foldl_cons]
    apply ih fun g' hg' => hunique g' (List.mem_cons_of_mem _ hg')
    by_cases hg : g.1 = f.1
    · obtain rfl := hunique g List.mem_cons_self hg
      rcases hacc with h | ⟨rfl, -⟩
      · exact .inl (hkeep acc h)
      · rw [rehydrateFile_missing hparts hmissing (decide_eq_true rfl)]
        exact .inl (by rw [Dict.lookup_insert, if_pos rfl])
    · rw [hother acc g hg]
      rcases hacc with h | ⟨hactive, hf⟩
      · exact .inl h
      · refine .inr ⟨hactive, (List.mem_cons.mp hf).resolve_left ?_⟩
        rintro rfl
        exact hg rfl

end Walk

inductive SyncEngine
  | movie (c : MovieConfig)
  | tv (c : TVConfig)

def SyncEngine.isStub : SyncEngine → Bytes → Bool
  | .movie c => c.isStub
  | .tv c => c.isStub

def SyncEngine.rehydrateMissingTorrents : SyncEngine → MapOrder → Option (List TorrentStats) →
    (Bytes → Option Write) → Files → Files
  | .movie c => c.rehydrateMissingTorrents
  | .tv c => c.rehydrateMissingTorrents

structure StubLibrary (e : SyncEngine) where
  files : Files
  fields : Bytes → StubFields
  wellFormed : ∀ path data, files.lookup path = some data → e.isStub path = true →
    (fields path).In data

def StubFields.Missing (listed : Option (List TorrentStats)) (x : StubFields) : Prop :=
  ∃ torrents hash, listed = some torrents ∧ linkHash x.url = some hash ∧
    hash ∉ torrents.map TorrentStats.hash ∧ (ascii "magnet:?").isPrefixOf x.magnet = true

theorem missingHash_iff {torrents : List TorrentStats} {x : StubFields} :
    (∃ hash, missingHash (torrents.map TorrentStats.hash) ⟨x.url, x.magnet, x.size.toInt⟩ = some hash) ↔
      x.Missing (some torrents) := by
  simp only [missingHash, Option.filter_eq_some_iff, Bool.and_eq_true, Bool.not_eq_true',
    List.contains_eq_mem, decide_eq_false_iff_not]
  constructor
  · rintro ⟨hash, hlink, hactive, hmagnet⟩
    exact ⟨torrents, hash, rfl, hlink, hactive, hmagnet⟩
  · rintro ⟨torrents', hash, htorrents, hlink, hactive, hmagnet⟩
    obtain rfl := Option.some.inj htorrents
    exact ⟨hash, hlink, hactive, hmagnet⟩

theorem rehydrate_keeps_iff {files : Files} {fields : Bytes → StubFields} {isStub : Bytes → Bool}
    (hwell : ∀ path data, files.lookup path = some data → isStub path = true → (fields path).In data)
    {stubs : List (Bytes × Bytes)}
    (hstubs : ∀ f, f ∈ stubs ↔ files.lookup f.1 = some f.2 ∧ isStub f.1 = true) (marks : Bool)
    (listed : Option (List TorrentStats)) :
    (∀ added path data, files.lookup path = some data → isStub path = true →
      ∃ data', (rehydrate marks stubs listed (adds added) files).lookup path = some data' ∧
        Kept data data') ↔
      ∀ path data, files.lookup path = some data → isStub path = true →
        (fields path).Missing listed → (fields path).imdb = [] ∧
          (minFileSize ≤ (fields path).size → (fields path).size ≤ maxFileSize →
            findID data = newID path (fields path).url) := by
  constructor
  · intro h path data hdata hstub hmissing
    obtain ⟨torrents, -, rfl, -⟩ := id hmissing
    obtain ⟨hash, hhash⟩ := missingHash_iff.mpr hmissing
    have hin := hwell path data hdata hstub
    have hmem : (path, data) ∈ stubs := (hstubs _).mpr ⟨hdata, hstub⟩
    have hunique : ∀ g ∈ stubs, g.1 = path → g = (path, data) := by
      rintro ⟨path', data'⟩ hg rfl
      have hdata' := ((hstubs _).mp hg).1
      exact Prod.ext rfl (Option.some.inj (hdata'.symm.trans hdata))
    obtain ⟨data', hdata', hkept⟩ := h (fun p => p = path) path data hdata hstub
    have hwritten := lookup_walk_single marks (stubParts_of_in hin) hhash hmem hunique files
    obtain rfl := Option.some.inj (hdata'.symm.trans hwritten)
    exact (kept_rehydrated_iff hin path (linkHash_of_missingHash hhash)).mp hkept
  · intro h added path data hdata hstub
    cases listed with
    | none => exact ⟨data, hdata, rfl, rfl⟩
    | some torrents =>
      rcases lookup_walk marks added path stubs (torrents.map TorrentStats.hash, files)
          (List.Subset.refl _) with hsame | ⟨f, hf, rfl, p, hash, hparts, hmissing, hnew⟩
      · exact ⟨data, hsame.trans hdata, rfl, rfl⟩
      · obtain rfl : data = f.2 := Option.some.inj (hdata.symm.trans ((hstubs f).mp hf).1)
        have hin := hwell f.1 f.2 hdata hstub
        obtain rfl := Option.some.inj ((stubParts_of_in hin).symm.trans hparts)
        refine ⟨_, hnew, (kept_rehydrated_iff hin f.1 (linkHash_of_missingHash hmissing)).mpr ?_⟩
        exact h f.1 f.2 hdata hstub (missingHash_iff.mp ⟨hash, hmissing⟩)

/-- When rehydration keeps every stub and its data. -/
theorem rehydration_keeps_library_iff (e : SyncEngine) (lib : StubLibrary e) (order : MapOrder)
    (listed : Option (List TorrentStats)) :
    (∀ added path data, lib.files.lookup path = some data → e.isStub path = true →
      ∃ data', (e.rehydrateMissingTorrents order listed (adds added) lib.files).lookup path =
        some data' ∧ Kept data data') ↔
      ∀ path data, lib.files.lookup path = some data → e.isStub path = true →
        (lib.fields path).Missing listed → (lib.fields path).imdb = [] ∧
          (minFileSize ≤ (lib.fields path).size → (lib.fields path).size ≤ maxFileSize →
            findID data = newID path (lib.fields path).url) := by
  cases e with
  | movie c => exact rehydrate_keeps_iff lib.wellFormed (fun f => MovieConfig.mem_walk) false listed
  | tv c => exact rehydrate_keeps_iff lib.wellFormed (fun f => mem_walk) true listed

def oldPath : Bytes := ascii "/movies/a.mkv"

def oldFields : StubFields where
  url := ascii "http://h/stream?link=" ++ List.replicate 40 97
  size := 1000000000
  magnet := ascii "magnet:?"
  imdb := ascii "tt0000001"
  http := by decide
  trimmed := by constructor <;> simp [ascii, byteOf, isBlank]
  exact := by decide

def oldStub : Bytes := stubLines oldFields.url oldFields.size oldFields.magnet oldFields.imdb

theorem fitsLines_oldFields : FitsLines oldFields.url oldFields.magnet oldFields.imdb where
  http := oldFields.http
  trimmed_url := oldFields.trimmed
  trimmed_magnet := by constructor <;> simp [oldFields, ascii, byteOf, isBlank]
  trimmed_imdb := by constructor <;> simp [oldFields, ascii, byteOf, isBlank]
  magnet_ne := by decide
  newline := by decide

theorem oldStub_in : oldFields.In oldStub := by
  have hin : oldFields.In (oldStub ++ []) := .lines fitsLines_oldFields [] (.inl rfl)
  rwa [List.append_nil] at hin

def oldLibrary : StubLibrary (.movie movieSample) where
  files := AList.insert oldPath oldStub ∅
  fields := fun _ => oldFields
  wellFormed := by
    intro path data hdata _
    rw [Dict.lookup_insert] at hdata
    split_ifs at hdata
    · obtain rfl := Option.some.inj hdata
      exact oldStub_in
    · simp at hdata

theorem rehydration_loses_imdb : ∃ data',
    ((SyncEngine.movie movieSample).rehydrateMissingTorrents .listed (some []) (adds fun path => path = oldPath)
        oldLibrary.files).lookup oldPath = some data' ∧
      imdbOf oldStub = ascii "tt0000001" ∧ imdbOf data' = [] := by
  have hstubs : movieSample.walk .listed oldLibrary.files = [(oldPath, oldStub)] := by decide +kernel
  have hmissing : missingHash [] ⟨oldFields.url, oldFields.magnet, oldFields.size.toInt⟩ =
      some (List.replicate 40 97) := by decide +kernel
  have hwritten : (movieSample.rehydrateMissingTorrents .listed (some []) (adds fun path => path = oldPath)
      oldLibrary.files).lookup oldPath = some (rehydrated oldPath (List.replicate 40 97)
        ⟨oldFields.url, oldFields.magnet, oldFields.size.toInt⟩) := by
    rw [MovieConfig.rehydrateMissingTorrents, hstubs]
    exact lookup_walk_single (f := (oldPath, oldStub)) false (stubParts_of_in oldStub_in) hmissing
      List.mem_cons_self (by simp) oldLibrary.files
  exact ⟨_, hwritten, imdbOf_of_in oldStub_in, imdbOf_stubContent _ _ _ _⟩

end GoStream.Engines
