import GoStream.AutoRemove.Titles
import GoStream.Engines.TV
import GoStream.Engines.Watchlist

/-!
# Titles on the blacklist
-/

namespace GoStream.Engines

open Foundations Regex Inodes AutoRemove

def reTVQuality : Regex :=
  inOrder [.boundary, .group 1 (oneOf (["2160p", "1080p", "720p", "480p", "576p", "4k", "uhd", "sd",
    "hdr", "dv", "dovi", "web", "bluray", "remux"].map fun w => lit (ascii w))), .boundary, .star dot]

def TVConfig.normalizeTitle (c : TVConfig) (title : Bytes) : Bytes :=
  squeeze (reTVQuality.replaceAll [] (dropYears (c.lowering.lower title)))

def TVConfig.isBlacklisted (c : TVConfig) (bl : Blacklist) (title : Bytes) : Bool :=
  bl.titles.contains (c.normalizeTitle title)

def Lowering.normalForm (L : Lowering) (title : Bytes) : Bytes := squeeze (dropYears (L.lower title))

structure Installation where
  tv : TVConfig
  movies : MovieConfig
  watchlist : WatchlistConfig
  lowering_eq : movies.lowering = tv.lowering

inductive StubOf
  | episode (sh : TVShow) (season episode : Int64) (hash : InfoHash)
  | film (movie : Movie) (stream : MovieStream)
  | wanted (item : WatchlistItem) (candidate : ProwlarrStream) (hash : InfoHash)

def StubOf.title : StubOf → Bytes
  | .episode sh _ _ _ => sh.name
  | .film movie _ => movie.name
  | .wanted item _ _ => item.title

inductive Asker
  | tv
  | movies

def StubOf.asker : StubOf → Asker
  | .episode .. => .tv
  | .film .. => .movies
  | .wanted .. => .movies

structure Removal where
  stub : StubOf
  hash : Bytes

namespace Installation

variable (c : Installation)

def path : StubOf → Bytes
  | .episode sh season episode hash => c.tv.path sh season episode hash
  | .film movie stream => c.movies.mkvPath movie stream
  | .wanted item candidate hash => c.watchlist.mkvPath item candidate hash

def normalizeTitle : Asker → Bytes → Bytes
  | .tv => c.tv.normalizeTitle
  | .movies => c.movies.normalizeTitle

def isBlacklisted : Asker → Blacklist → Bytes → Bool
  | .tv => c.tv.isBlacklisted
  | .movies => c.movies.isBlacklisted

def remover : Hashing := { Hashing.standard with toLower := c.tv.lowering.lower }

def unlink (bl : Blacklist) (r : Removal) : Blacklist :=
  bl.add c.remover r.hash (deriveTitleFromPath (c.path r.stub))

def normalForm (title : Bytes) : Bytes := c.tv.lowering.normalForm title

def Faithful : StubOf → Prop
  | .episode sh _ _ _ =>
    c.normalForm (sanitizeName sh.name) = c.normalForm sh.name ∧ c.normalForm sh.name ≠ []
  | .film movie stream =>
    c.normalForm (deriveTitleFromPath (c.path (.film movie stream))) = c.normalForm movie.name
  | .wanted item candidate hash =>
    c.normalForm (deriveTitleFromPath (c.path (.wanted item candidate hash))) = c.normalForm item.title

def NoQuality (title : Bytes) : Prop :=
  reTVQuality.matchString (dropYears (c.tv.lowering.lower title)) = false

def Recognised : StubOf → Prop
  | .episode sh season episode hash => c.Faithful (.episode sh season episode hash) ∧ c.NoQuality sh.name
  | .film movie stream =>
    c.movies.normalizeTitle movie.name = c.normalForm (deriveTitleFromPath (c.path (.film movie stream))) ∧
      c.movies.normalizeTitle movie.name ≠ []
  | .wanted item candidate hash =>
    c.movies.normalizeTitle item.title =
        c.normalForm (deriveTitleFromPath (c.path (.wanted item candidate hash))) ∧
      c.movies.normalizeTitle item.title ≠ []

def Plain : Asker → Bytes → Prop
  | .tv, title => c.NoQuality title ∨ c.tv.normalizeTitle title = []
  | .movies, title =>
    c.movies.normalizeTitle title = c.normalForm title ∨ c.movies.normalizeTitle title = []

end Installation

def isFixed (c : UInt8) : Bool := c < 128 && lowerByte c = c

theorem isFixed_of_isAlnum : ∀ {c : UInt8}, isAlnum c = true → isFixed c = true :=
  @(forall_byte (by decide +kernel))

theorem Lowering.lower_of_fixed (L : Lowering) {s : Bytes} (h : s.all isFixed = true) : L.lower s = s := by
  have hbyte : ∀ d ∈ s, d < 128 ∧ lowerByte d = d := by
    intro d hd
    have hfixed := List.all_eq_true.mp h d hd
    simpa [isFixed] using hfixed
  have hascii : s.all (· < 128) = true := List.all_eq_true.mpr fun d hd => decide_eq_true (hbyte d hd).1
  rw [L.lower_of_ascii hascii, asciiLower]
  exact (List.map_congr_left fun d hd => (hbyte d hd).2).trans (List.map_id s)

theorem squeeze_map {f : UInt8 → UInt8} (hf : ∀ c, isAlnum (f c) = true ∨ isAlnum c = true → f c = c)
    (s : Bytes) : squeeze (s.map f) = squeeze s := by
  induction s with
  | nil => rfl
  | cons c s ih =>
    unfold squeeze at ih ⊢
    rw [List.map_cons, List.filter_cons, List.filter_cons, ih]
    by_cases hc : isAlnum (f c) = true ∨ isAlnum c = true
    · rw [hf c hc]
    · rw [not_or, Bool.not_eq_true, Bool.not_eq_true] at hc
      rw [hc.1, hc.2]
      rfl

section Stored

variable {c : Installation}

theorem cleanTitle_eq (title : Bytes) : cleanTitle c.remover title = c.normalForm title := by
  -- neither class has the separators or the space
  have hkeep : ∀ {p : UInt8 → Bool}, p 95 = false → p 46 = false → p 32 = false → ∀ d : UInt8,
      p (if d = 95 ∨ d = 46 then 32 else d) = true ∨ p d = true →
      (if d = 95 ∨ d = 46 then 32 else d) = d := by
    intro p hline hdot hspace d hd
    split_ifs at hd ⊢ with hsep
    · rcases hsep with rfl | rfl <;> simp_all
    · rfl
  have hyear := hkeep (p := inYear) (by decide) (by decide) (by decide)
  have halnum := hkeep (p := isAlnum) (by decide) (by decide) (by decide)
  have hdrop := dropYears_map hyear (c.tv.lowering.lower title)
  have hsqueeze := squeeze_map halnum (dropYears (c.tv.lowering.lower title))
  exact (congrArg squeeze hdrop).trans hsqueeze

theorem mem_titles_unlink {bl : Blacklist} {r : Removal} {t : Bytes} : t ∈ (c.unlink bl r).titles ↔
    t ∈ bl.titles ∨ t = c.normalForm (deriveTitleFromPath (c.path r.stub)) ∧ t ≠ [] := by
  have hnil : c.normalForm [] = [] := by
    rw [Installation.normalForm, Lowering.normalForm, Lowering.lower_nil]
    rfl
  rw [Installation.unlink, Blacklist.add, cleanTitle_eq]
  dsimp only
  split_ifs with hold
  · rw [or_iff_left_of_imp]
    rintro ⟨rfl, hne⟩
    rcases hold with htitle | hempty | hcontains
    · rw [htitle] at hne
      exact absurd hnil hne
    · exact absurd hempty hne
    · exact List.contains_iff_mem.mp hcontains
  · rw [not_or, not_or] at hold
    rw [List.mem_append, List.mem_singleton]
    refine or_congr_right ⟨?_, And.left⟩
    rintro rfl
    exact ⟨rfl, hold.2.1⟩

theorem mem_titles_run {bl : Blacklist} {removed : List Removal} {t : Bytes} :
    t ∈ (run c.unlink bl removed).titles ↔ t ∈ bl.titles ∨
      ∃ r ∈ removed, t = c.normalForm (deriveTitleFromPath (c.path r.stub)) ∧ t ≠ [] := by
  induction removed generalizing bl with
  | nil => simp
  | cons r removed ih =>
    rw [run_cons, ih, mem_titles_unlink, or_assoc]
    simp

theorem getShowFolderName_cases (sh : TVShow) :
    getShowFolderName sh.name sh.firstAirDate = sanitizeName sh.name ∨
      ∃ y, (y.length = 4 ∧ y.all isDecimal = true) ∧ getShowFolderName sh.name sh.firstAirDate =
        sanitizeName sh.name ++ 32 :: (40 :: (y ++ [41])) := by
  unfold getShowFolderName
  split_ifs with hyear
  · refine .inr ⟨yearOf sh.firstAirDate, ⟨?_, sh.year⟩, by simp⟩
    unfold yearOf at hyear ⊢
    split_ifs at hyear ⊢ with hlen
    · rw [List.length_take]
      omega
    · exact absurd rfl hyear
  · exact .inl rfl

theorem normalized_getShowFolderName {sh : TVShow} (hname : c.tv.lowering.normalized sh.name ≠ []) :
    c.tv.lowering.normalized (getShowFolderName sh.name sh.firstAirDate) ≠ [] := by
  have hsanitized := c.tv.lowering.normalized_sanitizeName sh.isText
  rcases getShowFolderName_cases sh with h | ⟨y, -, h⟩
  · rw [h, hsanitized]
    exact hname
  · rw [h, c.tv.lowering.normalized_append (settled_cons (by decide) _), hsanitized]
    exact List.append_ne_nil_of_left_ne_nil hname _

theorem deriveTitleFromPath_episode {sh : TVShow} (season episode : Int64) (hash : InfoHash)
    (hname : c.tv.lowering.normalized sh.name ≠ []) :
    deriveTitleFromPath (c.tv.path sh season episode hash) = getShowFolderName sh.name sh.firstAirDate := by
  have hfolder := normalized_getShowFolderName hname
  have hne : ∀ s : Bytes, s.all (· < 128) = true → squeeze (asciiLower s) = [] →
      getShowFolderName sh.name sh.firstAirDate ≠ s := by
    rintro s hascii hempty heq
    rw [heq, Lowering.normalized, Lowering.lower_of_ascii _ hascii] at hfolder
    exact hfolder hempty
  have hjoin : joinElem c.tv.tvDir (getShowFolderName sh.name sh.firstAirDate) =
      c.tv.tvDir ++ 47 :: getShowFolderName sh.name sh.firstAirDate := by
    rw [joinElem, if_neg (not_or.mpr ⟨hne [] rfl rfl, hne [46] rfl rfl⟩), if_neg (hne [46, 46] rfl rfl)]
  have hslash : 47 ∉ getShowFolderName sh.name sh.firstAirDate := by
    rcases getShowFolderName_cases sh with h | ⟨y, ⟨-, hdigits⟩, h⟩
    · rw [h]
      exact slash_not_mem_sanitizeName _
    · have hyear : 47 ∉ y := not_mem_of_all hdigits rfl
      rw [h]
      simp [slash_not_mem_sanitizeName, hyear]
  have hseason : 47 ∉ seasonName season := by
    have hword : (47 : UInt8) ∉ ascii "Season." := by decide
    have hnumber : (47 : UInt8) ∉ pad2 season := not_mem_of_all (all_isNumeral_pad2 season) rfl
    simp [seasonName, hword, hnumber]
  rw [TVConfig.path, stubPath_eq, hjoin]
  exact deriveTitleFromPath_season _ hslash hseason (slash_not_mem_buildFilename _ _ _ _) rfl

theorem normalForm_getShowFolderName (sh : TVShow) :
    c.normalForm (getShowFolderName sh.name sh.firstAirDate) = c.normalForm (sanitizeName sh.name) := by
  rcases getShowFolderName_cases sh with h | ⟨y, ⟨hlen, hdigits⟩, h⟩
  · rw [h]
  · have hlower : c.tv.lowering.lower (32 :: 40 :: (y ++ [41])) = 32 :: 40 :: (y ++ [41]) := by
      apply Lowering.lower_of_fixed
      rw [List.all_cons, List.all_cons, List.all_append]
      simp only [Bool.and_eq_true]
      refine ⟨rfl, rfl, List.all_eq_true.mpr fun d hd => ?_, rfl⟩
      exact isFixed_of_isAlnum (by simp [isAlnum, List.all_eq_true.mp hdigits d hd])
    rw [h, Installation.normalForm, Installation.normalForm, Lowering.normalForm, Lowering.normalForm,
      c.tv.lowering.lower_append _ _ (settled_cons (by decide) _), hlower, dropYears_append rfl,
      dropYears_bracketed hlen hdigits, squeeze, List.filter_append]
    exact List.append_nil _

theorem stored_episode {sh : TVShow} (season episode : Int64) (hash : InfoHash)
    (hname : c.tv.lowering.normalized sh.name ≠ []) :
    c.normalForm (deriveTitleFromPath (c.path (.episode sh season episode hash))) =
      c.normalForm (sanitizeName sh.name) := by
  rw [Installation.path, deriveTitleFromPath_episode season episode hash hname, normalForm_getShowFolderName]

theorem normalized_ne_of_normalForm {title : Bytes} (h : c.normalForm title ≠ []) :
    c.tv.lowering.normalized title ≠ [] := by
  obtain ⟨d, hd⟩ := List.exists_mem_of_ne_nil _ h
  obtain ⟨hmem, halnum⟩ := List.mem_filter.mp hd
  exact List.ne_nil_of_mem (List.mem_filter.mpr ⟨mem_of_mem_dropYears hmem, halnum⟩)

end Stored

def isLetter (c : UInt8) : Bool := 97 ≤ c && c ≤ 122

section Asked

variable {c : Installation} {title : Bytes}

theorem isLetter_eq {d : UInt8} : (isLetter d && isAlnum d) = isLetter d := by
  cases h : isLetter d with
  | false => rfl
  | true => exact forall_byte (P := fun d => isLetter d = true → (true && isAlnum d) = true) (by decide +kernel) d h

theorem countP_squeeze (s : Bytes) : (squeeze s).countP isLetter = s.countP isLetter := by
  rw [squeeze, List.countP_filter]
  simp only [isLetter_eq]

theorem countP_dropYears (s : Bytes) : (dropYears s).countP isLetter = s.countP isLetter := by
  have hyear : ∀ d, inYear d = true → isLetter d = false := forall_byte (by decide +kernel)
  rw [List.countP_eq_length_filter, List.countP_eq_length_filter, filter_dropYears hyear]

theorem letter_of_matches {b t u : Bytes} {k : Captures} (h : reTVQuality.Matches b t u k) :
    ∃ d ∈ t, isLetter d = true := by
  obtain ⟨-, t₁, -, -, rfl, -, ⟨rfl, -⟩, word, t₂, -, -, rfl, -, ⟨k', -, hword⟩, -⟩ := h
  obtain ⟨r, hr, hlit⟩ := matches_oneOf hword
  obtain ⟨w, hw, rfl⟩ := List.mem_map.mp hr
  obtain ⟨rfl, -⟩ := (matches_lit (ascii w)).mp hlit
  have hletter : ∀ w ∈ ["2160p", "1080p", "720p", "480p", "576p", "4k", "uhd", "sd", "hdr", "dv", "dovi",
      "web", "bluray", "remux"], ∃ d ∈ ascii w, isLetter d = true := by decide +kernel
  obtain ⟨d, hd, hd'⟩ := hletter w hw
  exact ⟨d, by simp [hd], hd'⟩

theorem noQuality_iff_countP : c.NoQuality title ↔
    (c.tv.normalizeTitle title).countP isLetter = (c.normalForm title).countP isLetter := by
  have hcount := countP_replaceAll_eq_iff (s := dropYears (c.tv.lowering.lower title))
    fun _ _ _ _ => letter_of_matches
  rw [TVConfig.normalizeTitle, Installation.normalForm, Lowering.normalForm, countP_squeeze, countP_squeeze]
  exact hcount.symm

theorem normalizeTitle_eq_iff : c.tv.normalizeTitle title = c.normalForm title ↔ c.NoQuality title := by
  constructor
  · intro h
    rw [noQuality_iff_countP, h]
  · intro h
    have hnone : reTVQuality.submatchFrom [] (dropYears (c.tv.lowering.lower title)) = none := by
      simpa [Installation.NoQuality, matchString, submatch] using h
    rw [TVConfig.normalizeTitle, replaceAll, replaceFrom_of_submatchFrom _ hnone]
    rfl

end Asked

def spread : Bytes → Bytes
  | [] => []
  | c :: s => c :: 45 :: spread s

section Spread

variable {s : Bytes}

theorem mem_spread {d : UInt8} (h : d ∈ spread s) : d ∈ s ∨ d = 45 := by
  induction s with
  | nil => cases h
  | cons c s ih =>
    simp only [spread, List.mem_cons] at h
    rcases h with rfl | rfl | h
    · exact .inl List.mem_cons_self
    · exact .inr rfl
    · exact (ih h).imp (List.mem_cons_of_mem _) id

theorem dropYears_spread (s : Bytes) : dropYears (spread s) = spread s := by
  induction s with
  | nil => rfl
  | cons c s ih =>
    have hhyphen : inYear 45 = false := rfl
    have hsplit := dropYears_append hhyphen [c] (spread s)
    rw [dropYears_singleton, ih] at hsplit
    exact hsplit

theorem squeeze_spread (h : s.all isAlnum = true) : squeeze (spread s) = s := by
  induction s with
  | nil => rfl
  | cons c s ih =>
    rw [List.all_cons, Bool.and_eq_true] at h
    have hhyphen : isAlnum 45 = false := rfl
    rw [squeeze, spread, List.filter_cons_of_pos h.1, List.filter_cons_of_neg (by simp [hhyphen])]
    exact congrArg (c :: ·) (ih h.2)

theorem trimByte_of_not_mem {b : UInt8} (h : b ∉ s) : trimByte b s = s := by
  by_cases hs : s = []
  · subst hs
    rfl
  · simpa using trimByte_append h hs []

theorem sanitizeName_of_plain (h : ∀ d ∈ s, isForbidden d = false ∧ isSpace d = false ∧ d ≠ 95) :
    sanitizeName s = s := by
  have hfilter : s.filter (fun d => !isForbidden d) = s := List.filter_eq_self.mpr fun d hd => by simp [h d hd]
  have hunder : ∀ d ∈ s, decide (d = 95) = false := fun d hd => decide_eq_false (h d hd).2.2
  have hmem : 95 ∉ s := fun hmem => (h 95 hmem).2.2 rfl
  simp only [sanitizeName, hfilter]
  rw [replaceRuns_of_none 95 false fun d hd => (h d hd).2.1, replaceRuns_of_none 95 false hunder,
    trimByte_of_not_mem hmem]

theorem isTextFrom_of_ascii (start : Bool) (h : ∀ d ∈ s, d < 128) : isTextFrom start s = true := by
  induction s generalizing start with
  | nil => rfl
  | cons d s ih =>
    have hd : isContinuation d = false := by
      simp only [isContinuation, Bool.and_eq_false_iff, decide_eq_false_iff_not]
      exact .inl (UInt8.not_le.mpr (h d List.mem_cons_self))
    rw [isTextFrom, hd, ih _ fun e he => h e (List.mem_cons_of_mem _ he)]
    simp

theorem spread_spec (h : s.all isAlnum = true) : ∀ d ∈ spread s,
    isFixed d = true ∧ isForbidden d = false ∧ isSpace d = false ∧ d ≠ 95 := by
  have halnum : ∀ d, isAlnum d = true → isFixed d = true ∧ isForbidden d = false ∧ isSpace d = false ∧ d ≠ 95 :=
    forall_byte (by decide +kernel)
  intro d hd
  rcases mem_spread hd with hmem | rfl
  · exact halnum d (List.all_eq_true.mp h d hmem)
  · decide

def spreadShow (s : Bytes) (h : s.all isAlnum = true) : TVShow where
  name := spread s
  firstAirDate := []
  isText := isTextFrom_of_ascii true fun d hd => by
    have hfixed := (spread_spec h d hd).1
    simp only [isFixed, Bool.and_eq_true, decide_eq_true_eq] at hfixed
    exact hfixed.1
  year := rfl

theorem normalForm_spread (c : Installation) (h : s.all isAlnum = true) : c.normalForm (spread s) = s := by
  have hfixed : (spread s).all isFixed = true := List.all_eq_true.mpr fun d hd => (spread_spec h d hd).1
  rw [Installation.normalForm, Lowering.normalForm, Lowering.lower_of_fixed _ hfixed, dropYears_spread,
    squeeze_spread h]

end Spread

section Agreement

variable {c : Installation}

theorem isBlacklisted_iff {a : Asker} {bl : Blacklist} {title : Bytes} :
    c.isBlacklisted a bl title = true ↔ c.normalizeTitle a title ∈ bl.titles := by
  cases a with
  | tv | movies => exact List.contains_iff_mem

theorem all_isAlnum_normalizeTitle (a : Asker) (title : Bytes) :
    (c.normalizeTitle a title).all isAlnum = true := by
  cases a with
  | tv | movies => exact List.all_eq_true.mpr fun d hd => (List.mem_filter.mp hd).2

theorem always_blacklisted_iff (x : StubOf) :
    (∀ bl hash, c.isBlacklisted x.asker (c.unlink bl ⟨x, hash⟩) x.title = true) ↔
      c.normalizeTitle x.asker x.title = c.normalForm (deriveTitleFromPath (c.path x)) ∧
        c.normalizeTitle x.asker x.title ≠ [] := by
  simp only [isBlacklisted_iff, mem_titles_unlink]
  constructor
  · intro h
    exact (h ⟨∅, []⟩ []).resolve_left List.not_mem_nil
  · intro h bl _
    exact .inr h

theorem normalized_ne_of_normalizeTitle {title : Bytes} (h : c.tv.normalizeTitle title ≠ []) :
    c.tv.lowering.normalized title ≠ [] := by
  obtain ⟨d, hd⟩ := List.exists_mem_of_ne_nil _ h
  obtain ⟨hmem, halnum⟩ := List.mem_filter.mp hd
  have hlower := mem_of_mem_dropYears (mem_of_mem_replaceFrom _ hmem)
  exact List.ne_nil_of_mem (List.mem_filter.mpr ⟨hlower, halnum⟩)

theorem episode_recognised_iff (sh : TVShow) (season episode : Int64) (hash : InfoHash) :
    (c.tv.normalizeTitle sh.name =
        c.normalForm (deriveTitleFromPath (c.path (.episode sh season episode hash))) ∧
      c.tv.normalizeTitle sh.name ≠ []) ↔ c.Recognised (.episode sh season episode hash) := by
  constructor
  · rintro ⟨heq, hne⟩
    have hname := normalized_ne_of_normalizeTitle hne
    rw [stored_episode season episode hash hname] at heq
    -- the name and the folder have the same letters, so none can have been cut off
    have hletters : (c.normalForm (sanitizeName sh.name)).countP isLetter =
        (c.normalForm sh.name).countP isLetter := by
      have hsame := congrArg (List.countP isLetter) (c.tv.lowering.normalized_sanitizeName sh.isText)
      rw [Lowering.normalized, Lowering.normalized, countP_squeeze, countP_squeeze] at hsame
      rw [Installation.normalForm, Installation.normalForm, Lowering.normalForm, Lowering.normalForm,
        countP_squeeze, countP_squeeze, countP_dropYears, countP_dropYears, hsame]
    have hnone : c.NoQuality sh.name := by
      rw [noQuality_iff_countP, heq, hletters]
    have hform := normalizeTitle_eq_iff.mpr hnone
    exact ⟨⟨heq.symm.trans hform, hform ▸ hne⟩, hnone⟩
  · rintro ⟨⟨hfaithful, hne⟩, hnone⟩
    have hform := normalizeTitle_eq_iff.mpr hnone
    rw [stored_episode season episode hash (normalized_ne_of_normalForm hne), hfaithful, hform]
    exact ⟨rfl, hne⟩

theorem stored_of_faithful {x : StubOf} (h : c.Faithful x) :
    c.normalForm (deriveTitleFromPath (c.path x)) = c.normalForm x.title := by
  cases x with
  | episode sh season episode hash =>
    obtain ⟨hname, hne⟩ := h
    rw [stored_episode season episode hash (normalized_ne_of_normalForm hne), hname]
    rfl
  | film movie stream | wanted item candidate hash => exact h

theorem faithful_spreadShow {s : Bytes} (h : s.all isAlnum = true) (hne : s ≠ []) (season episode : Int64)
    (hash : InfoHash) : c.Faithful (.episode (spreadShow s h) season episode hash) := by
  have hname : sanitizeName (spread s) = spread s :=
    sanitizeName_of_plain fun d hd => (spread_spec h d hd).2
  refine ⟨congrArg c.normalForm hname, ?_⟩
  rw [spreadShow, normalForm_spread c h]
  exact hne

theorem never_blacklisted_iff (a : Asker) (title : Bytes) :
    (∀ removed : List Removal, (∀ r ∈ removed, c.Faithful r.stub) →
      (∀ r ∈ removed, c.normalForm r.stub.title ≠ c.normalForm title) →
        c.isBlacklisted a (run c.unlink ⟨∅, []⟩ removed) title = false) ↔
      c.normalizeTitle a title = c.normalForm title ∨ c.normalizeTitle a title = [] := by
  constructor
  · intro h
    by_contra hnot
    rw [not_or] at hnot
    obtain ⟨hother, hne⟩ := hnot
    -- a show with exactly the form that is looked for has been removed
    have hall := all_isAlnum_normalizeTitle (c := c) a title
    have hfaithful := faithful_spreadShow (c := c) hall hne 1 1 hashA
    have hform : c.normalForm (StubOf.episode (spreadShow _ hall) 1 1 hashA).title =
        c.normalizeTitle a title := normalForm_spread c hall
    have hfree := h [⟨.episode (spreadShow _ hall) 1 1 hashA, []⟩] (by simpa using hfaithful) (by
      simp only [List.mem_singleton, forall_eq, hform]
      exact hother)
    rw [Bool.eq_false_iff, Ne, isBlacklisted_iff, mem_titles_run] at hfree
    refine hfree (.inr ⟨_, List.mem_singleton_self _, ?_, hne⟩)
    rw [stored_of_faithful hfaithful, hform]
  · intro h removed hfaithful hother
    rw [Bool.eq_false_iff, Ne, isBlacklisted_iff, mem_titles_run]
    rintro (hmem | ⟨r, hr, heq, hne⟩)
    · cases hmem
    · have hform := h.resolve_right hne
      rw [stored_of_faithful (hfaithful r hr), hform] at heq
      exact hother r hr heq.symm

/-- When the blacklist finds removed titles and no others. -/
theorem blacklist_agreement_iff (c : Installation) :
    (∀ x : StubOf, (∀ bl hash, c.isBlacklisted x.asker (c.unlink bl ⟨x, hash⟩) x.title = true) ↔
      c.Recognised x) ∧
    ∀ (a : Asker) (title : Bytes), (∀ removed : List Removal, (∀ r ∈ removed, c.Faithful r.stub) →
      (∀ r ∈ removed, c.normalForm r.stub.title ≠ c.normalForm title) →
        c.isBlacklisted a (run c.unlink ⟨∅, []⟩ removed) title = false) ↔ c.Plain a title := by
  constructor
  · intro x
    rw [always_blacklisted_iff]
    cases x with
    | episode sh season episode hash => exact episode_recognised_iff sh season episode hash
    | film movie stream | wanted item candidate hash => exact Iff.rfl
  · intro a title
    rw [never_blacklisted_iff]
    cases a with
    | tv => exact or_congr_left normalizeTitle_eq_iff
    | movies => exact Iff.rfl

def homeLibrary : Installation where
  tv := tvSample
  movies := movieSample
  watchlist := ⟨.ascii, movieSample.baseURL, movieSample.moviesDir, .insertion⟩
  lowering_eq := rfl

theorem unlinked_film_not_blacklisted :
    homeLibrary.isBlacklisted .movies (homeLibrary.unlink ⟨∅, []⟩ ⟨.film film smallFilm, hashC.digits⟩) film.name =
        false ∧
      homeLibrary.isBlacklisted .movies (homeLibrary.unlink ⟨∅, []⟩ ⟨.film film smallFilm, hashC.digits⟩)
        (ascii "Movies") = true := by
  decide +kernel

end Agreement

end GoStream.Engines
