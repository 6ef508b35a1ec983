import GoStream.Engines.TV

/-!
# Torrents that the TV engine removes
-/

namespace GoStream.Engines

open Foundations Regex AutoRemove

def inUse (registry : Dict Bytes TVEpisodeEntry) (hash : InfoHash) : Bool :=
  registry.items.any fun e => e.2.hash = hash.digits

structure TorrentUse where
  tv : TVState
  lost : List InfoHash

def TorrentUse.step (c : TVConfig) (s : TorrentUse) : EngineOp → TorrentUse
  | .process job =>
    let r := s.tv.process c job
    ⟨r.state, (r.dropped.filter (inUse r.state.registry)).toList ++ s.lost⟩
  | op => { s with tv := s.tv.engineStep c op }

def Creation.Succeeds (x : Creation) (c : TVConfig) (s : TVState) : Prop :=
  s.processedThisRun.contains (x.key c) = false ∧ s.keeps (x.key c) x.score = false ∧
    x.write = .done

def Fruitful (c : TVConfig) (s : TVState) : Job → Prop
  | .fullpack sh stream answers => ∀ hash, answers.added = some hash →
      inUse s.registry hash = true → ∃ files, answers.info = some files ∧ ∃ f ∈ files,
        c.passes stream stream.packResolution f.1 = true ∧
          ∃ x, packEpisode sh stream answers hash f = some x ∧ x.Succeeds c s
  | .single sh stream answers => ∀ k, reTVEpNum.submatch stream.title = some k →
      s.processedThisRun.contains (c.key sh stream.season (atoi (groupText k 2))) = false →
      s.keeps (c.key sh stream.season (atoi (groupText k 2))) stream.qualityScore = false →
      ∀ hash, answers.added = some hash → inUse s.registry hash = true →
        ∃ files, answers.info = some files ∧
          ∃ f ∈ files, c.passes stream stream.rank.resolution f.1 = true

def FruitfulStep (c : TVConfig) (s : TorrentUse) : EngineOp → Prop
  | .process job => Fruitful c s.tv job
  | _ => True

section Drops

variable {c : TVConfig} {sh : TVShow} {stream : TVStream} {answers : Answers} {hash : InfoHash}

theorem packEpisode_score {f : FileStat × Write} {x : Creation}
    (h : packEpisode sh stream answers hash f = some x) : x.score = stream.qualityScore := by
  unfold packEpisode at h
  dsimp only at h
  split_ifs at h
  obtain rfl := Option.some.inj h
  rfl

def Yields (c : TVConfig) (sh : TVShow) (stream : TVStream) (answers : Answers) (hash : InfoHash)
    (s : TVState) (f : FileStat × Write) : Prop :=
  ∃ x, packEpisode sh stream answers hash f = some x ∧ x.Succeeds c s

theorem processFile_of_not_yields {acc : TVState × ℕ} {f : FileStat × Write}
    (h : ¬ Yields c sh stream answers hash acc.1 f) :
    (TVState.processFile c sh stream answers hash acc f).2 = acc.2 ∧
      (TVState.processFile c sh stream answers hash acc f).1.registry = acc.1.registry ∧
      ∀ g, Yields c sh stream answers hash (TVState.processFile c sh stream answers hash acc f).1 g ↔
        Yields c sh stream answers hash acc.1 g := by
  unfold TVState.processFile
  cases hx : packEpisode sh stream answers hash f with
  | none => exact ⟨rfl, rfl, fun _ => Iff.rfl⟩
  | some x =>
    dsimp only
    rcases attempt_cases c x acc.1 with ⟨-, heq⟩ | ⟨hkeeps, heq⟩ | ⟨hprocessed, hkeeps, heq⟩
    · rw [heq]
      exact ⟨rfl, rfl, fun _ => Iff.rfl⟩
    · rw [heq]
      refine ⟨rfl, rfl, fun g => exists_congr fun y => and_congr_right fun hy => ?_⟩
      -- A file with the same key is not written either, since the score is the same.
      have hkey : acc.1.keeps (y.key c) y.score = false → y.key c ≠ x.key c := by
        intro hkeeps' hsame
        rw [hsame, packEpisode_score hy, ← packEpisode_score hx, hkeeps] at hkeeps'
        cases hkeeps'
      simp only [Creation.Succeeds, TVState.mark, List.contains_cons, Bool.or_eq_false_iff,
        beq_eq_false_iff_ne]
      constructor
      · rintro ⟨⟨-, hprocessed⟩, hrest⟩
        exact ⟨hprocessed, hrest⟩
      · rintro ⟨hprocessed, hkeeps', hdone⟩
        exact ⟨⟨hkey hkeeps', hprocessed⟩, hkeeps', hdone⟩
    · have hdone : x.write ≠ .done := fun hdone => h ⟨x, hx, hprocessed, hkeeps, hdone⟩
      obtain ⟨files, hwrite⟩ := writeEpisode_of_ne_done (c := c) (s := acc.1) hdone
      rw [heq, hwrite]
      exact ⟨if_neg (by simpa using hdone), rfl, fun _ => Iff.rfl⟩

theorem le_processFile (acc : TVState × ℕ) (f : FileStat × Write) :
    acc.2 ≤ (TVState.processFile c sh stream answers hash acc f).2 := by
  unfold TVState.processFile
  cases packEpisode sh stream answers hash f with
  | none => exact le_rfl
  | some x =>
    dsimp only
    split_ifs
    · exact Nat.le_succ _
    · exact le_rfl

theorem le_foldl_processFile (l : List (FileStat × Write)) (acc : TVState × ℕ) :
    acc.2 ≤ (l.foldl (TVState.processFile c sh stream answers hash) acc).2 := by
  induction l generalizing acc with
  | nil => exact le_rfl
  | cons f l ih => exact (le_processFile acc f).trans (ih _)

theorem processFile_of_yields {acc : TVState × ℕ} {f : FileStat × Write}
    (h : Yields c sh stream answers hash acc.1 f) :
    (TVState.processFile c sh stream answers hash acc f).2 = acc.2 + 1 := by
  obtain ⟨x, hx, hprocessed, hkeeps, hdone⟩ := h
  simp only [TVState.processFile, hx, attempt_eq_writeEpisode hprocessed hkeeps, writeEpisode_snd]
  rw [if_pos (by simpa using hdone)]

theorem foldl_processFile_spec (l : List (FileStat × Write)) (acc : TVState × ℕ) :
    ((∃ f ∈ l, Yields c sh stream answers hash acc.1 f) →
      acc.2 < (l.foldl (TVState.processFile c sh stream answers hash) acc).2) ∧
    ((∀ f ∈ l, ¬ Yields c sh stream answers hash acc.1 f) →
      (l.foldl (TVState.processFile c sh stream answers hash) acc).2 = acc.2 ∧
      (l.foldl (TVState.processFile c sh stream answers hash) acc).1.registry = acc.1.registry) := by
  induction l generalizing acc with
  | nil => exact ⟨fun ⟨f, hf, _⟩ => absurd hf List.not_mem_nil, fun _ => ⟨rfl, rfl⟩⟩
  | cons f l ih =>
    rw [List.foldl_cons]
    by_cases hf : Yields c sh stream answers hash acc.1 f
    · refine ⟨fun _ => ?_, fun h => absurd hf (h f List.mem_cons_self)⟩
      calc acc.2 < (TVState.processFile c sh stream answers hash acc f).2 := by
            rw [processFile_of_yields hf]
            exact Nat.lt_succ_self _
        _ ≤ _ := le_foldl_processFile l _
    · obtain ⟨hcount, hregistry, hyields⟩ := processFile_of_not_yields hf
      have hl := ih (TVState.processFile c sh stream answers hash acc f)
      rw [hcount, hregistry] at hl
      constructor
      · rintro ⟨g, hg, hgives⟩
        rcases List.mem_cons.mp hg with rfl | hg
        · exact absurd hgives hf
        · exact hl.1 ⟨g, hg, (hyields g).mpr hgives⟩
      · intro hnone
        exact hl.2 fun g hg hgives => hnone g (List.mem_cons_of_mem _ hg) ((hyields g).mp hgives)

theorem spares_iff {r : Processed} {registry : Dict Bytes TVEpisodeEntry} {useful : Prop}
    (hkept : useful → r.dropped = none)
    (hdropped : ¬ useful → r.dropped = some hash ∧ r.state.registry = registry) :
    r.dropped.filter (inUse r.state.registry) = none ↔ (inUse registry hash = true → useful) := by
  by_cases huseful : useful
  · rw [hkept huseful]
    exact iff_of_true rfl fun _ => huseful
  · obtain ⟨hhash, hregistry⟩ := hdropped huseful
    rw [hhash, hregistry, Option.filter_some]
    split_ifs with hused
    · simp [hused, huseful]
    · simp [hused]

theorem fullpack_spares_iff {s : TVState} :
    (s.processFullpack c sh stream answers).dropped.filter
      (inUse (s.processFullpack c sh stream answers).state.registry) = none ↔
      Fruitful c s (.fullpack sh stream answers) := by
  simp only [Fruitful]
  cases hadded : answers.added with
  | none => simp [TVState.processFullpack, hadded]
  | some hash =>
    have hforall : ∀ {P : InfoHash → Prop}, (∀ h, some hash = some h → P h) ↔ P hash :=
      ⟨fun h => h hash rfl, fun h _ heq => Option.some.inj heq ▸ h⟩
    rw [hforall]
    apply spares_iff
    · rintro ⟨files, hinfo, f, hf, hpasses, hgives⟩
      have hmem : f ∈ files.filter fun f => c.passes stream stream.packResolution f.1 :=
        List.mem_filter.mpr ⟨hf, hpasses⟩
      have hcount := (foldl_processFile_spec _ (s, 0)).1 ⟨f, hmem, hgives⟩
      simp only [TVState.processFullpack, hadded, hinfo]
      rw [if_neg (by simpa using ⟨f.1, ⟨f.2, hf⟩, hpasses⟩), if_neg (Nat.ne_of_gt hcount)]
    · intro hnone
      simp only [TVState.processFullpack, hadded]
      cases hinfo : answers.info with
      | none => exact ⟨rfl, rfl⟩
      | some files =>
        obtain ⟨hcount, hregistry⟩ := (foldl_processFile_spec
          (files.filter fun f => c.passes stream stream.packResolution f.1) (s, 0)).2
            fun f hf hgives => hnone
              ⟨files, hinfo, f, (List.mem_filter.mp hf).1, (List.mem_filter.mp hf).2, hgives⟩
        dsimp only
        rw [if_pos hcount]
        split_ifs
        · exact ⟨rfl, rfl⟩
        · exact ⟨rfl, hregistry⟩

theorem singleEpisode_eq_none {files : List (FileStat × Write)} {episode : Int64} :
    singleEpisode c sh stream answers episode hash files = none ↔
      ¬ ∃ f ∈ files, c.passes stream stream.rank.resolution f.1 = true := by
  have hfold : ∀ (l : List (FileStat × Write)) best,
      l.foldl bestFile best = none ↔ best = none ∧ l = [] := by
    intro l
    induction l with
    | nil => simp
    | cons f l ih =>
      intro best
      rw [List.foldl_cons, ih]
      cases best with
      | none => simp [bestFile]
      | some b =>
        simp only [bestFile]
        split_ifs <;> simp
  rw [singleEpisode, Option.map_eq_none_iff, hfold]
  simp

theorem single_spares_iff {s : TVState} :
    (s.processSingle c sh stream answers).dropped.filter
      (inUse (s.processSingle c sh stream answers).state.registry) = none ↔
      Fruitful c s (.single sh stream answers) := by
  simp only [Fruitful]
  cases htitle : reTVEpNum.submatch stream.title with
  | none => simp [TVState.processSingle, htitle]
  | some k =>
    by_cases hguards : s.processedThisRun.contains (c.key sh stream.season (atoi (groupText k 2))) = false ∧
        s.keeps (c.key sh stream.season (atoi (groupText k 2))) stream.qualityScore = false
    · cases hadded : answers.added with
      | none => simp [TVState.processSingle, htitle, hguards, hadded]
      | some hash =>
        have hforall : (∀ k', some k = some k' →
            s.processedThisRun.contains (c.key sh stream.season (atoi (groupText k' 2))) = false →
            s.keeps (c.key sh stream.season (atoi (groupText k' 2))) stream.qualityScore = false →
            ∀ h, some hash = some h → inUse s.registry h = true → ∃ files, answers.info = some files ∧
              ∃ f ∈ files, c.passes stream stream.rank.resolution f.1 = true) ↔
            (inUse s.registry hash = true → ∃ files, answers.info = some files ∧
              ∃ f ∈ files, c.passes stream stream.rank.resolution f.1 = true) := by
          constructor
          · exact fun h => h k rfl hguards.1 hguards.2 hash rfl
          · rintro h _ _ _ _ _ heq
            exact Option.some.inj heq ▸ h
        rw [hforall]
        apply spares_iff
        · rintro ⟨files, hinfo, hfile⟩
          obtain ⟨x, hx⟩ : ∃ x,
              singleEpisode c sh stream answers (atoi (groupText k 2)) hash files = some x := by
            rw [← Option.ne_none_iff_exists']
            exact fun hnone => singleEpisode_eq_none.mp hnone hfile
          simp only [TVState.processSingle, htitle, hguards.1, hguards.2, hadded, hinfo, hx,
            Bool.false_eq_true, if_false]
        · intro hnone
          simp only [TVState.processSingle, htitle, hguards.1, hguards.2, hadded,
            Bool.false_eq_true, if_false]
          cases hinfo : answers.info with
          | none => exact ⟨rfl, rfl⟩
          | some files =>
            have hx : singleEpisode c sh stream answers (atoi (groupText k 2)) hash files = none :=
              singleEpisode_eq_none.mpr fun hfile => hnone ⟨files, hinfo, hfile⟩
            dsimp only
            rw [hx]
            exact ⟨rfl, rfl⟩
    · have hnone : (s.processSingle c sh stream answers).dropped = none := by
        simp only [TVState.processSingle, htitle]
        split_ifs with hprocessed hkeeps
        · rfl
        · rfl
        · exact absurd ⟨eq_false_of_ne_true hprocessed, eq_false_of_ne_true hkeeps⟩ hguards
      rw [hnone]
      refine iff_of_true rfl ?_
      rintro k' heq hprocessed hkeeps
      obtain rfl := Option.some.inj heq
      exact absurd ⟨hprocessed, hkeeps⟩ hguards

theorem lost_torrents_step_iff {s : TorrentUse} (hs : s.lost = []) (op : EngineOp) :
    (TorrentUse.step c s op).lost = [] ↔ FruitfulStep c s op := by
  cases op with
  | process job =>
    simp only [TorrentUse.step, FruitfulStep, hs, List.append_nil, Option.toList_eq_nil_iff]
    cases job with
    | fullpack sh stream answers => exact fullpack_spares_iff
    | single sh stream answers => exact single_spares_iff
  | populate order torrents modTime | cleanup order | disk files | restart saved =>
    exact iff_of_true hs trivial

end Drops

/-- When no registered torrent is removed. -/
theorem torrents_in_use_kept_iff (c : TVConfig) (s : TVState) (ops : List EngineOp) :
    (∀ pre, pre <+: ops → (run (TorrentUse.step c) ⟨s, []⟩ pre).lost = []) ↔
      Meets (FruitfulStep c) (TorrentUse.step c) ⟨s, []⟩ ops :=
  good_iff_meets (fun s : TorrentUse => s.lost = []) (fun _ op hs => lost_torrents_step_iff hs op)
    rfl ops

theorem registered_pack_dropped :
    ¬ ∀ pre, pre <+: List.replicate 2
        (EngineOp.process (.fullpack showLost (pilotStream 300000) (goodAnswers hashA))) →
      (run (TorrentUse.step tvSample) ⟨⟨∅, [], ∅⟩, []⟩ pre).lost = [] := by
  intro h
  exact absurd (h _ (List.prefix_refl _)) (by decide +kernel)

def stubURL (data : Bytes) : Option Bytes :=
  if ([123] : Bytes).isPrefixOf (trimSpace data) then
    (Json.parse data).map fun obj => obj.stringField (ascii "url")
  else some ((trimSpace data).takeWhile (· ≠ 10))

def diskHash (data : Bytes) : Option Bytes :=
  (stubURL data).bind fun url => (reTVHashURL.submatch url).map (groupText · 1)

def reTVSeries : Regex :=
  oneOf [inOrder [foldByte 115, plus digit, foldByte 101, plus digit], fold (ascii "season"),
    fold (ascii "episode")]

def TVConfig.cleanupOrphanedTorrents (c : TVConfig) (order : MapOrder)
    (registry : Dict Bytes TVEpisodeEntry) (files : Files) (torrents : List TorrentStats) :
    List Bytes :=
  let registryHashes := registry.items.map fun e => c.lowering.lower e.2.hash
  let diskHashes := (c.walk order files).filterMap fun f => (diskHash f.2).map c.lowering.lower
  torrents.filterMap fun t =>
    let h := c.lowering.lower t.hash
    if h = [] then none
    else if !reTVSeries.matchString t.title then none
    else if registryHashes.contains h || diskHashes.contains h then none
    else some h

def LinksTo (data hash : Bytes) : Prop :=
  ∃ url, stubURL data = some url ∧ ∃ u digits v, url = u ++ ascii "link=" ++ digits ++ v ∧
    digits.length = 40 ∧ asciiLower digits = hash

section Owners

variable (c : TVConfig) (moviesDir : Bytes) (registry : Dict Bytes TVEpisodeEntry) (files : Files)

def TVConfig.inLibrary (path : Bytes) : Bool :=
  c.isStub path || ((moviesDir ++ [47]).isPrefixOf path &&
    (ascii ".mkv").isSuffixOf (c.lowering.lower path))

def LinkedInLibrary (hash : Bytes) : Prop :=
  ∃ path data, files.lookup path = some data ∧ c.inLibrary moviesDir path = true ∧ LinksTo data hash

def Registered (hash : Bytes) : Prop :=
  ∃ key entry, registry.lookup key = some entry ∧ c.lowering.lower entry.hash = hash

def NamedOnDisk (hash : Bytes) : Prop :=
  ∃ path data, files.lookup path = some data ∧ c.isStub path = true ∧
    ∃ digits, diskHash data = some digits ∧ c.lowering.lower digits = hash

variable {c moviesDir registry files}

theorem mem_cleanupOrphanedTorrents {order : MapOrder} {torrents : List TorrentStats} {h : Bytes} :
    h ∈ c.cleanupOrphanedTorrents order registry files torrents ↔
      ∃ t ∈ torrents, c.lowering.lower t.hash = h ∧ h ≠ [] ∧ reTVSeries.matchString t.title = true ∧
        ¬ Registered c registry h ∧ ¬ NamedOnDisk c files h := by
  have hregistry : ∀ h, (registry.items.map fun e => c.lowering.lower e.2.hash).contains h = true ↔
      Registered c registry h := by
    intro h
    rw [List.contains_iff_mem, List.mem_map]
    constructor
    · rintro ⟨⟨key, entry⟩, hmem, rfl⟩
      exact ⟨key, entry, Dict.mem_items.mp hmem, rfl⟩
    · rintro ⟨key, entry, hentry, rfl⟩
      exact ⟨(key, entry), Dict.mem_items.mpr hentry, rfl⟩
  have hdisk : ∀ h, ((c.walk order files).filterMap fun f =>
      (diskHash f.2).map c.lowering.lower).contains h = true ↔ NamedOnDisk c files h := by
    intro h
    rw [List.contains_iff_mem, List.mem_filterMap]
    constructor
    · rintro ⟨f, hf, hh⟩
      obtain ⟨digits, hdigits, rfl⟩ := Option.map_eq_some_iff.mp hh
      obtain ⟨hlookup, hstub⟩ := mem_walk.mp hf
      exact ⟨f.1, f.2, hlookup, hstub, digits, hdigits, rfl⟩
    · rintro ⟨path, data, hlookup, hstub, digits, hdigits, rfl⟩
      exact ⟨(path, data), mem_walk.mpr ⟨hlookup, hstub⟩, by rw [hdigits]; rfl⟩
  simp only [TVConfig.cleanupOrphanedTorrents, List.mem_filterMap]
  constructor
  · rintro ⟨t, ht, hh⟩
    split_ifs at hh with hempty htitle howned
    obtain rfl := Option.some.inj hh
    rw [Bool.or_eq_true, hregistry, hdisk, not_or] at howned
    exact ⟨t, ht, rfl, hempty, by simpa using htitle, howned⟩
  · rintro ⟨t, ht, rfl, hempty, htitle, howned⟩
    refine ⟨t, ht, ?_⟩
    rw [if_neg hempty, if_neg (by simp [htitle]), if_neg]
    rw [Bool.or_eq_true, hregistry, hdisk, not_or]
    exact howned

/-- When no torrent that is referred to is removed. -/
theorem referenced_torrents_kept_iff (c : TVConfig) (moviesDir : Bytes) (order : MapOrder)
    (registry : Dict Bytes TVEpisodeEntry) (files : Files) (torrents : List TorrentStats) :
    (∀ h ∈ c.cleanupOrphanedTorrents order registry files torrents,
      ¬ LinkedInLibrary c moviesDir files h ∧ ¬ Registered c registry h) ↔
      ∀ t ∈ torrents, c.lowering.lower t.hash ≠ [] → reTVSeries.matchString t.title = true →
        LinkedInLibrary c moviesDir files (c.lowering.lower t.hash) →
        Registered c registry (c.lowering.lower t.hash) ∨
          NamedOnDisk c files (c.lowering.lower t.hash) := by
  constructor
  · intro h t ht hempty htitle hlinked
    by_contra howned
    rw [not_or] at howned
    exact (h _ (mem_cleanupOrphanedTorrents.mpr ⟨t, ht, rfl, hempty, htitle, howned⟩)).1 hlinked
  · intro h hash hmem
    obtain ⟨t, ht, rfl, hempty, htitle, hreg, hdisk⟩ := mem_cleanupOrphanedTorrents.mp hmem
    refine ⟨fun hlinked => ?_, hreg⟩
    exact (h t ht hempty htitle hlinked).elim hreg hdisk

def filmLibrary : Files :=
  AList.singleton (ascii "/movies/Open_Season_2006_aaaaaaaa.mkv")
    (stubContent (streamURL (ascii "http://localhost:8090") hashA 1) 1900000000 [] [])

theorem torrent_of_film_removed :
    ¬ ∀ h ∈ tvSample.cleanupOrphanedTorrents .listed ∅ filmLibrary
        [⟨hashA.digits, ascii "Open Season (2006) 1080p"⟩],
      ¬ LinkedInLibrary tvSample (ascii "/movies") filmLibrary h ∧ ¬ Registered tvSample ∅ h := by
  intro h
  apply (h hashA.digits (by decide +kernel)).1
  refine ⟨ascii "/movies/Open_Season_2006_aaaaaaaa.mkv",
    stubContent (streamURL (ascii "http://localhost:8090") hashA 1) 1900000000 [] [],
    by decide +kernel, by decide +kernel, streamURL (ascii "http://localhost:8090") hashA 1,
    by decide +kernel, ascii "http://localhost:8090/stream?", hashA.digits, ascii "&index=1&play",
    by decide +kernel, rfl, by decide⟩

end Owners

end GoStream.Engines
