import GoStream.Engines.GoStorm
import GoStream.Foundations.Run
import GoStream.Quality.Streaming

/-!
# The engine for TV shows
-/

namespace GoStream.Engines

open Foundations Regex Inodes AutoRemove Quality

structure TVShow where
  name : Bytes
  firstAirDate : Bytes
  isText : isText name = true
  year : (yearOf firstAirDate).all isDecimal = true
  deriving DecidableEq

structure TVEpisodeEntry where
  qualityScore : ℤ
  hash : Bytes
  filePath : Bytes
  source : Bytes
  created : ℤ
  deriving DecidableEq

structure TVConfig where
  lowering : Lowering
  baseURL : Bytes
  tvDir : Bytes
  tvDir_ne : tvDir ≠ []

structure TVStream where
  title : Bytes
  hash : Bytes
  is1080p : Bool
  is720p : Bool
  is480p : Bool
  qualityScore : ℤ
  season : Int64
  seeders : ℤ
  rank : StreamingRank

structure TVState where
  registry : Dict Bytes TVEpisodeEntry
  processedThisRun : List Bytes
  files : Files

def TVConfig.isStub (c : TVConfig) (path : Bytes) : Bool :=
  (c.tvDir ++ [47]).isPrefixOf path && (ascii ".mkv").isSuffixOf (c.lowering.lower path)

def TVConfig.walk (c : TVConfig) (order : MapOrder) (files : Files) : List (Bytes × Bytes) :=
  order.arrange (files.items.filter fun f => c.isStub f.1)

def registryByPath (registry : Dict Bytes TVEpisodeEntry) (path : Bytes) : Bool :=
  registry.items.any fun e => e.2.filePath = path

def readHashFromMKV (data : Bytes) : Bytes :=
  if 10240 < data.length then []
  else if ([123] : Bytes).isPrefixOf (trimSpace data) then
    match Json.parse (trimSpace data) with
    | none => []
    | some obj => ((reTVHashURL.submatch (obj.stringField (ascii "url"))).map (groupText · 1)).getD []
  else []

def fullHash (torrents : List TorrentStats) (hash8 data : Bytes) : Bytes :=
  if readHashFromMKV data ≠ [] then readHashFromMKV data
  else
    match torrents.find? fun t => hash8.isPrefixOf t.hash with
    | some t => if t.hash ≠ [] then t.hash else hash8
    | none => hash8

def TVConfig.existingKey (c : TVConfig) (path : Bytes) : Option Bytes :=
  (parseFileName (filepathBase path)).map fun x =>
    c.lowering.episodeKey x.showName [] x.season x.episode

def TVConfig.populateFile (c : TVConfig) (torrents : List TorrentStats) (modTime : Bytes → ℤ)
    (registry : Dict Bytes TVEpisodeEntry) (f : Bytes × Bytes) : Dict Bytes TVEpisodeEntry :=
  if registryByPath registry f.1 then registry
  else
    match parseFileName (filepathBase f.1) with
    | none => registry
    | some x =>
      let key := c.lowering.episodeKey x.showName [] x.season x.episode
      if (registry.lookup key).isSome then registry
      else
        AList.insert key ⟨1, fullHash torrents x.hash8 f.2, f.1, ascii "existing", modTime f.1⟩
          registry

def TVConfig.populateRegistryFromExisting (c : TVConfig) (order : MapOrder)
    (torrents : List TorrentStats) (modTime : Bytes → ℤ) (s : TVState) : TVState :=
  { s with registry := (c.walk order s.files).foldl (c.populateFile torrents modTime) s.registry }

def TVConfig.cleanupOrphanedFiles (c : TVConfig) (order : MapOrder)
    (registry : Dict Bytes TVEpisodeEntry) (files : Files) : Files :=
  (c.walk order files).foldl
    (fun files f => if registryByPath registry f.1 then files else AList.erase f.1 files) files

def tvMinEpisodeSize : ℤ := 214748364

def TVConfig.isVideoFile (c : TVConfig) (path : Bytes) : Bool :=
  [".mkv", ".mp4", ".avi", ".mov", ".m4v"].any fun ext =>
    c.lowering.lower (filepathExt path) = ascii ext

def TVConfig.passes (c : TVConfig) (stream : TVStream) (fallback : Resolution) (f : FileStat) : Bool :=
  let title := stream.title ++ 32 :: f.path
  c.isVideoFile f.path && tvMinEpisodeSize ≤ f.length.toInt &&
    (rankExactStreamingFile
      { hash := stream.hash
        title := title
        mediaType := .tv
        resolution := if detectResolution title = .unknown then fallback else detectResolution title
        sizeGB := fileSizeGB f.length.toInt
        seeders := stream.seeders
        isPack := false
        estimatedEpisodeCount := 0 } tvStreamingPolicy).isSome

def TVStream.packResolution (stream : TVStream) : Resolution :=
  if stream.is480p then .res480p
  else if stream.is720p then .res720p
  else if stream.is1080p then .res1080p
  else stream.rank.resolution

def reTVEpNum : Regex :=
  inOrder [cls fun c => c = 83 || c = 115, .group 1 (plus digit), cls fun c => c = 69 || c = 101,
    .group 2 (plus digit)]

def reTV1xEp : Regex := inOrder [.group 1 (plus digit), .byte 120, .group 2 (plus digit)]

def extractEpisodeFromFilename (filename : Bytes) : Int64 × Int64 :=
  match reTVEpNum.submatch filename with
  | some k => (atoi (groupText k 1), atoi (groupText k 2))
  | none =>
    match reTV1xEp.submatch filename with
    | some k => (atoi (groupText k 1), atoi (groupText k 2))
    | none => (0, 0)

structure Creation where
  sh : TVShow
  season : Int64
  episode : Int64
  score : ℤ
  hash : InfoHash
  magnet : Bytes
  file : FileStat
  source : Bytes
  now : ℤ
  write : Write
  deriving DecidableEq

def TVConfig.key (c : TVConfig) (sh : TVShow) (season episode : Int64) : Bytes :=
  c.lowering.episodeKey sh.name sh.firstAirDate season episode

def TVConfig.path (c : TVConfig) (sh : TVShow) (season episode : Int64) (hash : InfoHash) : Bytes :=
  stubPath c.tvDir sh.name sh.firstAirDate season episode (hash8 hash)

namespace Creation

variable (x : Creation) (c : TVConfig)

def key : Bytes := c.key x.sh x.season x.episode

def epPath : Bytes := c.path x.sh x.season x.episode x.hash

def content : Bytes := stubContent (streamURL c.baseURL x.hash x.file.id.toInt) x.file.length x.magnet []

def entry : TVEpisodeEntry := ⟨x.score, x.hash.digits, x.epPath c, x.source, x.now⟩

end Creation

def noUpgrade (score existing : ℤ) : Bool :=
  Float64.round score ≤ Float64.mul (Float64.round existing) (Float64.round (6 / 5))

def TVState.keeps (s : TVState) (key : Bytes) (score : ℤ) : Bool :=
  match s.registry.lookup key with
  | some existing => noUpgrade score existing.qualityScore
  | none => false

def TVState.replaced (s : TVState) (key epPath : Bytes) : Option Bytes :=
  match s.registry.lookup key with
  | some existing =>
    if existing.filePath ≠ [] ∧ existing.filePath ≠ epPath then some existing.filePath else none
  | none => none

def TVState.writeEpisode (c : TVConfig) (x : Creation) (s : TVState) : TVState × Bool :=
  let written := createMKV s.files (x.epPath c) (x.content c) x.write
  if written.2 then
    ({ registry := AList.insert (x.key c) (x.entry c) s.registry
       processedThisRun := x.key c :: s.processedThisRun
       files :=
        match s.replaced (x.key c) (x.epPath c) with
        | some old => AList.erase old written.1
        | none => written.1 }, true)
  else ({ s with files := written.1 }, false)

def TVState.mark (key : Bytes) (s : TVState) : TVState :=
  { s with processedThisRun := key :: s.processedThisRun }

def TVState.attempt (c : TVConfig) (x : Creation) (s : TVState) : TVState × Bool :=
  if s.processedThisRun.contains (x.key c) then (s, false)
  else if s.keeps (x.key c) x.score then (s.mark (x.key c), false)
  else s.writeEpisode c x

structure Answers where
  added : Option InfoHash
  info : Option (List (FileStat × Write))
  now : ℤ

structure Processed where
  state : TVState
  created : ℕ
  dropped : Option InfoHash

section Streams

variable (c : TVConfig) (sh : TVShow) (stream : TVStream) (answers : Answers)

def TVStream.magnet : Bytes := buildMagnet stream.hash stream.title defaultTrackers

def packEpisode (hash : InfoHash) (f : FileStat × Write) : Option Creation :=
  let ep := extractEpisodeFromFilename (filepathBase f.1.path)
  if ep = (0, 0) then none
  else some ⟨sh, ep.1, ep.2, stream.qualityScore, hash, stream.magnet, f.1, ascii "fullpack",
    answers.now, f.2⟩

def TVState.processFile (hash : InfoHash) (acc : TVState × ℕ) (f : FileStat × Write) : TVState × ℕ :=
  match packEpisode sh stream answers hash f with
  | none => acc
  | some x =>
    let r := acc.1.attempt c x
    (r.1, if r.2 then acc.2 + 1 else acc.2)

def TVState.processFullpack (s : TVState) : Processed :=
  match answers.added with
  | none => ⟨s, 0, none⟩
  | some hash =>
    match answers.info with
    | none => ⟨s, 0, some hash⟩
    | some files =>
      let videoFiles := files.filter fun f => c.passes stream stream.packResolution f.1
      if videoFiles.isEmpty then ⟨s, 0, some hash⟩
      else
        let r := videoFiles.foldl (processFile c sh stream answers hash) (s, 0)
        ⟨r.1, r.2, if r.2 = 0 then some hash else none⟩

def bestFile (best : Option (FileStat × Write)) (f : FileStat × Write) : Option (FileStat × Write) :=
  match best with
  | none => some f
  | some b => if b.1.length < f.1.length then some f else some b

def singleEpisode (episode : Int64) (hash : InfoHash) (files : List (FileStat × Write)) :
    Option Creation :=
  ((files.filter fun f => c.passes stream stream.rank.resolution f.1).foldl bestFile none).map fun f =>
    ⟨sh, stream.season, episode, stream.qualityScore, hash, stream.magnet, f.1, ascii "single",
      answers.now, f.2⟩

def TVState.processSingle (s : TVState) : Processed :=
  match reTVEpNum.submatch stream.title with
  | none => ⟨s, 0, none⟩
  | some k =>
    let episode := atoi (groupText k 2)
    let key := c.key sh stream.season episode
    if s.processedThisRun.contains key then ⟨s, 0, none⟩
    else if s.keeps key stream.qualityScore then ⟨s.mark key, 0, none⟩
    else
      match answers.added with
      | none => ⟨s, 0, none⟩
      | some hash =>
        match answers.info with
        | none => ⟨s, 0, some hash⟩
        | some files =>
          match singleEpisode c sh stream answers episode hash files with
          | none => ⟨s, 0, some hash⟩
          | some x =>
            let r := s.writeEpisode c x
            ⟨r.1, if r.2 then 1 else 0, none⟩

end Streams

inductive Job
  | fullpack (sh : TVShow) (stream : TVStream) (answers : Answers)
  | single (sh : TVShow) (stream : TVStream) (answers : Answers)

def Job.sh : Job → TVShow
  | .fullpack sh _ _ => sh
  | .single sh _ _ => sh

def Job.stream : Job → TVStream
  | .fullpack _ stream _ => stream
  | .single _ stream _ => stream

def Job.answers : Job → Answers
  | .fullpack _ _ answers => answers
  | .single _ _ answers => answers

def TVState.process (c : TVConfig) (s : TVState) : Job → Processed
  | .fullpack sh stream answers => s.processFullpack c sh stream answers
  | .single sh stream answers => s.processSingle c sh stream answers

section Directory

variable {c : TVConfig} {order : MapOrder} {files : Files} {registry : Dict Bytes TVEpisodeEntry}

theorem registryByPath_iff {path : Bytes} : registryByPath registry path = true ↔
    ∃ key entry, registry.lookup key = some entry ∧ entry.filePath = path := by
  rw [registryByPath, List.any_eq_true]
  constructor
  · rintro ⟨⟨key, entry⟩, hmem, hpath⟩
    exact ⟨key, entry, Dict.mem_items.mp hmem, by simpa using hpath⟩
  · rintro ⟨key, entry, hentry, hpath⟩
    exact ⟨(key, entry), Dict.mem_items.mpr hentry, by simpa using hpath⟩

theorem mem_walk {f : Bytes × Bytes} :
    f ∈ c.walk order files ↔ files.lookup f.1 = some f.2 ∧ c.isStub f.1 = true :=
  mem_stubsBelow

theorem any_walk {path : Bytes} : ((c.walk order files).any fun f => f.1 = path) = true ↔
    (files.lookup path).isSome = true ∧ c.isStub path = true := by
  rw [List.any_eq_true, Option.isSome_iff_exists]
  constructor
  · rintro ⟨f, hf, hpath⟩
    obtain rfl : f.1 = path := by simpa using hpath
    obtain ⟨hlookup, hstub⟩ := mem_walk.mp hf
    exact ⟨⟨f.2, hlookup⟩, hstub⟩
  · rintro ⟨⟨data, hlookup⟩, hstub⟩
    exact ⟨(path, data), mem_walk.mpr ⟨hlookup, hstub⟩, by simp⟩

theorem lookup_cleanupOrphanedFiles (path : Bytes) :
    AList.lookup path (c.cleanupOrphanedFiles order registry files) =
      if c.isStub path = true ∧ registryByPath registry path = false then none
      else files.lookup path := by
  rw [TVConfig.cleanupOrphanedFiles, Dict.lookup_foldl_erase,
    if_congr (and_congr_right fun _ => any_walk) rfl rfl]
  by_cases hstub : c.isStub path = true ∧ registryByPath registry path = false
  · rw [if_pos hstub]
    cases hfile : files.lookup path with
    | none => simp
    | some data => simp [hstub.1, hstub.2]
  · rw [if_neg hstub, if_neg]
    rintro ⟨hreg, -, hs⟩
    exact hstub ⟨hs, hreg⟩

variable {torrents : List TorrentStats} {modTime : Bytes → ℤ} {s : TVState}

theorem populate_induct {P : Dict Bytes TVEpisodeEntry → Prop}
    (hadd : ∀ registry f x entry, f ∈ c.walk order s.files → registryByPath registry f.1 = false →
      parseFileName (filepathBase f.1) = some x →
      registry.lookup (c.lowering.episodeKey x.showName [] x.season x.episode) = none →
      entry.filePath = f.1 → P registry →
      P (AList.insert (c.lowering.episodeKey x.showName [] x.season x.episode) entry registry))
    (hs : P s.registry) :
    P (c.populateRegistryFromExisting order torrents modTime s).registry := by
  suffices h : ∀ (l : List (Bytes × Bytes)) registry, (∀ f ∈ l, f ∈ c.walk order s.files) → P registry →
      P (l.foldl (c.populateFile torrents modTime) registry) from h _ _ (fun _ hf => hf) hs
  intro l
  induction l with
  | nil => exact fun _ _ h => h
  | cons f l ih =>
    intro registry hl hP
    apply ih (c.populateFile torrents modTime registry f) fun g hg =>
      hl g (List.mem_cons_of_mem _ hg)
    unfold TVConfig.populateFile
    split_ifs with hpath
    · exact hP
    · cases hx : parseFileName (filepathBase f.1) with
      | none => exact hP
      | some x =>
        dsimp only
        split_ifs with hkey
        · exact hP
        · exact hadd registry f x _ (hl f List.mem_cons_self) (by simpa using hpath) hx
            (by simpa using hkey) rfl hP

end Directory

section Episodes

variable {c : TVConfig} {x : Creation} {s : TVState}

theorem writeEpisode_done (h : x.write = .done) : s.writeEpisode c x =
    ({ registry := AList.insert (x.key c) (x.entry c) s.registry
       processedThisRun := x.key c :: s.processedThisRun
       files :=
        match s.replaced (x.key c) (x.epPath c) with
        | some old => AList.erase old (AList.insert (x.epPath c) (x.content c) s.files)
        | none => AList.insert (x.epPath c) (x.content c) s.files }, true) := by
  simp [TVState.writeEpisode, h, createMKV]

theorem writeEpisode_failed (h : x.write = .failed) : s.writeEpisode c x = (s, false) := by
  simp [TVState.writeEpisode, h, createMKV]

theorem writeEpisode_cut {part : Bytes} (h : x.write = .cut part) : s.writeEpisode c x =
    ({ s with files := AList.insert (x.epPath c) part s.files }, false) := by
  simp [TVState.writeEpisode, h, createMKV]

theorem replaced_eq_some {key epPath old : Bytes} : s.replaced key epPath = some old ↔
    ∃ existing, s.registry.lookup key = some existing ∧ existing.filePath = old ∧ old ≠ [] ∧
      old ≠ epPath := by
  unfold TVState.replaced
  cases hentry : s.registry.lookup key with
  | none => simp
  | some existing =>
    dsimp only
    split_ifs with hpath
    · constructor
      · intro h
        obtain rfl := Option.some.inj h
        exact ⟨existing, rfl, rfl, hpath⟩
      · rintro ⟨_, h, rfl, -⟩
        rw [Option.some.inj h]
    · constructor
      · intro h
        cases h
      · rintro ⟨_, h, rfl, hne⟩
        rw [← Option.some.inj h] at hne
        exact absurd hne hpath

theorem lookup_files_writeEpisode_done (h : x.write = .done) (path : Bytes) :
    AList.lookup path (s.writeEpisode c x).1.files =
      if s.replaced (x.key c) (x.epPath c) = some path then none
      else if path = x.epPath c then some (x.content c)
      else s.files.lookup path := by
  rw [writeEpisode_done h]
  cases hold : s.replaced (x.key c) (x.epPath c) with
  | none => simp [Dict.lookup_insert]
  | some old =>
    by_cases hpath : path = old
    · subst hpath
      simp
    · have hpath' : ¬ old = path := fun h => hpath h.symm
      simp [hpath, hpath', Dict.lookup_insert]

theorem lookup_registry_writeEpisode_done (h : x.write = .done) (key : Bytes) :
    AList.lookup key (s.writeEpisode c x).1.registry =
      if key = x.key c then some (x.entry c) else s.registry.lookup key := by
  rw [writeEpisode_done h, Dict.lookup_insert]

theorem writeEpisode_of_ne_done (h : x.write ≠ .done) :
    ∃ files, (s.writeEpisode c x).1 = { s with files := files } := by
  cases hw : x.write with
  | done => exact absurd hw h
  | failed => exact ⟨s.files, by rw [writeEpisode_failed hw]⟩
  | cut part => exact ⟨_, by rw [writeEpisode_cut hw]⟩

theorem registry_writeEpisode_of_ne_done (h : x.write ≠ .done) :
    (s.writeEpisode c x).1.registry = s.registry := by
  obtain ⟨files, heq⟩ := writeEpisode_of_ne_done (c := c) (s := s) h
  rw [heq]

theorem writeEpisode_snd : (s.writeEpisode c x).2 = decide (x.write = .done) := by
  cases hw : x.write with
  | done => rw [writeEpisode_done hw]; rfl
  | failed => rw [writeEpisode_failed hw]; rfl
  | cut part => rw [writeEpisode_cut hw]; rfl

theorem attempt_cases (c : TVConfig) (x : Creation) (s : TVState) :
    (s.processedThisRun.contains (x.key c) = true ∧ s.attempt c x = (s, false)) ∨
      (s.keeps (x.key c) x.score = true ∧ s.attempt c x = (s.mark (x.key c), false)) ∨
      (s.processedThisRun.contains (x.key c) = false ∧ s.keeps (x.key c) x.score = false ∧
        s.attempt c x = ((s.writeEpisode c x).1, decide (x.write = .done))) := by
  unfold TVState.attempt
  split_ifs with hprocessed hkeeps
  · exact .inl ⟨hprocessed, rfl⟩
  · exact .inr (.inl ⟨hkeeps, rfl⟩)
  · exact .inr (.inr ⟨eq_false_of_ne_true hprocessed, eq_false_of_ne_true hkeeps,
      Prod.ext rfl writeEpisode_snd⟩)

end Episodes

inductive TVOp
  | mark (key : Bytes)
  | attempt (x : Creation)
  deriving DecidableEq

def TVState.step (c : TVConfig) (s : TVState) : TVOp → TVState
  | .mark key => s.mark key
  | .attempt x => (s.attempt c x).1

def Job.ops (c : TVConfig) (s : TVState) : Job → List TVOp
  | .fullpack sh stream answers =>
    match answers.added, answers.info with
    | some hash, some files =>
      (files.filter fun f => c.passes stream stream.packResolution f.1).filterMap fun f =>
        (packEpisode sh stream answers hash f).map .attempt
    | _, _ => []
  | .single sh stream answers =>
    match reTVEpNum.submatch stream.title with
    | none => []
    | some k =>
      let episode := atoi (groupText k 2)
      let key := c.key sh stream.season episode
      if s.processedThisRun.contains key then []
      else if s.keeps key stream.qualityScore then [.mark key]
      else
        match answers.added, answers.info with
        | some hash, some files =>
          ((singleEpisode c sh stream answers episode hash files).map .attempt).toList
        | _, _ => []

section Runs

variable {c : TVConfig} {sh : TVShow} {stream : TVStream} {answers : Answers} {s : TVState}

theorem attempt_eq_writeEpisode {x : Creation} (hprocessed : s.processedThisRun.contains (x.key c) = false)
    (hkeeps : s.keeps (x.key c) x.score = false) : s.attempt c x = s.writeEpisode c x := by
  rw [TVState.attempt, hprocessed, hkeeps]
  rfl

theorem foldl_processFile_eq_run (hash : InfoHash) (l : List (FileStat × Write)) (acc : TVState × ℕ) :
    (l.foldl (TVState.processFile c sh stream answers hash) acc).1 =
      run (TVState.step c) acc.1
        (l.filterMap fun f => (packEpisode sh stream answers hash f).map .attempt) := by
  induction l generalizing acc with
  | nil => rfl
  | cons f l ih =>
    rw [List.foldl_cons, ih]
    unfold TVState.processFile
    cases hx : packEpisode sh stream answers hash f with
    | none => rw [List.filterMap_cons_none (by rw [hx]; rfl)]
    | some x =>
      rw [List.filterMap_cons_some (b := .attempt x) (by rw [hx]; rfl), run_cons]
      rfl

theorem singleEpisode_key {episode : Int64} {hash : InfoHash} {files : List (FileStat × Write)}
    {x : Creation} (h : singleEpisode c sh stream answers episode hash files = some x) :
    x.key c = c.key sh stream.season episode ∧ x.score = stream.qualityScore := by
  obtain ⟨f, -, rfl⟩ := Option.map_eq_some_iff.mp h
  exact ⟨rfl, rfl⟩

theorem process_eq_run (job : Job) : (s.process c job).state = run (TVState.step c) s (job.ops c s) := by
  cases job with
  | fullpack sh stream answers =>
    simp only [TVState.process, TVState.processFullpack, Job.ops]
    cases answers.added with
    | none => rfl
    | some hash =>
      cases answers.info with
      | none => rfl
      | some files =>
        dsimp only
        split_ifs with hempty
        · rw [List.isEmpty_iff.mp hempty]
          rfl
        · exact foldl_processFile_eq_run hash _ _
        · exact foldl_processFile_eq_run hash _ _
  | single sh stream answers =>
    simp only [TVState.process, TVState.processSingle, Job.ops]
    cases reTVEpNum.submatch stream.title with
    | none => rfl
    | some k =>
      dsimp only
      split_ifs with hprocessed hkeeps
      · rfl
      · rfl
      · cases answers.added with
        | none => rfl
        | some hash =>
          cases answers.info with
          | none => rfl
          | some files =>
            dsimp only
            cases hx : singleEpisode c sh stream answers (atoi (groupText k 2)) hash files with
            | none => rfl
            | some x =>
              obtain ⟨hkey, hscore⟩ := singleEpisode_key hx
              have hattempt : s.attempt c x = s.writeEpisode c x := by
                apply attempt_eq_writeEpisode
                · rw [hkey]
                  exact eq_false_of_ne_true hprocessed
                · rw [hkey, hscore]
                  exact eq_false_of_ne_true hkeeps
              exact congrArg Prod.fst hattempt.symm

def Job.passing (c : TVConfig) : Job → List FileStat
  | .fullpack _ stream answers =>
    ((answers.info.getD []).map Prod.fst).filter (c.passes stream stream.packResolution)
  | .single _ stream answers =>
    ((answers.info.getD []).map Prod.fst).filter (c.passes stream stream.rank.resolution)

structure Creation.From (x : Creation) (c : TVConfig) (job : Job) : Prop where
  sh : x.sh = job.sh
  hash : job.answers.added = some x.hash
  magnet : x.magnet = job.stream.magnet
  passes : x.file ∈ job.passing c

theorem mem_of_foldl_bestFile {l : List (FileStat × Write)} {best : Option (FileStat × Write)}
    {f : FileStat × Write} (h : l.foldl bestFile best = some f) : best = some f ∨ f ∈ l := by
  induction l generalizing best with
  | nil => exact .inl h
  | cons g l ih =>
    have hstep : bestFile best g = best ∨ bestFile best g = some g := by
      unfold bestFile
      cases best with
      | none => exact .inr rfl
      | some b =>
        dsimp only
        split_ifs
        · exact .inr rfl
        · exact .inl rfl
    rcases ih h with hbest | hmem
    · rcases hstep with heq | heq
      · exact .inl (heq ▸ hbest)
      · rw [heq] at hbest
        obtain rfl := Option.some.inj hbest
        exact .inr List.mem_cons_self
    · exact .inr (List.mem_cons_of_mem _ hmem)

theorem from_of_mem_ops {job : Job} {x : Creation} (h : TVOp.attempt x ∈ job.ops c s) :
    x.From c job := by
  cases job with
  | fullpack sh stream answers =>
    simp only [Job.ops] at h
    split at h
    · next hash files hadded hinfo =>
      obtain ⟨f, hf, hx⟩ := List.mem_filterMap.mp h
      obtain ⟨y, hy, heq⟩ := Option.map_eq_some_iff.mp hx
      obtain rfl := TVOp.attempt.inj heq
      unfold packEpisode at hy
      dsimp only at hy
      split_ifs at hy
      obtain rfl := Option.some.inj hy
      obtain ⟨hmem, hpasses⟩ := List.mem_filter.mp hf
      refine ⟨rfl, hadded, rfl, List.mem_filter.mpr ⟨?_, hpasses⟩⟩
      rw [hinfo]
      exact List.mem_map_of_mem hmem
    · cases h
  | single sh stream answers =>
    simp only [Job.ops] at h
    split at h
    · cases h
    · split_ifs at h
      · cases h
      · cases List.mem_singleton.mp h
      · split at h
        · next hash files hadded hinfo =>
          obtain ⟨y, hy, heq⟩ := Option.map_eq_some_iff.mp (Option.mem_toList.mp h)
          obtain rfl := TVOp.attempt.inj heq
          obtain ⟨f, hf, rfl⟩ := Option.map_eq_some_iff.mp hy
          obtain ⟨hmem, hpasses⟩ :=
            List.mem_filter.mp ((mem_of_foldl_bestFile hf).resolve_left (by simp))
          refine ⟨rfl, hadded, rfl, List.mem_filter.mpr ⟨?_, hpasses⟩⟩
          rw [hinfo]
          exact List.mem_map_of_mem hmem
        · cases h

end Runs

inductive EngineOp
  | populate (order : MapOrder) (torrents : List TorrentStats) (modTime : Bytes → ℤ)
  | process (job : Job)
  | cleanup (order : MapOrder)
  | disk (files : Files)
  | restart (saved : Bytes → Bool)

def TVState.engineStep (c : TVConfig) (s : TVState) : EngineOp → TVState
  | .populate order torrents modTime => c.populateRegistryFromExisting order torrents modTime s
  | .process job => (s.process c job).state
  | .cleanup order => { s with files := c.cleanupOrphanedFiles order s.registry s.files }
  | .disk files => { s with files := files }
  | .restart saved =>
    { s with
      registry := s.registry.items.foldl
        (fun d x => if saved x.1 then d else AList.erase x.1 d) s.registry
      processedThisRun := [] }

def tvSample : TVConfig where
  lowering := .ascii
  baseURL := ascii "http://localhost:8090"
  tvDir := ascii "/tv"
  tvDir_ne := by decide

def showLost : TVShow := ⟨ascii "Lost", ascii "2004-09-22", rfl, rfl⟩

def hashA : InfoHash := seasonHash

def hashB : InfoHash := ⟨List.replicate 40 98, rfl, rfl⟩

def pilot (sh : TVShow) (hash : InfoHash) : Creation where
  sh := sh
  season := 1
  episode := 1
  score := 300000
  hash := hash
  magnet := buildMagnet hash.digits sh.name defaultTrackers
  file := ⟨1, ascii "S01E01.1080p.mkv", 900000000⟩
  source := ascii "fullpack"
  now := 0
  write := .done

def libraryOf (sh : TVShow) (hash : InfoHash) : TVState where
  registry := AList.singleton ((pilot sh hash).key tvSample) ((pilot sh hash).entry tvSample)
  processedThisRun := []
  files := AList.singleton ((pilot sh hash).epPath tvSample) ((pilot sh hash).content tvSample)

def pilotStream (score : ℤ) : TVStream where
  title := ascii "Lost S01E01 1080p"
  hash := List.replicate 40 98
  is1080p := true
  is720p := false
  is480p := false
  qualityScore := score
  season := 1
  seeders := 100
  rank :=
    { hash := List.replicate 40 98
      title := ascii "Lost S01E01 1080p"
      mediaType := .tv
      resolution := .res1080p
      sizeGB := 1
      seeders := 100
      isPack := false
      estimatedEpisodeCount := 0
      effectiveSizeGB := 1
      sizeTier := 1
      peerTier := 3
      compactTagScore := 0
      resolutionTier := 2
      score := score }

def goodAnswers (hash : InfoHash) : Answers :=
  ⟨some hash, some [(⟨1, ascii "Lost.S01E01.1080p.mkv", 900000000⟩, .done)], 0⟩

end GoStream.Engines
