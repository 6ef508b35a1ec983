import GoStream.Engines.GoStorm
import GoStream.Foundations.SliceSort
import GoStream.Quality.Streaming

/-!
# The engine for movies
-/

namespace GoStream.Engines

open Foundations Regex Inodes AutoRemove Quality
open MetaCache (filepathJoin)

def reM4K : Regex := words ["2160p", "4k", "uhd"]

def reM1080p : Regex := words ["1080p", "1080i", "fhd"]

def reM720p : Regex := words ["720p", "720i"]

def reM480p : Regex := bounded (words ["480p", "576p", "sd"])

def reMHDR : Regex :=
  .alt (bounded (fold (ascii "hdr"))) (.seq (fold (ascii "hdr10")) (opt (.byte 43)))

def reMDV : Regex :=
  oneOf [bounded (fold (ascii "dv")), fold (ascii "dovi"),
    inOrder [fold (ascii "dolby"), opt dot, fold (ascii "vision")]]

def reMAtmos : Regex := fold (ascii "atmos")

def reM51 : Regex := words ["5.1", "dts", "ddp5", "ddp", "dd+", "eac3", "ac3"]

def reMStereo : Regex := words ["stereo", "aac", "mp3", "2.0"]

def reMRemux : Regex := bounded (fold (ascii "remux"))

def reMITA : Regex := .alt (bounded (fold (ascii "ita"))) (lit (flag "IT"))

def reMExclLang : Regex :=
  oneOf (["ES", "FR", "DE", "RU", "CN", "JP", "KR", "TH", "PT", "BR"].map fun country =>
    lit (flag country))

def reMGarbage : Regex :=
  oneOf [words ["camrip", "hdcam", "hdts", "telesync"], bounded (fold (ascii "ts")),
    fold (ascii "telecine"), bounded (fold (ascii "tc")), bounded (fold (ascii "scr")),
    words ["screener", "webscreener"]]

def reMSeeders : Regex :=
  inOrder [lit [0xF0, 0x9F, 0x91, 0xA4], .star (cls isSpace), .group 1 (plus digit)]

def reMSize : Regex :=
  inOrder [lit [0xF0, 0x9F, 0x92, 0xBE], .star (cls isSpace),
    .group 1 (plus (cls fun c => isDecimal c || c = 46)), .star (cls isSpace),
    .group 2 (words ["gb", "mb"])]

def centuryYear : Regex := inOrder [.alt (lit (ascii "19")) (lit (ascii "20")), times 2 digit]

def reMYear : Regex :=
  let sep := cls fun c => c = 46 || c = 95
  inOrder [sep, .group 1 centuryYear, sep]

def reMQuality : Regex :=
  .group 1 (words ["2160p", "1080p", "720p", "480p", "576p", "4k", "uhd", "sd"])

def reMTitleYear : Regex :=
  inOrder [.group 1 (.seq dot (.lazy dot)), cls fun c => c = 46 || c = 95 || isSpace c,
    opt (.byte 40), .group 2 centuryYear, opt (.byte 41)]

structure Movie where
  title : Bytes
  originalTitle : Bytes
  releaseDate : Bytes
  year : (yearOf releaseDate).all isDecimal = true

def Movie.name (m : Movie) : Bytes := if m.title = [] then m.originalTitle else m.title

structure ProwlarrStream where
  name : Bytes
  title : Bytes
  infoHash : InfoHash
  sizeGB : ℚ

structure MovieStream where
  title : Bytes
  hash : InfoHash
  is4K : Bool
  is1080p : Bool
  is720p : Bool
  is480p : Bool
  resolution : Resolution
  qualityScore : ℤ
  seeders : ℤ
  sizeGB : ℚ
  rank : StreamingRank
  deriving DecidableEq

structure MovieScoreWeights where
  resolution4K : Option ℤ
  resolution1080p : Option ℤ
  resolution720p : Option ℤ
  dolbyVision : Option ℤ
  hdr : Option ℤ
  atmos : Option ℤ
  audio51 : Option ℤ
  audioStereo : Option ℤ
  remux : Option ℤ
  ita : Option ℤ
  seederBonus : Option ℤ
  unknownSizePenalty : Option ℤ
  sizeBonusPerGBUnder : Option ℤ

structure MovieConfig where
  lowering : Lowering
  baseURL : Bytes
  moviesDir : Bytes
  scoreWeights : MovieScoreWeights
  sort : SliceSort

structure MovieState where
  noMKVCache : Dict Bytes ℤ
  noStreamsCache : Dict Bytes ℤ
  recheckCache : Dict Bytes ℤ
  addFailCache : Dict Bytes ℤ
  blacklist : Blacklist
  files : Files

def firstWeight : List (Bool × Option ℤ) → Option ℤ
  | [] => none
  | (applies, w) :: l => if applies ∧ w.isSome then w else firstWeight l

def MovieScoreWeights.calculateMovieScore (w : MovieScoreWeights) (text : Bytes) (seeders : ℤ)
    (sizeGB : ℚ) (is4K is1080p is720p : Bool) (ceilingGB : ℚ) : ℤ :=
  let underGB := Float64.round (ceilingGB - sizeGB)
  (firstWeight [(is4K, w.resolution4K), (is1080p, w.resolution1080p),
      (is720p, w.resolution720p)]).getD 0 +
    (firstWeight [(reMDV.matchString text, w.dolbyVision), (reMHDR.matchString text, w.hdr)]).getD 0 +
    -- a bonus when nothing is configured for stereo
    (firstWeight [(reMAtmos.matchString text, w.atmos), (reM51.matchString text, w.audio51),
      (reMStereo.matchString text, w.audioStereo)]).getD (if w.audioStereo = none then 5 else 0) +
    (firstWeight [(reMRemux.matchString text, w.remux)]).getD 0 +
    (firstWeight [(reMITA.matchString text, w.ita)]).getD 0 +
    (firstWeight [(sizeGB = 0 && is4K, w.unknownSizePenalty)]).getD 0 +
    (firstWeight [(0 < sizeGB && 0 < ceilingGB && 0 < underGB,
      w.sizeBonusPerGBUnder.map fun b => truncate underGB * b)]).getD 0 +
    (firstWeight [(0 < seeders, w.seederBonus.map fun b => min (seeders * b) 500)]).getD 0

structure MovieFile where
  path : Bytes
  imdb : Bytes
  score : ℤ

def imdbOf (data : Bytes) : Bytes :=
  let content := trimSpace data
  if ([123] : Bytes).isPrefixOf content then
    match Json.parse content with
    | some obj => obj.stringField (ascii "imdb")
    | none => []
  else
    match splitN 10 4 content with
    | [_, _, _, line] => trimSpace line
    | _ => []

namespace MovieConfig

variable (c : MovieConfig)

def nameScore (name : Bytes) : ℤ :=
  let is4K := reM4K.matchString name
  let is1080p := reM1080p.matchString name && !reM720p.matchString name
  let is720p := reM720p.matchString name && !is1080p && !is4K
  c.scoreWeights.calculateMovieScore name 0 0 is4K is1080p is720p 0

def isStub (path : Bytes) : Bool := isStubBelow c.lowering c.moviesDir path

def walk (order : MapOrder) (files : Files) : List (Bytes × Bytes) :=
  stubsBelow c.lowering c.moviesDir order files

def indexFile (index : Dict Bytes MovieFile) (f : Bytes × Bytes) : Dict Bytes MovieFile :=
  let imdb := imdbOf f.2
  let score := c.nameScore (filepathBase f.1)
  if 10240 < f.2.length ∨ imdb = [] then index
  else
    match index.lookup imdb with
    | some existing =>
      if existing.score < score then AList.insert imdb ⟨f.1, imdb, score⟩ index else index
    | none => AList.insert imdb ⟨f.1, imdb, score⟩ index

def existingIndex (order : MapOrder) (files : Files) : Dict Bytes MovieFile :=
  (c.walk order files).foldl c.indexFile ∅

def diskHashes (order : MapOrder) (files : Files) : List Bytes :=
  (c.walk order files).filterMap fun f => suffixPattern (filepathBase f.1)

def normalizeTitle (title : Bytes) : Bytes :=
  squeeze (reMQuality.replaceAll [] (reMYear.replaceAll [] (c.lowering.lower title)))

def isBlacklisted (bl : Blacklist) (title : Bytes) : Bool := bl.titles.contains (c.normalizeTitle title)

def extractMovieSeeders (title : Bytes) : ℤ :=
  match reMSeeders.submatch title with
  | some k => (atoi (groupText k 1)).toInt
  | none => 0

def extractMovieSizeGB (title : Bytes) : ℚ :=
  match reMSize.submatch title with
  | some k =>
    let v := (Float64.parseFloat (groupText k 1)).getD 0
    if asciiLower (groupText k 2) = ascii "gb" then v else Float64.div v 1000
  | none => 0

def classifyMovieStream (bl : Blacklist) (s : ProwlarrStream) : Option MovieStream :=
  let fullText := s.title ++ 32 :: s.name
  if reMGarbage.matchString fullText then none
  else if reMExclLang.matchString s.title then none
  else if c.isBlacklisted bl s.title then none
  else if (bl.hashes.lookup s.infoHash.digits).isSome then none
  else
    let seeders := extractMovieSeeders s.title
    let is4K := reM4K.matchString fullText
    let is1080p := reM1080p.matchString fullText && !reM720p.matchString fullText
    let is720p := reM720p.matchString fullText && !is1080p && !is4K
    let is480p := reM480p.matchString fullText && !is720p && !is1080p && !is4K
    let resolution := detectResolution fullText
    let sizeGB := if s.sizeGB = 0 then extractMovieSizeGB s.title else s.sizeGB
    if resolution = .unknown then none
    else
      (rankStreamingCandidate
        { hash := s.infoHash.digits
          title := fullText
          mediaType := .movie
          resolution := resolution
          sizeGB := sizeGB
          seeders := seeders
          isPack := false
          estimatedEpisodeCount := 0 } movieStreamingPolicy).map fun rank =>
        { title := s.title
          hash := s.infoHash
          is4K := is4K
          is1080p := is1080p
          is720p := is720p
          is480p := is480p
          resolution := resolution
          qualityScore := rank.score
          seeders := seeders
          sizeGB := sizeGB
          rank := rank }

def filterMovieStreams (bl : Blacklist) (streams : List ProwlarrStream) : List MovieStream :=
  insertionSort (fun x y => x.rank.betterThan y.rank) (streams.filterMap (c.classifyMovieStream bl))

def acceptsFile (stream : MovieStream) (f : FileStat) : Bool :=
  ([".mkv", ".mp4", ".avi", ".mov", ".m4v"].any fun ext =>
    c.lowering.lower (filepathExt f.path) = ascii ext) &&
    (rankExactStreamingFile
      { hash := stream.hash.digits
        title := stream.title ++ 32 :: f.path
        mediaType := .movie
        resolution := stream.resolution
        sizeGB := fileSizeGB f.length.toInt
        seeders := stream.seeders
        isPack := false
        estimatedEpisodeCount := 0 } movieStreamingPolicy).isSome

def bestMovieFile (stream : MovieStream) (files : List FileStat) : Option FileStat :=
  (c.sort.sort (fun f g => g.length < f.length) (files.filter (c.acceptsFile stream))).head?

end MovieConfig

def sanitizeMovieFilename (s : Bytes) : Bytes :=
  let kept := s.map fun c => if isWord c || c = 46 || c = 45 then c else 95
  trimByte 95 (replaceRuns (· = 95) 95 false kept)

def movieYear (title releaseDate : Bytes) : Bytes :=
  if yearOf releaseDate ≠ [] then yearOf releaseDate
  else
    match reMTitleYear.submatch title with
    | some k => groupText k 2
    | none => []

def MovieStream.tags (stream : MovieStream) : Bytes :=
  (if stream.is4K then ascii "_2160p"
    else if stream.is1080p then ascii "_1080p"
    else if stream.is720p then ascii "_720p"
    else if stream.is480p || stream.resolution = .sd then ascii "_480p"
    else ascii "_1080p") ++
    (if reMDV.matchString stream.title then ascii "_DV"
      else if reMHDR.matchString stream.title then ascii "_HDR" else []) ++
    (if reMAtmos.matchString stream.title then ascii "_Atmos"
      else if reM51.matchString stream.title then ascii "_5.1" else []) ++
    (if reMRemux.matchString stream.title then ascii "_REMUX" else [])

def movieStem (title releaseDate : Bytes) (stream : MovieStream) : Bytes :=
  let year := movieYear title releaseDate
  let base :=
    if year ≠ [] then sanitizeMovieFilename title ++ 95 :: year else sanitizeMovieFilename title
  base ++ stream.tags

def buildMovieFilename (title releaseDate : Bytes) (stream : MovieStream) : Bytes :=
  Engine.movie.filename (movieStem title releaseDate stream) stream.hash

def MovieConfig.mkvPath (c : MovieConfig) (movie : Movie) (stream : MovieStream) : Bytes :=
  filepathJoin c.moviesDir (buildMovieFilename movie.name movie.releaseDate stream)

def MovieConfig.mkvContent (c : MovieConfig) (movie : Movie) (imdbID : Bytes) (stream : MovieStream)
    (hash : InfoHash) (f : FileStat) : Bytes :=
  stubContent (streamURL c.baseURL hash f.id.toInt) f.length
    (buildMagnet stream.hash.digits movie.name defaultTrackers) imdbID

def hour : ℤ := 3600 * 1000000000

def noMKVCacheTTL : ℤ := 12 * hour

def noStreamsCacheTTL : ℤ := 24 * hour

def recheckCacheTTL : ℤ := 48 * hour

def addFailCacheTTL : ℤ := 168 * hour

def isExpired (cache : Dict Bytes ℤ) (key : Bytes) (ttl now : ℤ) : Bool :=
  match cache.lookup key with
  | some ts => ttl < now - ts * 1000000000
  | none => false

def isInCache (cache : Dict Bytes ℤ) (key : Bytes) (ttl now : ℤ) : Dict Bytes ℤ × Bool :=
  if isExpired cache key ttl now then (AList.erase key cache, false)
  else (cache, (cache.lookup key).isSome)

def setCache (cache : Dict Bytes ℤ) (key : Bytes) (now : ℤ) : Dict Bytes ℤ :=
  AList.insert key (now / 1000000000) cache

structure MovieAnswers where
  now : ℤ
  added : Option InfoHash
  info : Option (List FileStat)
  write : Write

structure MovieTask where
  movie : Movie
  imdbID : Bytes
  existing : Option MovieFile
  diskHashes : List Bytes

inductive Verdict
  | stop
  | next
  | created
  deriving DecidableEq

def MovieTask.noBetter (t : MovieTask) (stream : MovieStream) : Bool :=
  match t.existing with
  | some existing =>
    Float64.round stream.qualityScore ≤
      Float64.mul (Float64.round existing.score) (Float64.round (11 / 10))
  | none => false

def MovieTask.removeExisting (t : MovieTask) (files : Files) : Files :=
  match t.existing with
  | some existing => AList.erase existing.path files
  | none => files

namespace MovieState

variable (c : MovieConfig) (t : MovieTask)

def upgrade (stream : MovieStream) (hash : InfoHash) (f : FileStat) (a : MovieAnswers)
    (s : MovieState) : MovieState × Verdict :=
  let written := createMKV (t.removeExisting s.files) (c.mkvPath t.movie stream)
    (c.mkvContent t.movie t.imdbID stream hash f) a.write
  if written.2 then
    ({ s with files := written.1, recheckCache := setCache s.recheckCache t.imdbID a.now }, .created)
  else ({ s with files := written.1 }, .next)

def addCandidate (stream : MovieStream) (a : MovieAnswers) (s : MovieState) : MovieState × Verdict :=
  match a.added with
  | none => ({ s with addFailCache := setCache s.addFailCache t.imdbID a.now }, .next)
  | some hash =>
    let s := { s with addFailCache := AList.erase t.imdbID s.addFailCache }
    match a.info.bind (c.bestMovieFile stream) with
    | none => ({ s with noMKVCache := setCache s.noMKVCache hash.digits a.now }, .next)
    | some f => s.upgrade c t stream hash f a

def tryCandidate (x : MovieStream × MovieAnswers) (s : MovieState) : MovieState × Verdict :=
  if t.noBetter x.1 then
    ({ s with recheckCache := setCache s.recheckCache t.imdbID x.2.now }, .stop)
  else
    let cached := isInCache s.noMKVCache x.1.hash.digits noMKVCacheTTL x.2.now
    let s := { s with noMKVCache := cached.1 }
    if cached.2 then (s, .next)
    else if t.diskHashes.contains (Engine.movie.tag x.1.hash) then (s, .next)
    else s.addCandidate c t x.1 x.2

def tryCandidates (now : ℤ) : List (MovieStream × MovieAnswers) → MovieState →
    MovieState × Option MovieStream
  | [], s => ({ s with recheckCache := setCache s.recheckCache t.imdbID now }, none)
  | x :: l, s =>
    match s.tryCandidate c t x with
    | (s, .stop) => (s, none)
    | (s, .created) => (s, some x.1)
    | (s, .next) => tryCandidates now l s

end MovieState

structure MovieCall where
  movie : Movie
  imdbID : Bytes
  streams : List ProwlarrStream
  now : ℤ
  answers : ℕ → MovieAnswers

def MovieCall.task (x : MovieCall) (index : Dict Bytes MovieFile) (diskHashes : List Bytes) :
    MovieTask :=
  ⟨x.movie, x.imdbID, index.lookup x.imdbID, diskHashes⟩

def MovieState.checkCaches (imdbID : Bytes) (now : ℤ) (s : MovieState) : MovieState × Bool :=
  let noStreams := isInCache s.noStreamsCache imdbID noStreamsCacheTTL now
  let s := { s with noStreamsCache := noStreams.1 }
  if noStreams.2 then (s, true)
  else
    let recheck := isInCache s.recheckCache imdbID recheckCacheTTL now
    let s := { s with recheckCache := recheck.1 }
    if recheck.2 then (s, true)
    else
      let addFail := isInCache s.addFailCache imdbID addFailCacheTTL now
      ({ s with addFailCache := addFail.1 }, addFail.2)

def MovieState.processMovie (c : MovieConfig) (index : Dict Bytes MovieFile) (diskHashes : List Bytes)
    (x : MovieCall) (s : MovieState) : MovieState × Option MovieStream :=
  if x.movie.name = [] then (s, none)
  else if c.isBlacklisted s.blacklist x.movie.name then (s, none)
  else if x.imdbID = [] then (s, none)
  else
    let checked := s.checkCaches x.imdbID x.now
    let s := checked.1
    if checked.2 then (s, none)
    else if x.streams.isEmpty then
      ({ s with noStreamsCache := setCache s.noStreamsCache x.imdbID x.now }, none)
    else
      let s := { s with noStreamsCache := AList.erase x.imdbID s.noStreamsCache }
      let candidates := c.filterMovieStreams s.blacklist x.streams
      if candidates.isEmpty then
        ({ s with recheckCache := setCache s.recheckCache x.imdbID x.now }, none)
      else
        s.tryCandidates c (x.task index diskHashes) x.now
          (candidates.mapIdx fun i stream => (stream, x.answers i))

theorem imdbOf_stubContent (url : Bytes) (size : Int64) (magnet imdb : Bytes) :
    imdbOf (stubContent url size magnet imdb) = imdb := by
  unfold imdbOf
  dsimp only
  rw [trimSpace_stubContent, if_pos (brace_stubContent _ _ _ _), parse_stubContent]
  rfl

section Disk

variable {c : MovieConfig} {order : MapOrder} {files : Files}

def tagSuffix (hash : InfoHash) : Bytes := ascii "_" ++ Engine.movie.tag hash ++ ascii ".mkv"

theorem filename_eq (stem : Bytes) (hash : InfoHash) :
    Engine.movie.filename stem hash = stem ++ tagSuffix hash := by
  simp only [Engine.filename, tagSuffix, List.append_assoc]

theorem slash_not_mem_tagSuffix (hash : InfoHash) : 47 ∉ tagSuffix hash := by
  have hhex := List.all_eq_true.mp (tag_spec .movie hash).2
  have htag : 47 ∉ Engine.movie.tag hash := fun hmem => absurd (hhex 47 hmem) (by decide)
  have hascii : (47 : UInt8) ∉ ascii "_" ∧ (47 : UInt8) ∉ ascii ".mkv" := by decide
  simp [tagSuffix, htag, hascii]

theorem suffixPattern_mkvPath (c : MovieConfig) (movie : Movie) (stream : MovieStream) :
    suffixPattern (filepathBase (c.mkvPath movie stream)) = some (Engine.movie.tag stream.hash) := by
  rw [MovieConfig.mkvPath, buildMovieFilename, filename_eq, filepathJoin, ← List.cons_append,
    ← List.append_assoc, filepathBase_append _ (by simp [tagSuffix, ascii])
      (slash_not_mem_tagSuffix stream.hash), ← filename_eq, suffixPattern_filename]

theorem isStub_mkvPath (c : MovieConfig) (movie : Movie) (stream : MovieStream) :
    c.isStub (c.mkvPath movie stream) = true :=
  isStubBelow_append c.lowering c.moviesDir _

theorem MovieConfig.mem_walk {f : Bytes × Bytes} :
    f ∈ c.walk order files ↔ files.lookup f.1 = some f.2 ∧ c.isStub f.1 = true :=
  mem_stubsBelow

theorem contains_diskHashes {movie : Movie} {stream : MovieStream} {data : Bytes}
    (h : files.lookup (c.mkvPath movie stream) = some data) :
    (c.diskHashes order files).contains (Engine.movie.tag stream.hash) = true := by
  rw [List.contains_iff_mem]
  refine List.mem_filterMap.mpr ⟨(c.mkvPath movie stream, data), ?_, suffixPattern_mkvPath c movie stream⟩
  exact MovieConfig.mem_walk.mpr ⟨h, isStub_mkvPath c movie stream⟩

theorem existingIndex_spec {imdb : Bytes} {e : MovieFile}
    (h : (c.existingIndex order files).lookup imdb = some e) :
    ∃ data, files.lookup e.path = some data ∧ c.isStub e.path = true ∧ imdbOf data = imdb := by
  suffices hfold : ∀ (l : List (Bytes × Bytes)) (index : Dict Bytes MovieFile),
      (∀ f ∈ l, f ∈ c.walk order files) →
      (∀ imdb e, index.lookup imdb = some e → ∃ data, (e.path, data) ∈ c.walk order files ∧
        imdbOf data = imdb) →
      ∀ imdb e, (l.foldl c.indexFile index).lookup imdb = some e →
        ∃ data, (e.path, data) ∈ c.walk order files ∧ imdbOf data = imdb by
    obtain ⟨data, hmem, himdb⟩ := hfold _ ∅ (fun _ hf => hf) (by simp) imdb e h
    obtain ⟨hlookup, hstub⟩ := MovieConfig.mem_walk.mp hmem
    exact ⟨data, hlookup, hstub, himdb⟩
  intro l
  induction l with
  | nil => exact fun _ _ hindex => hindex
  | cons f l ih =>
    intro index hl hindex
    apply ih (c.indexFile index f) fun g hg => hl g (List.mem_cons_of_mem _ hg)
    have hinsert : ∀ score imdb e,
        (AList.insert (imdbOf f.2) ⟨f.1, imdbOf f.2, score⟩ index).lookup imdb = some e →
        ∃ data, (e.path, data) ∈ c.walk order files ∧ imdbOf data = imdb := by
      intro score imdb e he
      rw [Dict.lookup_insert] at he
      split_ifs at he with himdb
      · obtain rfl := Option.some.inj he
        exact ⟨f.2, hl f List.mem_cons_self, himdb.symm⟩
      · exact hindex imdb e he
    unfold MovieConfig.indexFile
    dsimp only
    split_ifs
    · exact hindex
    · cases index.lookup (imdbOf f.2) with
      | none => exact hinsert _
      | some existing =>
        dsimp only
        split_ifs
        · exact hinsert _
        · exact hindex

end Disk

section Loop

variable {c : MovieConfig} {t : MovieTask} {s : MovieState} {now : ℤ}

structure Admits (t : MovieTask) (stream : MovieStream) : Prop where
  better : t.noBetter stream = false
  notOnDisk : t.diskHashes.contains (Engine.movie.tag stream.hash) = false

theorem bestMovieFile_accepts {stream : MovieStream} {fs : List FileStat} {f : FileStat}
    (h : c.bestMovieFile stream fs = some f) : f ∈ fs ∧ c.acceptsFile stream f = true := by
  have hmem := List.mem_of_head? h
  rw [SliceSort.mem_sort, List.mem_filter] at hmem
  exact hmem

def replaceStub (c : MovieConfig) (t : MovieTask) (stream : MovieStream) (hash : InfoHash) (f : FileStat)
    (write : Write) (files : Files) : Files :=
  (createMKV (t.removeExisting files) (c.mkvPath t.movie stream)
    (c.mkvContent t.movie t.imdbID stream hash f) write).1

def verdictOf : Write → Verdict
  | .done => .created
  | _ => .next

theorem tryCandidate_cases (c : MovieConfig) (t : MovieTask) (x : MovieStream × MovieAnswers)
    (s : MovieState) :
    ((s.tryCandidate c t x).1.files = s.files ∧ t.noBetter x.1 = true ∧
        (s.tryCandidate c t x).2 = .stop) ∨
      ((s.tryCandidate c t x).1.files = s.files ∧ t.noBetter x.1 = false ∧
        (s.tryCandidate c t x).2 = .next) ∨
      (Admits t x.1 ∧ ∃ hash f, c.acceptsFile x.1 f = true ∧
        (s.tryCandidate c t x).1.files = replaceStub c t x.1 hash f x.2.write s.files ∧
        (s.tryCandidate c t x).2 = verdictOf x.2.write) := by
  unfold MovieState.tryCandidate
  dsimp only
  split_ifs with hbetter hcached hdisk
  · exact .inl ⟨rfl, hbetter, rfl⟩
  · exact .inr (.inl ⟨rfl, eq_false_of_ne_true hbetter, rfl⟩)
  · exact .inr (.inl ⟨rfl, eq_false_of_ne_true hbetter, rfl⟩)
  · unfold MovieState.addCandidate
    cases x.2.added with
    | none => exact .inr (.inl ⟨rfl, eq_false_of_ne_true hbetter, rfl⟩)
    | some hash =>
      dsimp only
      cases hinfo : x.2.info.bind (c.bestMovieFile x.1) with
      | none => exact .inr (.inl ⟨rfl, eq_false_of_ne_true hbetter, rfl⟩)
      | some f =>
        obtain ⟨fs, -, hf⟩ := Option.bind_eq_some_iff.mp hinfo
        refine .inr (.inr ⟨⟨eq_false_of_ne_true hbetter, eq_false_of_ne_true hdisk⟩, hash, f,
          (bestMovieFile_accepts hf).2, ?_⟩)
        cases hw : x.2.write with
        | done | failed | cut part =>
          simp [MovieState.upgrade, replaceStub, hw, createMKV, verdictOf]

def Reaches (c : MovieConfig) (t : MovieTask) (candidates : List MovieStream) (stream : MovieStream) :
    Prop :=
  ∃ earlier later, candidates = earlier ++ stream :: later ∧
    (∀ x ∈ earlier, t.noBetter x = false) ∧ Admits t stream ∧ ∃ f, c.acceptsFile stream f = true

theorem Reaches.cons {candidates : List MovieStream} {stream first : MovieStream}
    (h : Reaches c t candidates stream) (hfirst : t.noBetter first = false) :
    Reaches c t (first :: candidates) stream := by
  obtain ⟨earlier, later, rfl, hearlier, hrest⟩ := h
  exact ⟨first :: earlier, later, rfl, List.forall_mem_cons.mpr ⟨hfirst, hearlier⟩, hrest⟩

inductive Loop (c : MovieConfig) (t : MovieTask) :
    List (MovieStream × MovieAnswers) → Files → Files → Option MovieStream → Prop
  | done (files : Files) : Loop c t [] files files none
  | stop (x : MovieStream × MovieAnswers) (l : List (MovieStream × MovieAnswers)) (files : Files) :
      Loop c t (x :: l) files files none
  | skip {x : MovieStream × MovieAnswers} {l : List (MovieStream × MovieAnswers)}
      {files after : Files} {created : Option MovieStream} (hbetter : t.noBetter x.1 = false)
      (hrest : Loop c t l files after created) : Loop c t (x :: l) files after created
  | created {x : MovieStream × MovieAnswers} {f : FileStat} (l : List (MovieStream × MovieAnswers))
      (hash : InfoHash) (files : Files) (hadmits : Admits t x.1) (hf : c.acceptsFile x.1 f = true)
      (hw : x.2.write = .done) :
      Loop c t (x :: l) files (replaceStub c t x.1 hash f x.2.write files) (some x.1)
  | failed {x : MovieStream × MovieAnswers} {f : FileStat} {l : List (MovieStream × MovieAnswers)}
      {hash : InfoHash} {files after : Files} {created : Option MovieStream}
      (hadmits : Admits t x.1) (hf : c.acceptsFile x.1 f = true) (hw : x.2.write ≠ .done)
      (hrest : Loop c t l (replaceStub c t x.1 hash f x.2.write files) after created) :
      Loop c t (x :: l) files after created

theorem loop_tryCandidates (l : List (MovieStream × MovieAnswers)) :
    Loop c t l s.files (s.tryCandidates c t now l).1.files (s.tryCandidates c t now l).2 := by
  induction l generalizing s with
  | nil => exact .done s.files
  | cons x l ih =>
    rw [MovieState.tryCandidates]
    rcases hcase : s.tryCandidate c t x with ⟨s', verdict⟩
    have hcases := tryCandidate_cases c t x s
    rw [hcase] at hcases
    dsimp only at hcases
    rcases hcases with ⟨hfiles, -, rfl⟩ | ⟨hfiles, hbetter, rfl⟩ | ⟨hadmits, hash, f, hf, hfiles, rfl⟩
    · rw [← hfiles]
      exact .stop x l s'.files
    · rw [← hfiles]
      exact .skip hbetter ih
    · cases hw : x.2.write with
      | done =>
        have h := Loop.created l hash s.files hadmits hf hw
        rw [← hfiles] at h
        exact h
      | failed | cut part =>
        apply Loop.failed hadmits hf (by simp [hw])
        rw [← hfiles]
        exact ih

end Loop

def qualityFirstMovies : MovieScoreWeights where
  resolution4K := some 200
  resolution1080p := some 50
  resolution720p := none
  dolbyVision := some 150
  hdr := some 100
  atmos := some 50
  audio51 := some 25
  audioStereo := some (-50)
  remux := some (-500)
  ita := some 60
  seederBonus := some 5
  unknownSizePenalty := some (-5)
  sizeBonusPerGBUnder := none

def movieSample : MovieConfig where
  lowering := .ascii
  baseURL := ascii "http://localhost:8090"
  moviesDir := ascii "/movies"
  scoreWeights := qualityFirstMovies
  sort := .insertion

def film : Movie := ⟨ascii "Film", [], ascii "2020-01-31", rfl⟩

def filmID : Bytes := ascii "tt0000001"

def hashC : InfoHash := ⟨List.replicate 40 99, rfl, rfl⟩

def hashD : InfoHash := ⟨List.replicate 40 100, rfl, rfl⟩

def filmStreams : List ProwlarrStream :=
  [⟨[], ascii "1080p", hashC, 1⟩, ⟨[], ascii "1080p", hashD, 3 / 2⟩]

def filmCandidate (hash : InfoHash) (sizeGB : ℚ) (sizeTier score : ℤ) : MovieStream where
  title := ascii "1080p"
  hash := hash
  is4K := false
  is1080p := true
  is720p := false
  is480p := false
  resolution := .res1080p
  qualityScore := score
  seeders := 0
  sizeGB := sizeGB
  rank :=
    { hash := hash.digits
      title := ascii "1080p "
      mediaType := .movie
      resolution := .res1080p
      sizeGB := sizeGB
      seeders := 0
      isPack := false
      estimatedEpisodeCount := 0
      effectiveSizeGB := sizeGB
      sizeTier := sizeTier
      peerTier := 0
      compactTagScore := 0
      resolutionTier := 2
      score := score }

def smallFilm : MovieStream := filmCandidate hashC 1 0 298800

def largeFilm : MovieStream := filmCandidate hashD (3 / 2) 1 198300

def filmFile : FileStat := ⟨1, ascii "a.mkv", 1000000000⟩

end GoStream.Engines
