import GoStream.Engines.Movies

/-!
# The engine for the watchlist
-/

namespace GoStream.Engines

open Foundations Regex AutoRemove Quality
open MetaCache (filepathJoin)

structure WatchlistItem where
  title : Bytes
  year : Bytes
  imdbID : Bytes

structure WatchlistConfig where
  lowering : Lowering
  baseURL : Bytes
  moviesDir : Bytes
  sort : SliceSort

def reGarbage : Regex :=
  oneOf [words ["webscreener", "screener"], bounded (fold (ascii "scr")), bounded (fold (ascii "cam")),
    words ["camrip", "hdcam", "telesync"], bounded (fold (ascii "ts")), fold (ascii "telecine"),
    bounded (fold (ascii "tc"))]

def scanFloat (s : Bytes) : ℚ :=
  let whole := s.takeWhile isDecimal
  let rest := s.dropWhile isDecimal
  let fraction := if rest.head? = some 46 then 46 :: rest.tail.takeWhile isDecimal else []
  (Float64.parseFloat (whole ++ fraction)).getD 0

def extractGB (title : Bytes) : ℚ :=
  match reMSize.submatch title with
  | some k =>
    if asciiLower (groupText k 2) = ascii "gb" then scanFloat (groupText k 1)
    else Float64.div (scanFloat (groupText k 1)) 1000
  | none => 0

def extractSeeders (title : Bytes) : ℤ :=
  match reMSeeders.submatch title with
  | some k => ((parseInt (groupText k 1)).map Int64.toInt).getD 0
  | none => 0

def rankWatchlistStream (s : ProwlarrStream) : Option (ProwlarrStream × StreamingRank) :=
  let title := s.title ++ 32 :: s.name
  if reBadLanguageTags.matchString title || reBadDubTags.matchString title ||
      reGarbage.matchString title then none
  else
    let gb := extractGB title
    (rankStreamingCandidate
      { hash := s.infoHash.digits
        title := title
        mediaType := .movie
        resolution := detectResolution title
        sizeGB := if gb = 0 ∧ 0 < s.sizeGB then s.sizeGB else gb
        seeders := extractSeeders title
        isPack := false
        estimatedEpisodeCount := 0 } movieStreamingPolicy).map fun rank => (s, rank)

def pickBestStream (streams : List ProwlarrStream) : List ProwlarrStream :=
  (insertionSort (fun x y => x.2.betterThan y.2) (streams.filterMap rankWatchlistStream)).map Prod.fst

def cleanFilename (s : Bytes) : Bytes := (sanitizeMovieFilename s).take 90

def watchlistTags (st : Bytes) : Bytes :=
  (if reM4K.matchString st then ascii "2160p"
    else if (lit (ascii "1080p")).matchString st then ascii "1080p"
    else if reM720p.matchString st then ascii "720p"
    else if reM480p.matchString st then ascii "480p" else []) ++
    (if reMDV.matchString st then ascii "_DV"
      else if (fold (ascii "hdr")).matchString st then ascii "_HDR" else [])

namespace WatchlistConfig

variable (c : WatchlistConfig)

def acceptsFile (candidate : ProwlarrStream) (f : FileStat) : Bool :=
  let title := candidate.title ++ 32 :: f.path
  (ascii ".mkv").isSuffixOf (c.lowering.lower f.path) &&
    (rankExactStreamingFile
      { hash := candidate.infoHash.digits
        title := title
        mediaType := .movie
        resolution := detectResolution title
        sizeGB := fileSizeGB f.length.toInt
        seeders := extractSeeders candidate.title
        isPack := false
        estimatedEpisodeCount := 0 } movieStreamingPolicy).isSome

def bestWatchlistFile (candidate : ProwlarrStream) (files : List FileStat) : Option FileStat :=
  if files.any fun f => contains (asciiLower f.path) (ascii "bdmv") then none
  else (c.sort.sort (fun f g => g.length < f.length) (files.filter (c.acceptsFile candidate))).head?

def mkvPath (item : WatchlistItem) (candidate : ProwlarrStream) (hash : InfoHash) : Bytes :=
  let tags := watchlistTags (c.lowering.lower candidate.title)
  let base := cleanFilename (item.title ++ 95 :: item.year)
  filepathJoin c.moviesDir
    (Engine.watchlist.filename (if tags ≠ [] then base ++ 95 :: tags else base) hash)

def mkvContent (item : WatchlistItem) (candidate : ProwlarrStream) (hash : InfoHash) (f : FileStat) :
    Bytes :=
  stubContent (streamURL c.baseURL hash f.id.toInt) f.length
    (buildMagnet candidate.infoHash.digits item.title defaultTrackers) item.imdbID

def tryCandidates (item : WatchlistItem) : List (ProwlarrStream × MovieAnswers) → Files → Files × Bool
  | [], files => (files, false)
  | (candidate, a) :: l, files =>
    match a.added with
    | none => tryCandidates item l files
    | some hash =>
      match a.info.bind (c.bestWatchlistFile candidate) with
      | none => tryCandidates item l files
      | some f =>
        match createMKV files (c.mkvPath item candidate hash) (c.mkvContent item candidate hash f)
          a.write with
        | (files, true) => (files, true)
        | (files, false) => tryCandidates item l files

end WatchlistConfig

end GoStream.Engines
