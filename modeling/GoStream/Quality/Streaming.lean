import GoStream.Foundations.Float64
import GoStream.Foundations.Regex

/-!
# Ranking of streams
-/

namespace GoStream.Quality

open Foundations Regex

inductive MediaType
  | movie
  | tv
  deriving DecidableEq

inductive Resolution
  | res4K
  | res1080p
  | res720p
  | res480p
  | sd
  | unknown
  deriving DecidableEq

structure StreamingCandidate where
  hash : Bytes
  title : Bytes
  mediaType : MediaType
  resolution : Resolution
  sizeGB : ℚ
  seeders : ℤ
  isPack : Bool
  estimatedEpisodeCount : ℤ
  deriving DecidableEq

structure StreamingPolicy where
  mediaType : MediaType
  idealGB : ℚ
  compactGB : ℚ
  fallbackGB : ℚ
  strictFileMaxGB : ℚ
  minSeeders : ℤ
  goodSeeders : ℤ
  strongSeeders : ℤ

structure StreamingRank extends StreamingCandidate where
  effectiveSizeGB : ℚ
  sizeTier : ℤ
  peerTier : ℤ
  compactTagScore : ℤ
  resolutionTier : ℤ
  score : ℤ
  deriving DecidableEq

def movieStreamingPolicy : StreamingPolicy where
  mediaType := .movie
  idealGB := 1
  compactGB := 2
  fallbackGB := 8
  strictFileMaxGB := 2
  minSeeders := 5
  goodSeeders := 15
  strongSeeders := 50

def tvStreamingPolicy : StreamingPolicy where
  mediaType := .tv
  idealGB := 1 / 2
  compactGB := 1
  fallbackGB := 3 / 2
  strictFileMaxGB := 1
  minSeeders := 5
  goodSeeders := 15
  strongSeeders := 40

def words (ws : List String) : Regex := oneOf (ws.map fun w => fold (ascii w))

def bounded (r : Regex) : Regex := inOrder [.boundary, r, .boundary]

def reStreaming4K : Regex := words ["2160p", "4k", "uhd"]

def reStreaming1080p : Regex := words ["1080p", "1080i", "fhd"]

def reStreaming720p : Regex := words ["720p", "720i"]

def reStreaming480p : Regex := bounded (words ["480p", "576p", "sd"])

def separator : Regex := opt (cls fun c => c = 45 || c = 95 || c = 46 || c = 32)

def reBadStreamingTags : Regex :=
  bounded (.alt (inOrder [fold (ascii "bd"), separator, fold (ascii "remux")])
    (words ["remux", "cam", "camrip", "hdcam", "hdts", "telesync", "telecine", "webscreener",
      "screener", "scr"]))

def flag (country : String) : Bytes :=
  (ascii country).flatMap fun c => [0xF0, 0x9F, 0x87, 0xA6 + (c - 65)]

def reBadLanguageTags : Regex :=
  oneOf (["ES", "FR", "DE", "RU", "CN", "JP", "KR", "TH", "PT", "BR", "UA", "PL", "NL", "TR", "SA",
    "IN", "CZ", "HU", "RO"].map fun country => lit (flag country))

def reBadDubTags : Regex :=
  inOrder [.boundary,
    words ["ukr", "ukrainian", "ger", "german", "fra", "french", "spa", "spanish", "por",
      "portuguese", "rus", "russian", "chi", "chinese", "pol", "polish", "tur", "turkish", "ara",
      "arabic", "hin", "hindi", "cze", "czech", "hun", "hungarian"],
    plus (cls isSpace), fold (ascii "dub"), .boundary]

def reCompactSource : Regex :=
  bounded (oneOf [inOrder [fold (ascii "web"), separator, fold (ascii "rip")],
    inOrder [fold (ascii "web"), separator, fold (ascii "dl")], fold (ascii "web")])

def reCompactCodec : Regex := bounded (words ["x265", "h265", "hevc", "av1"])

def reCompactGroup : Regex := bounded (words ["yts", "yify", "rarbg", "pahe", "psa"])

def detectResolution (title : Bytes) : Resolution :=
  if reStreaming4K.matchString title then .res4K
  else if reStreaming1080p.matchString title then .res1080p
  else if reStreaming720p.matchString title then .res720p
  else if reStreaming480p.matchString title then
    if contains (asciiLower title) (ascii "480p") then .res480p else .sd
  else .unknown

def badTitle (title : Bytes) : Bool :=
  reBadStreamingTags.matchString title || reBadLanguageTags.matchString title ||
    reBadDubTags.matchString title

def streamingSizeTier (sizeGB : ℚ) (policy : StreamingPolicy) : ℤ :=
  if sizeGB ≤ policy.idealGB then 0 else if sizeGB ≤ policy.compactGB then 1 else 2

def streamingPeerTier (seeders : ℤ) (policy : StreamingPolicy) : ℤ :=
  if policy.strongSeeders ≤ seeders then 3
  else if policy.goodSeeders ≤ seeders then 2
  else if policy.minSeeders ≤ seeders then 1
  else 0

def streamingCompactTagScore (title : Bytes) : ℤ :=
  (if reCompactSource.matchString title then 30 else 0) +
    (if reCompactCodec.matchString title then 20 else 0) +
    (if reCompactGroup.matchString title then 10 else 0)

def streamingResolutionTier : Resolution → ℤ
  | .res480p | .sd => 0
  | .res720p => 1
  | .res1080p => 2
  | .res4K => 3
  | .unknown => 4

def truncate (q : ℚ) : ℤ := if 0 ≤ q then ⌊q⌋ else ⌈q⌉

def streamingScore (r : StreamingRank) : ℤ :=
  (3 - r.sizeTier) * 100000 + r.peerTier * 10000 + r.compactTagScore * 100 -
    r.resolutionTier * 100 - truncate (Float64.mul r.effectiveSizeGB 1000) + r.seeders

def effectiveSize (c : StreamingCandidate) : ℚ :=
  if c.isPack ∧ 0 < c.estimatedEpisodeCount then Float64.div c.sizeGB c.estimatedEpisodeCount
  else c.sizeGB

def rankStreamingCandidate (candidate : StreamingCandidate) (policy : StreamingPolicy) :
    Option StreamingRank :=
  let c := { candidate with
    hash := asciiLower (trimSpace candidate.hash)
    resolution :=
      if candidate.resolution = .unknown then detectResolution candidate.title
      else candidate.resolution }
  if c.hash = [] then none
  else if c.mediaType ≠ policy.mediaType then none
  else if badTitle c.title then none
  else if c.resolution = .unknown then none
  else if effectiveSize c ≤ 0 then none
  else if 0 < c.seeders ∧ c.seeders < policy.minSeeders then none
  else if policy.fallbackGB < effectiveSize c then none
  else if c.resolution = .res4K ∧ policy.compactGB < effectiveSize c ∧
      c.seeders < policy.strongSeeders then none
  else
    let rank : StreamingRank := { c with
      effectiveSizeGB := effectiveSize c
      sizeTier := streamingSizeTier (effectiveSize c) policy
      peerTier := streamingPeerTier c.seeders policy
      compactTagScore := streamingCompactTagScore c.title
      resolutionTier := streamingResolutionTier c.resolution
      score := 0 }
    some { rank with score := streamingScore rank }

def rankExactStreamingFile (c : StreamingCandidate) (policy : StreamingPolicy) :
    Option StreamingRank :=
  if policy.strictFileMaxGB < c.sizeGB then none else rankStreamingCandidate c policy

def StreamingRank.betterThan (r other : StreamingRank) : Bool :=
  if r.sizeTier ≠ other.sizeTier then r.sizeTier < other.sizeTier
  else if r.peerTier ≠ other.peerTier then other.peerTier < r.peerTier
  else if r.effectiveSizeGB ≠ other.effectiveSizeGB then r.effectiveSizeGB < other.effectiveSizeGB
  else if r.compactTagScore ≠ other.compactTagScore then other.compactTagScore < r.compactTagScore
  else if r.resolutionTier ≠ other.resolutionTier then r.resolutionTier < other.resolutionTier
  else if r.seeders ≠ other.seeders then other.seeders < r.seeders
  else r.hash < other.hash

def fileSizeGB (length : ℤ) : ℚ :=
  Float64.div (Float64.div (Float64.div (Float64.round length) 1024) 1024) 1024

theorem effectiveSize_of_rank {c : StreamingCandidate} {policy : StreamingPolicy}
    (h : (rankStreamingCandidate c policy).isSome = true) : 0 < effectiveSize c := by
  by_contra hsize
  have hnone : rankStreamingCandidate c policy = none := by
    unfold rankStreamingCandidate
    dsimp only
    rw [if_pos (show effectiveSize { c with
        hash := asciiLower (trimSpace c.hash)
        resolution := if c.resolution = .unknown then detectResolution c.title else c.resolution } ≤ 0
      from not_lt.mp hsize)]
    simp only [ite_self]
  rw [hnone] at h
  cases h

theorem sizeGB_of_rankExact {c : StreamingCandidate} {policy : StreamingPolicy} (hpack : c.isPack = false)
    (h : (rankExactStreamingFile c policy).isSome = true) :
    0 < c.sizeGB ∧ c.sizeGB ≤ policy.strictFileMaxGB := by
  unfold rankExactStreamingFile at h
  split_ifs at h with hmax
  · cases h
  · have hpos := effectiveSize_of_rank h
    rw [effectiveSize, if_neg (by simp [hpack])] at hpos
    exact ⟨hpos, not_lt.mp hmax⟩

theorem fileSizeGB_mono {m n : ℤ} (hm : 0 ≤ m) (h : m ≤ n) : fileSizeGB m ≤ fileSizeGB n := by
  have hdiv : ∀ {q r : ℚ}, 0 ≤ q → q ≤ r →
      0 ≤ Float64.div q 1024 ∧ Float64.div q 1024 ≤ Float64.div r 1024 := by
    intro q r hq hqr
    have hpos : 0 ≤ q / 1024 := by positivity
    exact ⟨Float64.round_nonneg hpos, Float64.round_mono hpos (by gcongr)⟩
  have hm' : (0 : ℚ) ≤ (m : ℚ) := by exact_mod_cast hm
  have hcast : (m : ℚ) ≤ (n : ℚ) := by exact_mod_cast h
  obtain ⟨h₁, h₁'⟩ := hdiv (Float64.round_nonneg hm') (Float64.round_mono hm' hcast)
  obtain ⟨h₂, h₂'⟩ := hdiv h₁ h₁'
  exact (hdiv h₂ h₂').2

theorem length_lt_of_fileSizeGB {m n : ℤ} (hn : 0 ≤ n) (h : fileSizeGB m < fileSizeGB n) : m < n := by
  by_contra hle
  exact absurd (fileSizeGB_mono hn (not_lt.mp hle)) (not_le.mpr h)

theorem length_pos_of_fileSizeGB {n : ℤ} (h : 0 < fileSizeGB n) : 0 < n := by
  by_contra hle
  have hdiv : ∀ {q : ℚ}, q ≤ 0 → Float64.div q 1024 ≤ 0 := fun hq =>
    Float64.round_nonpos (div_nonpos_of_nonpos_of_nonneg hq (by norm_num))
  have hn : (n : ℚ) ≤ 0 := by exact_mod_cast not_lt.mp hle
  exact absurd (hdiv (hdiv (hdiv (Float64.round_nonpos hn)))) (not_le.mpr h)

end GoStream.Quality
