import GoStream.Foundations.Lexicographic
import GoStream.Quality.Streaming

/-!
# The order of the ranked streams
-/

namespace GoStream.Quality.Ranking

open Foundations

structure Measures (K : Type) where
  perEpisode : K → ℤ → K
  sizePoints : K → ℤ
  normalise : Bytes → Bytes

structure StreamingCandidate (K : Type) where
  hash : Bytes
  title : Bytes
  mediaType : Option MediaType
  resolution : Resolution
  sizeGB : K
  seeders : ℤ
  isPack : Bool
  estimatedEpisodeCount : ℤ

structure StreamingPolicy (K : Type) where
  mediaType : Option MediaType
  idealGB : K
  compactGB : K
  fallbackGB : K
  minSeeders : ℤ
  goodSeeders : ℤ
  strongSeeders : ℤ

structure StreamingRank (K : Type) extends StreamingCandidate K where
  effectiveSizeGB : K
  sizeTier : ℤ
  peerTier : ℤ
  compactTagScore : ℤ
  resolutionTier : ℤ
  score : ℤ

section Model

variable {K : Type} [LinearOrder K] [Zero K] (m : Measures K)

def streamingSizeTier (sizeGB : K) (policy : StreamingPolicy K) : ℤ :=
  if sizeGB ≤ policy.idealGB then 0 else if sizeGB ≤ policy.compactGB then 1 else 2

def streamingPeerTier (seeders : ℤ) (policy : StreamingPolicy K) : ℤ :=
  if policy.strongSeeders ≤ seeders then 3
  else if policy.goodSeeders ≤ seeders then 2
  else if policy.minSeeders ≤ seeders then 1
  else 0

def streamingScore (r : StreamingRank K) : ℤ :=
  (3 - r.sizeTier) * 100000 + r.peerTier * 10000 + r.compactTagScore * 100 -
    r.resolutionTier * 100 - m.sizePoints r.effectiveSizeGB + r.seeders

def effectiveSize (c : StreamingCandidate K) : K :=
  if c.isPack ∧ 0 < c.estimatedEpisodeCount then m.perEpisode c.sizeGB c.estimatedEpisodeCount
  else c.sizeGB

def otherMedia (c : StreamingCandidate K) (policy : StreamingPolicy K) : Bool :=
  policy.mediaType.isSome && c.mediaType.isSome && c.mediaType ≠ policy.mediaType

def rankStreamingCandidate (candidate : StreamingCandidate K) (policy : StreamingPolicy K) :
    Option (StreamingRank K) :=
  let c := { candidate with
    hash := m.normalise candidate.hash
    resolution :=
      if candidate.resolution = .unknown then detectResolution candidate.title
      else candidate.resolution }
  if c.hash = [] then none
  else if otherMedia c policy then none
  else if badTitle c.title then none
  else if c.resolution = .unknown then none
  else if effectiveSize m c ≤ 0 then none
  else if 0 < c.seeders ∧ c.seeders < policy.minSeeders then none
  else if policy.fallbackGB < effectiveSize m c then none
  else if c.resolution = .res4K ∧ policy.compactGB < effectiveSize m c ∧
      c.seeders < policy.strongSeeders then none
  else
    let rank : StreamingRank K := { c with
      effectiveSizeGB := effectiveSize m c
      sizeTier := streamingSizeTier (effectiveSize m c) policy
      peerTier := streamingPeerTier c.seeders policy
      compactTagScore := streamingCompactTagScore c.title
      resolutionTier := streamingResolutionTier c.resolution
      score := 0 }
    some { rank with score := streamingScore m rank }

def StreamingRank.betterThan (r other : StreamingRank K) : Bool :=
  if r.sizeTier ≠ other.sizeTier then r.sizeTier < other.sizeTier
  else if r.peerTier ≠ other.peerTier then other.peerTier < r.peerTier
  else if r.effectiveSizeGB ≠ other.effectiveSizeGB then r.effectiveSizeGB < other.effectiveSizeGB
  else if r.compactTagScore ≠ other.compactTagScore then other.compactTagScore < r.compactTagScore
  else if r.resolutionTier ≠ other.resolutionTier then r.resolutionTier < other.resolutionTier
  else if r.seeders ≠ other.seeders then other.seeders < r.seeders
  else r.hash < other.hash

def rankStreamingCandidates (candidates : List (StreamingCandidate K)) (policy : StreamingPolicy K) :
    List (StreamingRank K) :=
  insertionSort StreamingRank.betterThan
    (candidates.filterMap fun c => rankStreamingCandidate m c policy)

end Model

def float64Measures : Measures ℚ where
  perEpisode := fun size n => Float64.div size n
  sizePoints := fun size => truncate (Float64.mul size 1000)
  normalise := fun hash => asciiLower (trimSpace hash)

def ofCandidate (c : Quality.StreamingCandidate) : StreamingCandidate ℚ :=
  ⟨c.hash, c.title, some c.mediaType, c.resolution, c.sizeGB, c.seeders, c.isPack,
    c.estimatedEpisodeCount⟩

def ofPolicy (p : Quality.StreamingPolicy) : StreamingPolicy ℚ :=
  ⟨some p.mediaType, p.idealGB, p.compactGB, p.fallbackGB, p.minSeeders, p.goodSeeders,
    p.strongSeeders⟩

def ofRank (r : Quality.StreamingRank) : StreamingRank ℚ :=
  { ofCandidate r.toStreamingCandidate with
    effectiveSizeGB := r.effectiveSizeGB
    sizeTier := r.sizeTier
    peerTier := r.peerTier
    compactTagScore := r.compactTagScore
    resolutionTier := r.resolutionTier
    score := r.score }

/-- The model for `float64` sizes is a case of this one. -/
theorem rankStreamingCandidate_eq (c : Quality.StreamingCandidate) (p : Quality.StreamingPolicy) :
    rankStreamingCandidate float64Measures (ofCandidate c) (ofPolicy p) =
      (Quality.rankStreamingCandidate c p).map ofRank := by
  have hmedia : ∀ c : Quality.StreamingCandidate, (otherMedia (ofCandidate c) (ofPolicy p) = true) ↔
      c.mediaType ≠ p.mediaType := by
    intro c
    simp [otherMedia, ofCandidate, ofPolicy]
  unfold rankStreamingCandidate Quality.rankStreamingCandidate
  dsimp only
  simp only [apply_ite (Option.map ofRank), Option.map_none, Option.map_some]
  exact if_congr Iff.rfl rfl (if_congr (hmedia _) rfl rfl)

theorem betterThan_ofRank (r s : Quality.StreamingRank) :
    (ofRank r).betterThan (ofRank s) = r.betterThan s := rfl

section Order

variable {K : Type} [LinearOrder K]

theorem betterThan_eq : (StreamingRank.betterThan : StreamingRank K → StreamingRank K → Bool) =
    byKey (fun r => r.sizeTier) (fun a b => a < b)
      (byKey (fun r => r.peerTier) (fun a b => b < a)
        (byKey (fun r => r.effectiveSizeGB) (fun a b => a < b)
          (byKey (fun r => r.compactTagScore) (fun a b => b < a)
            (byKey (fun r => r.resolutionTier) (fun a b => a < b)
              (byKey (fun r => r.seeders) (fun a b => b < a)
                fun r s => decide (r.hash < s.hash)))))) := rfl

theorem strictWeak_betterThan :
    StrictWeak (StreamingRank.betterThan : StreamingRank K → StreamingRank K → Bool) := by
  rw [betterThan_eq]
  refine .byKey strictTotal_lt (.byKey strictTotal_lt.swap (.byKey strictTotal_lt
    (.byKey strictTotal_lt.swap (.byKey strictTotal_lt (.byKey strictTotal_lt.swap ?_)))))
  exact strictWeak_of_key strictTotal_bytes fun r : StreamingRank K => r.hash

theorem betterThan_total {r s : StreamingRank K} (h : r.hash ≠ s.hash) :
    r.betterThan s = true ∨ s.betterThan r = true := by
  rw [betterThan_eq]
  refine byKey_total strictTotal_lt (byKey_total strictTotal_lt.swap (byKey_total strictTotal_lt
    (byKey_total strictTotal_lt.swap (byKey_total strictTotal_lt
      (byKey_total strictTotal_lt.swap ?_)))))
  exact (strictTotal_bytes.total _ _ h).imp decide_eq_true decide_eq_true

end Order

section Ranked

variable {K : Type} [LinearOrder K] [Zero K] {m : Measures K} {policy : StreamingPolicy K}

theorem hash_of_rank {c : StreamingCandidate K} {r : StreamingRank K}
    (h : rankStreamingCandidate m c policy = some r) : r.hash = m.normalise c.hash := by
  unfold rankStreamingCandidate at h
  dsimp only at h
  generalize (if c.resolution = .unknown then detectResolution c.title else c.resolution) =
    resolution at h
  split_ifs at h
  rw [← Option.some.inj h]

theorem nodup_hash_ranks {candidates : List (StreamingCandidate K)}
    (h : (candidates.map fun c => m.normalise c.hash).Nodup) :
    ((candidates.filterMap fun c => rankStreamingCandidate m c policy).map fun r => r.hash).Nodup := by
  have hsub : ((candidates.filterMap fun c => rankStreamingCandidate m c policy).map
      fun r => r.hash).Sublist (candidates.map fun c => m.normalise c.hash) := by
    clear h
    induction candidates with
    | nil => exact .refl _
    | cons c candidates ih =>
      cases hrank : rankStreamingCandidate m c policy with
      | none =>
        simp only [List.filterMap_cons, hrank, List.map_cons]
        exact ih.cons _
      | some r =>
        simp only [List.filterMap_cons, hrank, List.map_cons, hash_of_rank hrank]
        exact ih.cons_cons _
  exact h.sublist hsub

variable (m policy) in
/-- The ranking is strict, total and independent of the order. -/
theorem ranking_strictTotal :
    ((∀ r : StreamingRank K, r.betterThan r = false) ∧
      (∀ r s t : StreamingRank K, r.betterThan s = true → s.betterThan t = true →
        r.betterThan t = true) ∧
      ∀ r s : StreamingRank K, r.hash ≠ s.hash → r.betterThan s = true ∨ s.betterThan r = true) ∧
    ∀ candidates : List (StreamingCandidate K),
      (candidates.map fun c => m.normalise c.hash).Nodup →
        ((rankStreamingCandidates m candidates policy).Perm
            (candidates.filterMap fun c => rankStreamingCandidate m c policy) ∧
          ((rankStreamingCandidates m candidates policy).map fun r => r.hash).Nodup) ∧
        Ascending StreamingRank.betterThan (rankStreamingCandidates m candidates policy) ∧
        ∀ candidates', candidates'.Perm candidates →
          rankStreamingCandidates m candidates' policy =
            rankStreamingCandidates m candidates policy := by
  have horder := strictWeak_betterThan (K := K)
  refine ⟨⟨horder.irrefl, horder.trans, fun _ _ => betterThan_total⟩, fun candidates hnodup => ?_⟩
  set ranks := candidates.filterMap fun c => rankStreamingCandidate m c policy with hranks
  have hdistinct : (ranks.map fun r => r.hash).Nodup := nodup_hash_ranks hnodup
  have hperm : (rankStreamingCandidates m candidates policy).Perm ranks :=
    SliceSort.insertion.perm _ ranks
  refine ⟨⟨hperm, ((hperm.map _).nodup_iff).mpr hdistinct⟩,
    SliceSort.insertion.ascending _ ranks (horder.ordersOn ranks), fun candidates' hperm' => ?_⟩
  refine (SliceSort.insertion.sort_eq_of_perm _ (horder.ordersOn ranks) ?_ ?_).symm
  · intro r hr s hs hrs hsr
    by_contra hne
    have hhash : r.hash ≠ s.hash := fun h => hne (List.inj_on_of_nodup_map hdistinct hr hs h)
    rcases betterThan_total hhash with hlt | hlt
    · rw [hlt] at hrs
      cases hrs
    · rw [hlt] at hsr
      cases hsr
  · exact (hperm'.filterMap _).symm

end Ranked

end GoStream.Quality.Ranking
