import GoStream.Engines.Completeness
import GoStream.Foundations.SliceSort

/-!
# A run of the TV engine
-/

namespace GoStream.Engines

open Foundations Regex Inodes AutoRemove

structure TVChannel extends TVConfig where
  skipCompleteSeasons : Bool
  slices : SliceSort

structure ShowStream where
  stream : TVStream
  isFullpack : Bool
  isPartialPack : Bool
  answers : Answers

structure ShowTask where
  sh : TVShow
  seasons : List SeasonDetail
  streams : List ShowStream

def tvMinQualitySkip : ℚ := 1000

def tvSinglesLimit : ℕ := 15

def ShowStream.job (sh : TVShow) (x : ShowStream) : Job :=
  if x.isFullpack then .fullpack sh x.stream x.answers else .single sh x.stream x.answers

def skippedSeason (complete : Dict Int64 ℚ) (n : Int64) : Bool :=
  match complete.lookup n with
  | some average => tvMinQualitySkip ≤ average
  | none => false

def TVChannel.skipsShow (ch : TVChannel) (complete : Dict Int64 ℚ) : Bool :=
  ch.skipCompleteSeasons && complete.items.all (fun x => tvMinQualitySkip ≤ x.2) &&
    !complete.items.isEmpty

structure ShowLoop where
  tv : TVState
  seasonsComplete : List Int64
  seasonsEpCount : Dict Int64 ℕ
  singlesProcessed : ℕ
  processed : List Job

namespace ShowLoop

variable (c : TVConfig) (sh : TVShow) (eps : Dict Int64 ℤ) (skipped : Int64 → Bool)

def process (l : ShowLoop) (job : Job) : ShowLoop :=
  { l with tv := (l.tv.process c job).state, processed := l.processed ++ [job] }

def account (x : ShowStream) (count : ℕ) (l : ShowLoop) : ShowLoop :=
  let season := x.stream.season
  let total := (l.seasonsEpCount.lookup season).getD 0 + count
  let expected := (eps.lookup season).getD 0
  { l with
    seasonsEpCount := AList.insert season total l.seasonsEpCount
    seasonsComplete :=
      if 0 < expected ∧ expected ≤ (total : ℤ) then season :: l.seasonsComplete
      else if x.isPartialPack = false ∧ expected = 0 ∧ 5 ≤ count then season :: l.seasonsComplete
      else l.seasonsComplete }

def fullpack (l : ShowLoop) (x : ShowStream) : ShowLoop :=
  if !x.isFullpack || skipped x.stream.season || l.seasonsComplete.contains x.stream.season then l
  else if 0 < (l.tv.process c (x.job sh)).created then
    (l.process c (x.job sh)).account eps x (l.tv.process c (x.job sh)).created
  else l.process c (x.job sh)

def single (l : ShowLoop) (x : ShowStream) : ShowLoop :=
  if x.isFullpack || tvSinglesLimit ≤ l.singlesProcessed || skipped x.stream.season ||
      l.seasonsComplete.contains x.stream.season then l
  else { l.process c (x.job sh) with singlesProcessed := l.singlesProcessed + 1 }

end ShowLoop

def TVChannel.ranked (ch : TVChannel) (streams : List ShowStream) : List ShowStream :=
  ch.slices.sort (fun x y => x.stream.rank.betterThan y.stream.rank) streams

def TVChannel.processStreams (ch : TVChannel) (t : ShowTask) (complete : Dict Int64 ℚ)
    (l : ShowLoop) : ShowLoop :=
  (ch.ranked t.streams).foldl (ShowLoop.single ch.toTVConfig t.sh (skippedSeason complete))
    ((ch.ranked t.streams).foldl
      (ShowLoop.fullpack ch.toTVConfig t.sh (seasonEps t.seasons) (skippedSeason complete)) l)

def TVChannel.processShow (ch : TVChannel) (s : TVState) (t : ShowTask) : ShowLoop :=
  let complete := ch.getCompleteSeasons s.registry t.sh.name t.seasons
  if ch.skipsShow complete then ⟨s, [], ∅, 0, []⟩
  else ch.processStreams t complete ⟨s, [], ∅, 0, []⟩

structure SyncInput where
  order : MapOrder
  torrents : List TorrentStats
  modTime : Bytes → ℤ
  tasks : List ShowTask
  finishes : Bool
  cleanupOrder : MapOrder

def TVChannel.started (ch : TVChannel) (s : TVState) (r : SyncInput) : TVState :=
  ch.populateRegistryFromExisting r.order r.torrents r.modTime s

def TVChannel.sync (ch : TVChannel) (s : TVState) (r : SyncInput) : TVState :=
  let t := r.tasks.foldl (fun s task => (ch.processShow s task).tv) (ch.started s r)
  if r.finishes then
    { t with files := ch.cleanupOrphanedFiles r.cleanupOrder t.registry t.files }
  else t

def TVChannel.jobs (ch : TVChannel) : TVState → List ShowTask → List Job
  | _, [] => []
  | s, t :: ts => (ch.processShow s t).processed ++ ch.jobs (ch.processShow s t).tv ts

section Calls

variable {c : TVConfig} {sh : TVShow} {eps : Dict Int64 ℤ} {skipped : Int64 → Bool}

def TVState.processAll (c : TVConfig) (s : TVState) (jobs : List Job) : TVState :=
  jobs.foldl (fun s job => (s.process c job).state) s

def ShowLoop.Faithful (c : TVConfig) (s : TVState) (l : ShowLoop) : Prop :=
  l.tv = s.processAll c l.processed

theorem ShowLoop.Faithful.process {s : TVState} {l : ShowLoop} (h : l.Faithful c s) (job : Job) :
    (l.process c job).Faithful c s := by
  rw [ShowLoop.Faithful, ShowLoop.process, TVState.processAll, List.foldl_append]
  rw [ShowLoop.Faithful, TVState.processAll] at h
  rw [← h]
  rfl

theorem faithful_fullpack {s : TVState} (l : ShowLoop) (x : ShowStream) (h : l.Faithful c s) :
    (l.fullpack c sh eps skipped x).Faithful c s := by
  unfold ShowLoop.fullpack
  split_ifs
  · exact h
  · exact h.process _
  · exact h.process _

theorem faithful_single {s : TVState} (l : ShowLoop) (x : ShowStream) (h : l.Faithful c s) :
    (l.single c sh skipped x).Faithful c s := by
  unfold ShowLoop.single
  split_ifs
  · exact h
  · exact h.process _

theorem tv_processShow (ch : TVChannel) (s : TVState) (t : ShowTask) :
    (ch.processShow s t).tv = s.processAll ch.toTVConfig (ch.processShow s t).processed := by
  unfold TVChannel.processShow
  dsimp only
  split_ifs
  · rfl
  · have hpacks : ((ch.ranked t.streams).foldl
        (ShowLoop.fullpack ch.toTVConfig t.sh (seasonEps t.seasons)
          (skippedSeason (ch.getCompleteSeasons s.registry t.sh.name t.seasons)))
        ⟨s, [], ∅, 0, []⟩).Faithful ch.toTVConfig s :=
      run_keeps (ShowLoop.Faithful ch.toTVConfig s) faithful_fullpack (ch.ranked t.streams) rfl
    exact run_keeps (ShowLoop.Faithful ch.toTVConfig s) faithful_single (ch.ranked t.streams) hpacks

theorem foldl_processShow (ch : TVChannel) (ts : List ShowTask) (s : TVState) :
    ts.foldl (fun s task => (ch.processShow s task).tv) s =
      s.processAll ch.toTVConfig (ch.jobs s ts) := by
  induction ts generalizing s with
  | nil => rfl
  | cons t ts ih =>
    rw [List.foldl_cons, ih, TVChannel.jobs, TVState.processAll, TVState.processAll,
      List.foldl_append]
    rw [tv_processShow, TVState.processAll]

def TVChannel.runInput (ch : TVChannel) (s : TVState) (r : SyncInput) : RunInput :=
  ⟨r.order, r.torrents, r.modTime, ch.jobs (ch.started s r) r.tasks, r.finishes, r.cleanupOrder⟩

end Calls

structure Offer where
  sh : TVShow
  season : Int64
  episode : Int64
  score : ℤ
  creation : Option Creation
  fits : ∀ x ∈ creation, x.sh = sh ∧ x.season = season ∧ x.episode = episode ∧ x.score = score
  deriving DecidableEq

def Offer.key (c : TVConfig) (o : Offer) : Bytes := c.key o.sh o.season o.episode

def Offer.ofCreation (x : Creation) : Offer :=
  ⟨x.sh, x.season, x.episode, x.score, some x, by rintro _ ⟨rfl⟩; exact ⟨rfl, rfl, rfl, rfl⟩⟩

def singleOffer (c : TVConfig) (sh : TVShow) (stream : TVStream) (answers : Answers)
    (episode : Int64) : Offer where
  sh := sh
  season := stream.season
  episode := episode
  score := stream.qualityScore
  creation :=
    match answers.added, answers.info with
    | some hash, some files => singleEpisode c sh stream answers episode hash files
    | _, _ => none
  fits := by
    intro x hx
    split at hx
    · obtain ⟨f, -, rfl⟩ := Option.map_eq_some_iff.mp hx
      exact ⟨rfl, rfl, rfl, rfl⟩
    · cases hx

def Job.offers (c : TVConfig) : Job → List Offer
  | .fullpack sh stream answers =>
    match answers.added, answers.info with
    | some hash, some files =>
      (files.filter fun f => c.passes stream stream.packResolution f.1).filterMap fun f =>
        (packEpisode sh stream answers hash f).map .ofCreation
    | _, _ => []
  | .single sh stream answers =>
    match reTVEpNum.submatch stream.title with
    | none => []
    | some k => [singleOffer c sh stream answers (atoi (groupText k 2))]

def TVState.accept (c : TVConfig) (s : TVState) (o : Offer) : TVState :=
  match o.creation with
  | none => s
  | some x => (s.writeEpisode c x).1

def TVState.consider (c : TVConfig) (s : TVState) (o : Offer) : TVState :=
  if s.processedThisRun.contains (o.key c) then s
  else if s.keeps (o.key c) o.score then s.mark (o.key c)
  else s.accept c o

section Offers

variable {c : TVConfig}

theorem consider_ofCreation (s : TVState) (x : Creation) :
    s.consider c (.ofCreation x) = (s.attempt c x).1 := by
  have hkey : (Offer.ofCreation x).key c = x.key c := rfl
  have hscore : (Offer.ofCreation x).score = x.score := rfl
  rw [TVState.consider, TVState.attempt, hkey, hscore, apply_ite Prod.fst, apply_ite Prod.fst]
  rfl

theorem run_attempts_eq {α : Type} (episode : α → Option Creation) (l : List α) (s : TVState) :
    run (TVState.step c) s (l.filterMap fun f => (episode f).map .attempt) =
      run (TVState.consider c) s (l.filterMap fun f => (episode f).map .ofCreation) := by
  induction l generalizing s with
  | nil => rfl
  | cons f l ih =>
    cases hx : episode f with
    | none =>
      rw [List.filterMap_cons_none (by rw [hx]; rfl), List.filterMap_cons_none (by rw [hx]; rfl)]
      exact ih s
    | some x =>
      rw [List.filterMap_cons_some (b := .attempt x) (by rw [hx]; rfl),
        List.filterMap_cons_some (b := .ofCreation x) (by rw [hx]; rfl), run_cons, run_cons,
        consider_ofCreation]
      exact ih _

theorem process_eq_run_offers (s : TVState) (job : Job) :
    (s.process c job).state = run (TVState.consider c) s (job.offers c) := by
  cases job with
  | fullpack sh stream answers =>
    rw [process_eq_run]
    simp only [Job.ops, Job.offers]
    cases answers.added with
    | none => rfl
    | some hash =>
      cases answers.info with
      | none => rfl
      | some files => exact run_attempts_eq _ _ s
  | single sh stream answers =>
    simp only [TVState.process, TVState.processSingle, Job.offers]
    cases reTVEpNum.submatch stream.title with
    | none => rfl
    | some k =>
      simp only [run_cons, run_nil, TVState.consider, TVState.accept, Offer.key, singleOffer]
      rw [apply_ite Processed.state, apply_ite Processed.state]
      refine if_congr Iff.rfl rfl (if_congr Iff.rfl rfl ?_)
      cases answers.added with
      | none => rfl
      | some hash =>
        cases answers.info with
        | none => rfl
        | some files =>
          dsimp only
          cases singleEpisode c sh stream answers (atoi (groupText k 2)) hash files <;> rfl

def TVChannel.offers (ch : TVChannel) (s : TVState) (r : SyncInput) : List Offer :=
  (ch.jobs (ch.started s r) r.tasks).flatMap (Job.offers ch.toTVConfig)

theorem processAll_eq_run (s : TVState) (jobs : List Job) :
    s.processAll c jobs = run (TVState.consider c) s (jobs.flatMap (Job.offers c)) := by
  induction jobs generalizing s with
  | nil => rfl
  | cons job jobs ih =>
    rw [List.flatMap_cons, run_append, ← process_eq_run_offers, ← ih]
    rfl

theorem sync_eq_run (ch : TVChannel) (s : TVState) (r : SyncInput) :
    ch.sync s r =
      if r.finishes then
        { run (TVState.consider ch.toTVConfig) (ch.started s r) (ch.offers s r) with
          files := ch.cleanupOrphanedFiles r.cleanupOrder
            (run (TVState.consider ch.toTVConfig) (ch.started s r) (ch.offers s r)).registry
            (run (TVState.consider ch.toTVConfig) (ch.started s r) (ch.offers s r)).files }
      else run (TVState.consider ch.toTVConfig) (ch.started s r) (ch.offers s r) := by
  rw [TVChannel.sync, foldl_processShow, processAll_eq_run]
  rfl

end Offers

end GoStream.Engines
