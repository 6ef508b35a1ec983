import GoStream.Engines.Movies

/-!
# Upgrades of movies
-/

namespace GoStream.Engines

open Foundations Regex Inodes AutoRemove Quality

section Loop

variable {c : MovieConfig} {t : MovieTask} {l : List (MovieStream × MovieAnswers)}
  {files after : Files} {created : Option MovieStream} {stream : MovieStream}

theorem Loop.reaches (h : Loop c t l files after created) (hcreated : created = some stream) :
    Reaches c t (l.map Prod.fst) stream := by
  induction h with
  | done | stop => cases hcreated
  | skip hbetter _ ih => exact (ih hcreated).cons hbetter
  | created l hash files hadmits hf hw =>
    obtain rfl := Option.some.inj hcreated
    exact ⟨[], l.map Prod.fst, rfl, by simp, hadmits, _, hf⟩
  | failed hadmits _ _ _ ih => exact (ih hcreated).cons hadmits.better

theorem Reaches.admits {candidates : List MovieStream} (h : Reaches c t candidates stream) :
    Admits t stream := by
  obtain ⟨_, _, _, _, hadmits, _⟩ := h
  exact hadmits

theorem Loop.of_done (h : Loop c t l files after created) (hdone : ∀ x ∈ l, x.2.write = .done) :
    (created = none ∧ after = files) ∨ ∃ stream hash f, created = some stream ∧
      after = replaceStub c t stream hash f .done files := by
  induction h with
  | done | stop => exact .inl ⟨rfl, rfl⟩
  | skip _ _ ih => exact ih fun y hy => hdone y (List.mem_cons_of_mem _ hy)
  | created l hash files _ _ hw => exact .inr ⟨_, hash, _, rfl, by rw [hw]⟩
  | failed _ _ hw _ _ => exact absurd (hdone _ List.mem_cons_self) hw

theorem Loop.lookup_of_ne (h : Loop c t l files after created) {path : Bytes}
    (hold : ∀ existing, t.existing = some existing → existing.path ≠ path)
    (hnew : ∀ stream, Admits t stream → c.mkvPath t.movie stream ≠ path) :
    after.lookup path = files.lookup path := by
  have hreplace : ∀ stream hash f write files, Admits t stream →
      (replaceStub c t stream hash f write files).lookup path = files.lookup path := by
    intro stream hash f write files hadmits
    have hremove : (t.removeExisting files).lookup path = files.lookup path := by
      unfold MovieTask.removeExisting
      cases hexisting : t.existing with
      | none => rfl
      | some existing => exact AList.lookup_erase_ne (hold existing hexisting).symm
    have hne := (hnew stream hadmits).symm
    cases write with
    | done | cut part => rw [replaceStub, createMKV, Dict.lookup_insert, if_neg hne, hremove]
    | failed => exact hremove
  induction h with
  | done | stop => rfl
  | skip _ _ ih => exact ih
  | created l hash files hadmits _ _ => exact hreplace _ _ _ _ _ hadmits
  | failed hadmits _ _ _ ih => exact ih.trans (hreplace _ _ _ _ _ hadmits)

theorem Loop.eq_of_not_reaches (h : Loop c t l files after created)
    (hnone : ∀ stream, ¬ Reaches c t (l.map Prod.fst) stream) : after = files := by
  have hfirst : ∀ {x : MovieStream × MovieAnswers} {l f}, (∀ stream, ¬ Reaches c t ((x :: l).map Prod.fst) stream) →
      Admits t x.1 → c.acceptsFile x.1 f = true → False :=
    fun hnone hadmits hf => hnone _ ⟨[], _, rfl, by simp, hadmits, _, hf⟩
  induction h with
  | done | stop => rfl
  | skip hbetter _ ih => exact ih fun stream hreach => hnone stream (hreach.cons hbetter)
  | created l hash files hadmits hf _ | failed hadmits hf _ _ _ =>
    exact (hfirst hnone hadmits hf).elim

theorem Loop.lookup_of_failed (h : Loop c t l files after created)
    (hfailed : ∀ x ∈ l, x.2.write = .failed) {path data : Bytes}
    (hafter : after.lookup path = some data) : files.lookup path = some data := by
  induction h with
  | done | stop => exact hafter
  | skip _ _ ih => exact ih (fun y hy => hfailed y (List.mem_cons_of_mem _ hy)) hafter
  | created l hash files _ _ hw => rw [hfailed _ List.mem_cons_self] at hw; cases hw
  | failed _ _ _ _ ih =>
    have hkept := ih (fun y hy => hfailed y (List.mem_cons_of_mem _ hy)) hafter
    rw [replaceStub, hfailed _ List.mem_cons_self] at hkept
    revert hkept
    simp only [createMKV, MovieTask.removeExisting]
    cases t.existing with
    | none => exact id
    | some existing =>
      dsimp only
      rw [Dict.lookup_erase]
      split_ifs
      · simp
      · exact id

end Loop

def Stale (cache : Dict Bytes ℤ) (key : Bytes) (ttl now : ℤ) : Prop :=
  ∀ ts, cache.lookup key = some ts → ttl < now - ts * 1000000000

theorem exists_stale (cache : Dict Bytes ℤ) (key : Bytes) (ttl : ℤ) :
    ∃ first, ∀ now, first ≤ now → Stale cache key ttl now := by
  cases hts : cache.lookup key with
  | none => exact ⟨0, fun now _ ts h => by rw [hts] at h; cases h⟩
  | some ts =>
    refine ⟨ts * 1000000000 + ttl + 1, fun now hnow ts' h => ?_⟩
    rw [hts] at h
    obtain rfl := Option.some.inj h
    omega

theorem isInCache_of_stale {cache : Dict Bytes ℤ} {key : Bytes} {ttl now : ℤ}
    (h : Stale cache key ttl now) : (isInCache cache key ttl now).2 = false := by
  unfold isInCache isExpired
  cases hts : cache.lookup key with
  | none => simp
  | some ts => simp [h ts hts]

theorem lookup_isInCache {cache : Dict Bytes ℤ} {key k : Bytes} {ttl now ts : ℤ}
    (h : (isInCache cache key ttl now).1.lookup k = some ts) : cache.lookup k = some ts := by
  unfold isInCache at h
  split_ifs at h
  · rw [Dict.lookup_erase] at h
    split_ifs at h
    exact h
  · exact h

namespace MovieState

variable (c : MovieConfig) (order : MapOrder) (s : MovieState)

def syncMovie (x : MovieCall) : MovieState × Option MovieStream :=
  s.processMovie c (c.existingIndex order s.files) (c.diskHashes order s.files) x

def task (movie : Movie) (imdbID : Bytes) : MovieTask :=
  ⟨movie, imdbID, (c.existingIndex order s.files).lookup imdbID, c.diskHashes order s.files⟩

def Considered (movie : Movie) (imdbID : Bytes) : Prop :=
  movie.name ≠ [] ∧ c.isBlacklisted s.blacklist movie.name = false ∧ imdbID ≠ []

def Tries (movie : Movie) (imdbID : Bytes) (streams : List ProwlarrStream) (stream : MovieStream) :
    Prop :=
  s.Considered c movie imdbID ∧
    Reaches c (s.task c order movie imdbID) (c.filterMovieStreams s.blacklist streams) stream

end MovieState

section Calls

variable {c : MovieConfig} {order : MapOrder} {s : MovieState} {movie : Movie} {imdbID : Bytes}
  {streams : List ProwlarrStream} {stream : MovieStream} {now : ℤ}

theorem checkCaches_frame (imdbID : Bytes) (now : ℤ) (s : MovieState) :
    (s.checkCaches imdbID now).1.files = s.files ∧
      (s.checkCaches imdbID now).1.blacklist = s.blacklist ∧
      (s.checkCaches imdbID now).1.noMKVCache = s.noMKVCache := by
  unfold MovieState.checkCaches
  dsimp only
  split_ifs <;> exact ⟨rfl, rfl, rfl⟩

theorem checkCaches_of_stale (hstreams : Stale s.noStreamsCache imdbID noStreamsCacheTTL now)
    (hrecheck : Stale s.recheckCache imdbID recheckCacheTTL now)
    (hadd : Stale s.addFailCache imdbID addFailCacheTTL now) : (s.checkCaches imdbID now).2 = false := by
  simp [MovieState.checkCaches, isInCache_of_stale hstreams, isInCache_of_stale hrecheck,
    isInCache_of_stale hadd]

def attempts (c : MovieConfig) (s : MovieState) (x : MovieCall) : List (MovieStream × MovieAnswers) :=
  (c.filterMovieStreams s.blacklist x.streams).mapIdx fun i stream => (stream, x.answers i)

theorem syncMovie_eq (order : MapOrder) {x : MovieCall} (hconsidered : s.Considered c x.movie x.imdbID)
    (hchecked : (s.checkCaches x.imdbID x.now).2 = false)
    (hcandidates : c.filterMovieStreams s.blacklist x.streams ≠ []) :
    ∃ s' : MovieState, s'.files = s.files ∧ s'.noMKVCache = s.noMKVCache ∧
      s.syncMovie c order x =
        s'.tryCandidates c (s.task c order x.movie x.imdbID) x.now (attempts c s x) := by
  obtain ⟨hfiles, hblacklist, hcache⟩ := checkCaches_frame x.imdbID x.now s
  obtain ⟨hname, hlisted, himdb⟩ := hconsidered
  have hstreams : x.streams.isEmpty = false := by
    cases hx : x.streams with
    | nil => rw [hx] at hcandidates; exact absurd rfl hcandidates
    | cons => rfl
  refine ⟨{ (s.checkCaches x.imdbID x.now).1 with
    noStreamsCache := AList.erase x.imdbID (s.checkCaches x.imdbID x.now).1.noStreamsCache },
    hfiles, hcache, ?_⟩
  simp only [MovieState.syncMovie, MovieState.processMovie, hname, hlisted, himdb, hchecked, hstreams,
    hblacklist, List.isEmpty_iff, hcandidates, Bool.false_eq_true, if_false, attempts]
  rfl

theorem loop_syncMovie (order : MapOrder) (x : MovieCall) :
    ((s.syncMovie c order x).1.files = s.files ∧ (s.syncMovie c order x).2 = none) ∨
      s.Considered c x.movie x.imdbID ∧ Loop c (s.task c order x.movie x.imdbID) (attempts c s x)
        s.files (s.syncMovie c order x).1.files (s.syncMovie c order x).2 := by
  obtain ⟨hfiles, hblacklist, -⟩ := checkCaches_frame x.imdbID x.now s
  by_cases hgoes : s.Considered c x.movie x.imdbID ∧ (s.checkCaches x.imdbID x.now).2 = false ∧
      c.filterMovieStreams s.blacklist x.streams ≠ []
  · obtain ⟨hconsidered, hchecked, hcandidates⟩ := hgoes
    obtain ⟨s', hfiles', -, heq⟩ := syncMovie_eq order hconsidered hchecked hcandidates
    refine .inr ⟨hconsidered, ?_⟩
    rw [heq, ← hfiles']
    exact loop_tryCandidates _
  · left
    unfold MovieState.syncMovie MovieState.processMovie
    dsimp only
    rw [hblacklist]
    split_ifs with hname hlisted himdb hchecked hstreams hcandidates
    · exact ⟨rfl, rfl⟩
    · exact ⟨rfl, rfl⟩
    · exact ⟨rfl, rfl⟩
    · exact ⟨hfiles, rfl⟩
    · exact ⟨hfiles, rfl⟩
    · exact ⟨hfiles, rfl⟩
    · refine absurd ⟨⟨hname, eq_false_of_ne_true hlisted, himdb⟩, eq_false_of_ne_true hchecked, ?_⟩ hgoes
      exact fun hempty => hcandidates (List.isEmpty_iff.mpr hempty)

theorem tryCandidates_append {t : MovieTask} {earlier : List (MovieStream × MovieAnswers)}
    (h : ∀ x ∈ earlier, t.noBetter x.1 = false ∧ x.2.added = none)
    (now : ℤ) (rest : List (MovieStream × MovieAnswers)) (s : MovieState) :
    ∃ s' : MovieState, s'.files = s.files ∧
      (∀ k ts, s'.noMKVCache.lookup k = some ts → s.noMKVCache.lookup k = some ts) ∧
      s.tryCandidates c t now (earlier ++ rest) = s'.tryCandidates c t now rest := by
  induction earlier generalizing s with
  | nil => exact ⟨s, rfl, fun _ _ h => h, rfl⟩
  | cons x earlier ih =>
    obtain ⟨hbetter, hadded⟩ := h x List.mem_cons_self
    obtain ⟨s', hs', hfiles, hcache⟩ : ∃ s' : MovieState, s.tryCandidate c t x = (s', .next) ∧
        s'.files = s.files ∧
        ∀ k ts, s'.noMKVCache.lookup k = some ts → s.noMKVCache.lookup k = some ts := by
      unfold MovieState.tryCandidate
      rw [if_neg (by simp [hbetter])]
      dsimp only
      split_ifs
      · exact ⟨_, rfl, rfl, fun _ _ => lookup_isInCache⟩
      · exact ⟨_, rfl, rfl, fun _ _ => lookup_isInCache⟩
      · rw [MovieState.addCandidate, hadded]
        exact ⟨_, rfl, rfl, fun _ _ => lookup_isInCache⟩
    obtain ⟨s'', hfiles', hcache', heq⟩ := ih (fun y hy => h y (List.mem_cons_of_mem _ hy)) s'
    refine ⟨s'', hfiles'.trans hfiles, fun k ts hts => hcache k ts (hcache' k ts hts), ?_⟩
    rw [List.cons_append, MovieState.tryCandidates, hs']
    exact heq

theorem tryCandidate_of_admits {t : MovieTask} {a : MovieAnswers} {hash : InfoHash} {f : FileStat}
    (hadmits : Admits t stream) (hstale : Stale s.noMKVCache stream.hash.digits noMKVCacheTTL a.now)
    (hadded : a.added = some hash) (hinfo : a.info = some [f]) (hf : c.acceptsFile stream f = true) :
    (s.tryCandidate c t (stream, a)).1.files = replaceStub c t stream hash f a.write s.files ∧
      (s.tryCandidate c t (stream, a)).2 = verdictOf a.write := by
  have hbest : a.info.bind (c.bestMovieFile stream) = some f := by
    have hsort := List.perm_singleton.mp (c.sort.perm (fun f g : FileStat => g.length < f.length) [f])
    simp [hinfo, MovieConfig.bestMovieFile, hf, hsort]
  unfold MovieState.tryCandidate
  dsimp only
  rw [hadmits.better, isInCache_of_stale hstale, hadmits.notOnDisk]
  simp only [Bool.false_eq_true, if_false, MovieState.addCandidate, hadded, hbest,
    MovieState.upgrade, replaceStub]
  cases a.write with
  | done | failed | cut part => exact ⟨rfl, rfl⟩

theorem exists_call_trying (h : s.Tries c order movie imdbID streams stream) (w : Write) :
    ∃ now answers a hash f rest, ∃ s' : MovieState,
      (∀ i : ℕ, (answers i).write = w) ∧ (∀ x ∈ rest, x.2.write = w) ∧
      (s'.tryCandidate c (s.task c order movie imdbID) (stream, a)).1.files =
        replaceStub c (s.task c order movie imdbID) stream hash f w s.files ∧
      (s'.tryCandidate c (s.task c order movie imdbID) (stream, a)).2 = verdictOf w ∧
      s.syncMovie c order ⟨movie, imdbID, streams, now, answers⟩ =
        s'.tryCandidates c (s.task c order movie imdbID) now ((stream, a) :: rest) := by
  obtain ⟨hconsidered, earlier, later, hcandidates, hearlier, hadmits, f, hf⟩ := h
  obtain ⟨n₁, h₁⟩ := exists_stale s.noStreamsCache imdbID noStreamsCacheTTL
  obtain ⟨n₂, h₂⟩ := exists_stale s.recheckCache imdbID recheckCacheTTL
  obtain ⟨n₃, h₃⟩ := exists_stale s.addFailCache imdbID addFailCacheTTL
  obtain ⟨n₄, h₄⟩ := exists_stale s.noMKVCache stream.hash.digits noMKVCacheTTL
  obtain ⟨now, hn₁, hn₂, hn₃, hn₄⟩ : ∃ now, n₁ ≤ now ∧ n₂ ≤ now ∧ n₃ ≤ now ∧ n₄ ≤ now :=
    ⟨max (max n₁ n₂) (max n₃ n₄), by omega, by omega, by omega, by omega⟩
  let answers : ℕ → MovieAnswers := fun i =>
    ⟨now, if i < earlier.length then none else some stream.hash, some [f], w⟩
  let x : MovieCall := ⟨movie, imdbID, streams, now, answers⟩
  have hattempts : attempts c s x =
      earlier.mapIdx (fun i stream => (stream, answers i)) ++ (stream, answers earlier.length) ::
        later.mapIdx (fun i stream => (stream, answers (i + 1 + earlier.length))) := by
    simp only [attempts, x, hcandidates, List.mapIdx_append, List.mapIdx_cons, Nat.zero_add]
  obtain ⟨s₁, hfiles₁, hcache₁, heq₁⟩ := syncMovie_eq (x := x) order hconsidered
    (checkCaches_of_stale (h₁ now hn₁) (h₂ now hn₂) (h₃ now hn₃)) (by simp [x, hcandidates])
  have hskipped : ∀ y ∈ earlier.mapIdx (fun i stream => (stream, answers i)),
      (s.task c order movie imdbID).noBetter y.1 = false ∧ y.2.added = none := by
    intro y hy
    obtain ⟨i, hi, rfl⟩ := List.mem_mapIdx.mp hy
    exact ⟨hearlier _ (List.getElem_mem hi), by simp [answers, hi]⟩
  obtain ⟨s₂, hfiles₂, hcache₂, heq₂⟩ := tryCandidates_append (c := c) hskipped now
    ((stream, answers earlier.length) ::
      later.mapIdx (fun i stream => (stream, answers (i + 1 + earlier.length)))) s₁
  have hstale : Stale s₂.noMKVCache stream.hash.digits noMKVCacheTTL now := fun ts hts =>
    h₄ now hn₄ ts (hcache₁ ▸ hcache₂ _ ts hts)
  have hadded : (answers earlier.length).added = some stream.hash := by simp [answers]
  obtain ⟨hfiles, hverdict⟩ := tryCandidate_of_admits (c := c) (s := s₂) (a := answers earlier.length)
    hadmits hstale hadded rfl hf
  refine ⟨now, answers, _, stream.hash, f, _, s₂, fun _ => rfl, ?_, ?_, hverdict,
    heq₁.trans (hattempts ▸ heq₂)⟩
  · intro y hy
    obtain ⟨i, hi, rfl⟩ := List.mem_mapIdx.mp hy
    rfl
  · rw [hfiles, hfiles₂, hfiles₁]

end Calls

def filmCall (hash : InfoHash) (days : ℤ) (write : Write) : MovieCall where
  movie := film
  imdbID := filmID
  streams := filmStreams
  now := days * 24 * hour
  answers := fun _ => ⟨days * 24 * hour, some hash, some [filmFile], write⟩

def noMovies : MovieState := ⟨∅, ∅, ∅, ∅, ⟨∅, []⟩, ∅⟩

def filmOnDisk : MovieState :=
  { noMovies with
    files := AList.singleton (movieSample.mkvPath film smallFilm)
      (movieSample.mkvContent film filmID smallFilm hashC filmFile) }

theorem existingIndex_filmOnDisk : movieSample.existingIndex .listed filmOnDisk.files =
    AList.insert filmID
      ⟨movieSample.mkvPath film smallFilm, filmID,
        movieSample.nameScore (filepathBase (movieSample.mkvPath film smallFilm))⟩ ∅ := by
  have hwalk : movieSample.walk .listed filmOnDisk.files =
      [(movieSample.mkvPath film smallFilm,
        movieSample.mkvContent film filmID smallFilm hashC filmFile)] := by
    have hitems : Dict.items filmOnDisk.files = [(movieSample.mkvPath film smallFilm,
      movieSample.mkvContent film filmID smallFilm hashC filmFile)] := rfl
    have hstub : isStubBelow movieSample.lowering movieSample.moviesDir
        (movieSample.mkvPath film smallFilm) = true := isStub_mkvPath _ _ _
    rw [MovieConfig.walk, stubsBelow, hitems, List.filter_cons, if_pos hstub, List.filter_nil]
    rfl
  have hlength : ¬ 10240 <
      (movieSample.mkvContent film filmID smallFilm hashC filmFile).length := by decide +kernel
  have himdb : imdbOf (movieSample.mkvContent film filmID smallFilm hashC filmFile) = filmID :=
    imdbOf_stubContent _ _ _ _
  rw [MovieConfig.existingIndex, hwalk, List.foldl_cons, List.foldl_nil, MovieConfig.indexFile]
  dsimp only
  rw [himdb, if_neg (by rw [not_or]; exact ⟨hlength, by decide⟩)]
  rfl

section Replacement

variable {c : MovieConfig} {order : MapOrder} {s : MovieState}

def CreatedFrom (c : MovieConfig) (files : Files) (stream : MovieStream) (path : Bytes) : Prop :=
  ∃ movie imdbID hash f, path = c.mkvPath movie stream ∧
    files.lookup path = some (c.mkvContent movie imdbID stream hash f)

def MovieState.Indexed (c : MovieConfig) (order : MapOrder) (s : MovieState) (imdbID path : Bytes) :
    Prop :=
  ∃ e, (c.existingIndex order s.files).lookup imdbID = some e ∧ e.path = path

theorem map_attempts (c : MovieConfig) (s : MovieState) (x : MovieCall) :
    (attempts c s x).map Prod.fst = c.filterMovieStreams s.blacklist x.streams := by
  apply List.ext_getElem
  · simp [attempts]
  · intro i hi hi'
    simp [attempts]

theorem mkvPath_ne_of_admits {movie : Movie} {imdbID path data : Bytes} {stream : MovieStream}
    (hfile : s.files.lookup path = some data) (hadmits : Admits (s.task c order movie imdbID) stream) :
    c.mkvPath movie stream ≠ path := by
  rintro rfl
  have hdisk := hadmits.notOnDisk
  rw [show (s.task c order movie imdbID).diskHashes = c.diskHashes order s.files from rfl,
    contains_diskHashes hfile] at hdisk
  cases hdisk

theorem exists_call_creating {movie : Movie} {imdbID : Bytes} {streams : List ProwlarrStream}
    {stream : MovieStream} (h : s.Tries c order movie imdbID streams stream) :
    ∃ now answers hash f, (∀ i : ℕ, (answers i).write = .done) ∧
      (s.syncMovie c order ⟨movie, imdbID, streams, now, answers⟩).1.files =
        replaceStub c (s.task c order movie imdbID) stream hash f .done s.files ∧
      (s.syncMovie c order ⟨movie, imdbID, streams, now, answers⟩).2 = some stream := by
  obtain ⟨now, answers, a, hash, f, rest, s', hdone, -, hfiles, hverdict, heq⟩ :=
    exists_call_trying h .done
  refine ⟨now, answers, hash, f, hdone, ?_⟩
  rw [heq, MovieState.tryCandidates]
  rcases hcase : s'.tryCandidate c (s.task c order movie imdbID) (stream, a) with ⟨s'', verdict⟩
  rw [hcase] at hfiles hverdict
  dsimp only at hfiles hverdict
  subst hverdict
  exact ⟨hfiles, rfl⟩

theorem lookup_existing_replaceStub {t : MovieTask} {e : MovieFile} {stream : MovieStream}
    {files : Files} (hexisting : t.existing = some e) (hne : c.mkvPath t.movie stream ≠ e.path)
    (hash : InfoHash) (f : FileStat) :
    (replaceStub c t stream hash f .done files).lookup e.path = none := by
  rw [replaceStub, createMKV, Dict.lookup_insert, if_neg hne.symm, MovieTask.removeExisting, hexisting]
  exact AList.lookup_erase e.path files

end Replacement

section Failures

variable {c : MovieConfig} {order : MapOrder} {s : MovieState}

def HasStub (c : MovieConfig) (files : Files) (imdbID : Bytes) : Prop :=
  ∃ path data, files.lookup path = some data ∧ c.isStub path = true ∧ imdbOf data = imdbID

/-- As long as every write succeeds, the movie keeps a stub. -/
theorem hasStub_of_writes {x : MovieCall} (hwrites : ∀ i, (x.answers i).write = .done)
    (hstub : HasStub c s.files x.imdbID) : HasStub c (s.syncMovie c order x).1.files x.imdbID := by
  rcases loop_syncMovie (c := c) (s := s) order x with ⟨hfiles, -⟩ | ⟨-, hloop⟩
  · exact hfiles ▸ hstub
  · have hdone : ∀ y ∈ attempts c s x, y.2.write = .done := by
      intro y hy
      obtain ⟨i, hi, rfl⟩ := List.mem_mapIdx.mp hy
      exact hwrites i
    rcases hloop.of_done hdone with ⟨-, hfiles⟩ | ⟨stream, hash, f, -, hfiles⟩
    · exact hfiles ▸ hstub
    · refine ⟨c.mkvPath x.movie stream, c.mkvContent x.movie x.imdbID stream hash f, ?_,
        isStub_mkvPath c x.movie stream, imdbOf_stubContent _ _ _ _⟩
      rw [hfiles]
      exact AList.lookup_insert _

theorem hasStub_of_writes_film : HasStub movieSample
    (filmOnDisk.syncMovie movieSample .listed (filmCall hashD 9 .done)).1.files filmID := by
  refine hasStub_of_writes (fun _ => rfl) ⟨movieSample.mkvPath film smallFilm,
    movieSample.mkvContent film filmID smallFilm hashC filmFile, ?_, isStub_mkvPath _ _ _, ?_⟩
  · rw [filmOnDisk, Dict.lookup_singleton, if_pos rfl]
  · exact imdbOf_stubContent _ _ _ _

/-- When a movie keeps a stub however calls fail. -/
theorem stub_survives_failures_iff (c : MovieConfig) (order : MapOrder) (s : MovieState) (movie : Movie)
    (imdbID : Bytes) (streams : List ProwlarrStream) :
    (∀ e, (c.existingIndex order s.files).lookup imdbID = some e → ∀ now answers,
        HasStub c (s.syncMovie c order ⟨movie, imdbID, streams, now, answers⟩).1.files imdbID) ↔
      ∀ e, (c.existingIndex order s.files).lookup imdbID = some e →
        (∀ stream, ¬ s.Tries c order movie imdbID streams stream) ∨
          HasStub c (AList.erase e.path s.files) imdbID := by
  constructor
  · intro hsurvives e he
    by_contra hlost
    push Not at hlost
    obtain ⟨⟨stream, htries⟩, hother⟩ := hlost
    obtain ⟨now, answers, a, hash, f, rest, s', -, hfailed, hfiles, hverdict, heq⟩ :=
      exists_call_trying htries .failed
    obtain ⟨path, data, hfile, hstub, himdb⟩ := hsurvives e he now answers
    rcases hcase : s'.tryCandidate c (s.task c order movie imdbID) (stream, a) with ⟨s'', verdict⟩
    rw [hcase] at hfiles hverdict
    dsimp only at hfiles hverdict
    subst hverdict
    rw [heq, MovieState.tryCandidates, hcase] at hfile
    have hexisting : (s.task c order movie imdbID).existing = some e := he
    have hkept : s''.files.lookup path = some data :=
      (loop_tryCandidates rest).lookup_of_failed hfailed hfile
    rw [hfiles, replaceStub, createMKV, MovieTask.removeExisting, hexisting] at hkept
    exact hother ⟨path, data, hkept, hstub, himdb⟩
  · intro hcond e he now answers
    rcases loop_syncMovie (c := c) (s := s) order ⟨movie, imdbID, streams, now, answers⟩ with
      ⟨hfiles, -⟩ | ⟨hconsidered, hloop⟩
    · obtain ⟨data, hfile, hstub, himdb⟩ := existingIndex_spec he
      exact ⟨e.path, data, hfiles ▸ hfile, hstub, himdb⟩
    rcases hcond e he with hnone | ⟨path, data, hfile, hstub, himdb⟩
    · have hfiles := hloop.eq_of_not_reaches fun stream hreach => by
        rw [map_attempts] at hreach
        exact hnone stream ⟨hconsidered, hreach⟩
      obtain ⟨data, hfile, hstub, himdb⟩ := existingIndex_spec he
      exact ⟨e.path, data, hfiles ▸ hfile, hstub, himdb⟩
    · -- the other stub is neither removed nor written over
      rw [Dict.lookup_erase] at hfile
      split_ifs at hfile with hpath
      refine ⟨path, data, ?_, hstub, himdb⟩
      rw [← hfile]
      refine hloop.lookup_of_ne ?_ fun stream hadmits => mkvPath_ne_of_admits hfile hadmits
      intro e' he' hpath'
      have heq : e' = e := Option.some.inj (he'.symm.trans he)
      exact hpath (heq ▸ hpath'.symm)

theorem stub_lost_by_failed_write :
    ((movieSample.existingIndex .listed filmOnDisk.files).lookup filmID).isSome = true ∧
      ¬ HasStub movieSample
        (filmOnDisk.syncMovie movieSample .listed (filmCall hashD 9 .failed)).1.files filmID := by
  refine ⟨by rw [existingIndex_filmOnDisk, AList.lookup_insert]; rfl, ?_⟩
  rintro ⟨path, data, hfile, -⟩
  have hempty : Dict.items
      (filmOnDisk.syncMovie movieSample .listed (filmCall hashD 9 .failed)).1.files = [] := by
    rw [MovieState.syncMovie, existingIndex_filmOnDisk]
    decide +kernel
  have hmem := Dict.mem_items.mpr hfile
  rw [hempty] at hmem
  cases hmem

end Failures

end GoStream.Engines
