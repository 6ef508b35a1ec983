import GoStream.Engines.Rehydration
import GoStream.Health.Checker

/-!
# Saved alternatives and the cycles after them
-/

namespace GoStream.Health

open Foundations Metadb

structure SavedStream where
  hash : Bytes
  title : Bytes
  sizeGB : ℚ
  seeders : ℤ
  qualityScore : ℤ

def SavedStream.size (s : SavedStream) : Int64 :=
  Int64.ofInt (Quality.truncate
    (Float64.mul (Float64.mul (Float64.mul s.sizeGB 1024) 1024) 1024))

def alternativesOf (contentType : ContentType) (contentID : Bytes) (streams : List SavedStream)
    (now : ℕ → Int64) : List TorrentAlternative :=
  (streams.take 20).mapIdx fun i s =>
    { contentID := contentID
      contentType := contentType
      rank := i + 1
      hash := s.hash
      title := s.title
      size := s.size
      seeders := s.seeders
      qualityScore := s.qualityScore
      status := .active
      lastHealthCheck := now i
      avgSpeedKBps := 0
      replacementCount := 0 }

def saveMovieAlternatives (table : Alternatives) (imdbID : Bytes) (streams : List SavedStream)
    (now : ℕ → Int64) : Alternatives :=
  if streams.isEmpty || imdbID.isEmpty then table
  else table.saveAlternativesForContent imdbID (alternativesOf .movie imdbID streams now)

def saveTVAlternatives (table : Alternatives) (imdbID : Bytes) (streams : List SavedStream)
    (now : ℕ → Int64) : Alternatives :=
  if streams.isEmpty then table
  else table.saveAlternativesForContent imdbID (alternativesOf .tv imdbID streams now)

inductive Writer where
  | movie (imdbID : Bytes) (streams : List SavedStream) (now : ℕ → Int64)
  | tv (imdbID : Bytes) (streams : List SavedStream) (now : ℕ → Int64)
  | cycle (env : Surroundings)

section Detection

variable (cfg : Config) (S : SliceSort)

def write (table : Alternatives) : Writer → Alternatives
  | .movie imdbID streams now => saveMovieAlternatives table imdbID streams now
  | .tv imdbID streams now => saveTVAlternatives table imdbID streams now
  | .cycle env => (runCheck cfg env S table).table

def tableAfter (history : List Writer) : Alternatives := run (write cfg S) Table.empty history

def TestsBad (env : Surroundings) (hash : Bytes) : Prop :=
  ∀ n, (verdict cfg env n hash).1 = .dead ∨ (verdict cfg env n hash).1 = .verifiedSlow

def Detected (env : Surroundings) (table : Alternatives) : Prop :=
  ∀ alt ∈ table.rows, alt.rank = 1 → TestsBad cfg env alt.hash →
    (∃ r ∈ (runCheck cfg env S table).table.rows, r.Clash alt ∧
      (r.status = .dead ∨ r.status = .verifiedSlow)) ∨
    ∃ newHash magnet title, .replace alt.contentID alt.hash newHash magnet title true ∈
      (runCheck cfg env S table).log

theorem status_of_mem_alternativesOf {contentType : ContentType} {contentID : Bytes}
    {streams : List SavedStream} {now : ℕ → Int64} {a : TorrentAlternative}
    (h : a ∈ alternativesOf contentType contentID streams now) : a.status = .active := by
  obtain ⟨i, hi, rfl⟩ := List.mem_mapIdx.mp h
  rfl

theorem not_unhealthy_of_active {status : AlternativeStatus} (h : status = .active) :
    ¬ (status = .dead ∨ status = .verifiedSlow) := by
  rw [h]
  rintro (hstatus | hstatus)
  · cases hstatus
  · cases hstatus

theorem runCheck_of_active {table : Alternatives} (h : ∀ a ∈ table.rows, a.status = .active)
    (env : Surroundings) : runCheck cfg env S table = ⟨table, 0, 0, false, []⟩ := by
  have hnone : table.getUnhealthyAlternatives S = [] := by
    apply List.eq_nil_iff_forall_not_mem.mpr
    intro a ha
    obtain ⟨hmem, hstatus⟩ := Alternatives.mem_getUnhealthyAlternatives.mp ha
    exact not_unhealthy_of_active (h a hmem) hstatus
  rw [runCheck, hnone, run_nil]

theorem not_detected_of_active {table : Alternatives} (h : ∀ a ∈ table.rows, a.status = .active)
    {env : Surroundings} {alt : TorrentAlternative} (halt : alt ∈ table.rows) (hrank : alt.rank = 1)
    (hbad : TestsBad cfg env alt.hash) : ¬ Detected cfg S env table := by
  intro hdetected
  have hfound := hdetected alt halt hrank hbad
  rw [runCheck_of_active cfg S h env] at hfound
  rcases hfound with ⟨r, hr, -, hstatus⟩ | ⟨newHash, magnet, title, hlog⟩
  · exact not_unhealthy_of_active (h r hr) hstatus
  · cases hlog

theorem active_write {table : Alternatives} (h : ∀ a ∈ table.rows, a.status = .active)
    (w : Writer) : ∀ a ∈ (write cfg S table w).rows, a.status = .active := by
  have hsave : ∀ contentType contentID streams now,
      ∀ a ∈ (table.saveAlternativesForContent contentID
        (alternativesOf contentType contentID streams now)).rows, a.status = .active := by
    intro contentType contentID streams now a ha
    rcases Alternatives.of_mem_saveAlternativesForContent ha with ha | ha
    · exact h a ha
    · exact status_of_mem_alternativesOf ha
  cases w with
  | movie imdbID streams now =>
    rw [write, saveMovieAlternatives]
    split_ifs
    · exact h
    · exact hsave _ _ _ _
  | tv imdbID streams now =>
    rw [write, saveTVAlternatives]
    split_ifs
    · exact h
    · exact hsave _ _ _ _
  | cycle env =>
    rw [write, runCheck_of_active cfg S h]
    exact h

theorem active_tableAfter (history : List Writer) :
    ∀ a ∈ (tableAfter cfg S history).rows, a.status = .active := by
  apply run_keeps (fun t : Alternatives => ∀ a ∈ t.rows, a.status = .active)
  · exact fun _ w h => active_write cfg S h w
  · exact fun a ha => absurd ha List.not_mem_nil

end Detection

/-- When a cycle detects the dead and the slow torrents. -/
theorem dead_detected_iff (cfg : Config) (S : SliceSort) (history : List Writer)
    (env : Surroundings) :
    Detected cfg S env (tableAfter cfg S history) ↔
      ∀ alt ∈ (tableAfter cfg S history).rows, alt.rank = 1 → ¬ TestsBad cfg env alt.hash := by
  have hactive := active_tableAfter cfg S history
  constructor
  · intro h alt halt hrank hbad
    exact not_detected_of_active cfg S hactive halt hrank hbad h
  · intro h alt halt hrank hbad
    exact absurd hbad (h alt halt hrank)

def savedFilm : List Writer :=
  [.movie (ascii "tt01") [⟨ascii "aa", ascii "A", 1, 5, 10⟩] fun _ => 0]

def unreachable : Surroundings where
  start := 1000
  cancelled _ := false
  currentTorrentStatus _ _ := none
  testTorrent _ _ := none
  replaceTorrent _ _ _ _ := false
  now _ := 1000

theorem unreachable_torrent_undetected :
    ¬ Detected defaultConfig .insertion unreachable
      (tableAfter defaultConfig .insertion savedFilm) := by
  have hrow : ((tableAfter defaultConfig .insertion savedFilm).rows.any fun a =>
      a.rank = 1) = true := by decide +kernel
  obtain ⟨alt, halt, hrank⟩ := List.any_eq_true.mp hrow
  have hactive := active_tableAfter defaultConfig .insertion savedFilm
  have hbad : TestsBad defaultConfig unreachable alt.hash := fun n => .inl rfl
  exact not_detected_of_active _ _ hactive halt (of_decide_eq_true hrank) hbad

structure GoStormAnswer where
  added : Bool
  fileStats : Option ℕ

def goStormReplaceTorrent (a : GoStormAnswer) : Bool := a.added && a.fileStats.any (0 < ·)

structure World where
  alternatives : Alternatives
  torrents : List Bytes
  library : Engines.Files

def withGoStorm (env : Surroundings) (answer : ℕ → Bytes → GoStormAnswer) : Surroundings :=
  { env with replaceTorrent := fun n _ _ newHash => goStormReplaceTorrent (answer n newHash) }

def Event.addedTorrent (answer : Bytes → GoStormAnswer) : Event → Option Bytes
  | .replace _ _ newHash _ _ _ => if (answer newHash).added then some newHash else none
  | _ => none

def World.tryReplace (cfg : Config) (env : Surroundings) (answer : ℕ → Bytes → GoStormAnswer)
    (S : SliceSort) (n : ℕ) (dead : TorrentAlternative) (w : World) : Bool × World :=
  let result := Health.tryReplace cfg (withGoStorm env answer) S n dead w.alternatives
  (result.1, { w with
    alternatives := result.2.1
    torrents := w.torrents ++ result.2.2.filterMap (Event.addedTorrent (answer n)) })

def PointsTo (data hash : Bytes) : Prop :=
  ((Engines.stubParts data).bind fun p => Engines.linkHash p.url) = some hash

def laterCycles (cfg : Config) (S : SliceSort) (table : Alternatives) :
    List Surroundings → List Event
  | [] => []
  | env :: envs =>
    (runCheck cfg env S table).log ++ laterCycles cfg S (runCheck cfg env S table).table envs

structure Effective (cfg : Config) (S : SliceSort) (before after : World)
    (contentID oldHash newHash : Bytes) : Prop where
  rank : ∀ r ∈ after.alternatives.rows, r.contentID = contentID → (r.rank = 1 ↔ r.hash = newHash)
  stubs : ∀ path data, before.library.lookup path = some data → Engines.imdbOf data = contentID →
    PointsTo data oldHash →
      ∃ data', after.library.lookup path = some data' ∧ PointsTo data' newHash
  settled : ∀ envs, ∀ e ∈ laterCycles cfg S after.alternatives envs, ∀ hash magnet title ok,
    e ≠ .replace contentID oldHash hash magnet title ok

/-- When a reported replacement is effective. -/
theorem replacement_effective_iff (cfg : Config) (env : Surroundings)
    (answer : ℕ → Bytes → GoStormAnswer) (S : SliceSort) (n : ℕ) (w : World)
    (dead : TorrentAlternative) (hrow : ∃ r ∈ w.alternatives.rows, r.Clash dead ∧ r.rank = 1) :
    ((w.tryReplace cfg env answer S n dead).1 = true →
      ∀ next, replacement cfg env S n dead w.alternatives = some next →
        Effective cfg S w (w.tryReplace cfg env answer S n dead).2 dead.contentID dead.hash
          next.hash) ↔
      ∀ next, replacement cfg env S n dead w.alternatives = some next →
        goStormReplaceTorrent (answer n next.hash) = false := by
  have hattempt : Attempt cfg (withGoStorm env answer) S n dead w.alternatives _ _ _ :=
    tryReplace_attempt n dead w.alternatives
  constructor
  · intro heffective next hnext
    by_contra haccepted
    rw [Bool.not_eq_false] at haccepted
    have hok : (w.tryReplace cfg env answer S n dead).1 = true :=
      hattempt.ok_iff.mpr ⟨next, hnext, haccepted⟩
    -- the old row is still there, with its rank
    obtain ⟨r, hr, hclash, hrank⟩ := hrow
    obtain ⟨r', hr', hid, hhash, hrank'⟩ := hattempt.exists_row hr
    have hnew : r'.hash = next.hash :=
      ((heffective hok next hnext).rank r' hr' (hid.trans hclash.1)).mp (hrank'.trans hrank)
    have hfound := (Option.filter_eq_some_iff.mp hnext).1
    have hne := (Alternatives.of_getNextBestAlternative hfound).2.2.1
    exact hne (hnew.symm.trans (hhash.trans hclash.2))
  · intro hrefused hok
    obtain ⟨next, hnext, haccepted⟩ := hattempt.ok_iff.mp hok
    have hno : goStormReplaceTorrent (answer n next.hash) = false := hrefused next hnext
    rw [show goStormReplaceTorrent (answer n next.hash) = true from haccepted] at hno
    cases hno

def filmWorld : World := ⟨filmTable, [], ∅⟩

theorem replacement_effective_film :
    (filmWorld.tryReplace defaultConfig recovery (fun _ _ => ⟨false, none⟩) .insertion 0
        deadFilm).1 = false ∧
      ((filmWorld.tryReplace defaultConfig recovery (fun _ _ => ⟨false, none⟩) .insertion 0
          deadFilm).1 = true →
        ∀ next, replacement defaultConfig recovery .insertion 0 deadFilm filmTable = some next →
          Effective defaultConfig .insertion filmWorld
            (filmWorld.tryReplace defaultConfig recovery (fun _ _ => ⟨false, none⟩) .insertion 0
              deadFilm).2 (ascii "tt01") (ascii "aa") next.hash) :=
  ⟨by decide +kernel, (replacement_effective_iff defaultConfig recovery _ .insertion 0 filmWorld
    deadFilm ⟨deadFilm, List.mem_cons_self, ⟨rfl, rfl⟩, rfl⟩).mpr fun _ _ => rfl⟩

theorem reported_replacement_repeats :
    (filmWorld.tryReplace defaultConfig recovery (fun _ _ => ⟨true, some 1⟩) .insertion 0
        deadFilm).1 = true ∧
      ¬ Effective defaultConfig .insertion filmWorld
        (filmWorld.tryReplace defaultConfig recovery (fun _ _ => ⟨true, some 1⟩) .insertion 0
          deadFilm).2 (ascii "tt01") (ascii "aa") (ascii "bb") := by
  have hagain : .replace (ascii "tt01") (ascii "aa") (ascii "bb")
      (buildMagnet (ascii "bb") (ascii "B")) (ascii "B") true ∈
        laterCycles defaultConfig .insertion (filmWorld.tryReplace defaultConfig recovery
          (fun _ _ => ⟨true, some 1⟩) .insertion 0 deadFilm).2.alternatives [recovery] := by
    decide +kernel
  refine ⟨by decide +kernel, ?_⟩
  intro heffective
  exact heffective.settled [recovery] _ hagain _ _ _ _ rfl

end GoStream.Health
