import GoStream.Engines.TV

/-!
# What a run of the TV engine deletes
-/

namespace GoStream.Engines

open Foundations Inodes

structure EpisodeId where
  sh : TVShow
  season : Int64
  episode : Int64

def Creation.id (x : Creation) : EpisodeId := ⟨x.sh, x.season, x.episode⟩

section Found

variable {c : TVConfig} {s : TVState} (torrents : List TorrentStats) (modTime : Bytes → ℤ)

def TVConfig.OnDisk (c : TVConfig) (files : Files) (path : Bytes) : Prop :=
  c.isStub path = true ∧ (files.lookup path).isSome = true

def TVConfig.Found (c : TVConfig) (s : TVState) : Prop :=
  ∀ p, c.OnDisk s.files p → registryByPath s.registry p = false →
    ∃ key, c.existingKey p = some key ∧ s.registry.lookup key = none ∧
      ∀ q, c.OnDisk s.files q → registryByPath s.registry q = false →
        c.existingKey q = some key → q = p

theorem registryByPath_insert {registry : Dict Bytes TVEpisodeEntry} {key : Bytes}
    {entry : TVEpisodeEntry} (hfree : registry.lookup key = none) {p : Bytes} :
    registryByPath (AList.insert key entry registry) p = true ↔
      registryByPath registry p = true ∨ entry.filePath = p := by
  simp only [registryByPath_iff, Dict.lookup_insert]
  constructor
  · rintro ⟨k, e, hk, hp⟩
    split_ifs at hk with heq
    · obtain rfl := Option.some.inj hk
      exact .inr hp
    · exact .inl ⟨k, e, hk, hp⟩
  · rintro (⟨k, e, hk, hp⟩ | hp)
    · have hne : k ≠ key := by
        rintro rfl
        rw [hfree] at hk
        cases hk
      exact ⟨k, e, by rw [if_neg hne]; exact hk, hp⟩
    · exact ⟨key, entry, by rw [if_pos rfl], hp⟩

structure Populated (c : TVConfig) (s : TVState) (seen : List Bytes)
    (registry : Dict Bytes TVEpisodeEntry) : Prop where
  kept : ∀ p, registryByPath s.registry p = true → registryByPath registry p = true
  registered : ∀ p ∈ seen, registryByPath registry p = true
  key : ∀ k, registry.lookup k ≠ none → s.registry.lookup k ≠ none ∨
    ∃ q ∈ seen, registryByPath s.registry q = false ∧ c.existingKey q = some k

theorem populated_populateFile (hfound : c.Found s) {seen : List Bytes}
    {registry : Dict Bytes TVEpisodeEntry} (h : Populated c s seen registry)
    {f : Bytes × Bytes} (hf : c.OnDisk s.files f.1) (hnew : f.1 ∉ seen)
    (hseen : ∀ q ∈ seen, c.OnDisk s.files q) :
    Populated c s (f.1 :: seen) (c.populateFile torrents modTime registry f) := by
  unfold TVConfig.populateFile
  split_ifs with hpath
  · exact ⟨h.kept, List.forall_mem_cons.mpr ⟨hpath, h.registered⟩,
      fun k hk => (h.key k hk).imp id fun ⟨q, hq, hrest⟩ => ⟨q, List.mem_cons_of_mem _ hq, hrest⟩⟩
  · have hold : registryByPath s.registry f.1 = false := by
      by_contra hreg
      exact hpath (h.kept f.1 (by simpa using hreg))
    obtain ⟨key, hkey, hfree, honly⟩ := hfound f.1 hf hold
    obtain ⟨x, hx, rfl⟩ := Option.map_eq_some_iff.mp hkey
    have hfree' : registry.lookup (c.lowering.episodeKey x.showName [] x.season x.episode) = none := by
      by_contra hne
      rcases h.key _ hne with hs | ⟨q, hq, hqreg, hqkey⟩
      · exact hs hfree
      · obtain rfl := honly q (hseen q hq) hqreg hqkey
        exact hnew hq
    rw [hx]
    simp only [hfree', Option.isSome_none, Bool.false_eq_true, if_false]
    constructor
    · intro p hp
      exact (registryByPath_insert hfree').mpr (.inl (h.kept p hp))
    · intro p hp
      rcases List.mem_cons.mp hp with rfl | hp
      · exact (registryByPath_insert hfree').mpr (.inr rfl)
      · exact (registryByPath_insert hfree').mpr (.inl (h.registered p hp))
    · intro k hk
      rw [Dict.lookup_insert] at hk
      split_ifs at hk with heq
      · subst heq
        exact .inr ⟨f.1, List.mem_cons_self, hold, hkey⟩
      · exact (h.key k hk).imp id fun ⟨q, hq, hrest⟩ => ⟨q, List.mem_cons_of_mem _ hq, hrest⟩

theorem populated_foldl (hfound : c.Found s) (l : List (Bytes × Bytes)) {seen : List Bytes}
    {registry : Dict Bytes TVEpisodeEntry} (h : Populated c s seen registry)
    (hl : ∀ f ∈ l, c.OnDisk s.files f.1) (hnodup : (l.map Prod.fst).Nodup)
    (hnew : ∀ f ∈ l, f.1 ∉ seen) (hseen : ∀ q ∈ seen, c.OnDisk s.files q) :
    Populated c s ((l.map Prod.fst).reverse ++ seen)
      (l.foldl (c.populateFile torrents modTime) registry) := by
  induction l generalizing seen registry with
  | nil => exact h
  | cons f l ih =>
    rw [List.map_cons, List.nodup_cons] at hnodup
    have hf := hl f List.mem_cons_self
    have hstep := populated_populateFile torrents modTime hfound h hf
      (hnew f List.mem_cons_self) hseen
    have := ih hstep (fun g hg => hl g (List.mem_cons_of_mem _ hg)) hnodup.2
      (fun g hg => ?_) (List.forall_mem_cons.mpr ⟨hf, hseen⟩)
    · simpa using this
    · rw [List.mem_cons, not_or]
      refine ⟨?_, hnew g (List.mem_cons_of_mem _ hg)⟩
      rintro heq
      exact hnodup.1 (heq ▸ List.mem_map_of_mem hg)

theorem nodup_map_walk (c : TVConfig) (order : MapOrder) (files : Files) :
    ((c.walk order files).map Prod.fst).Nodup :=
  nodup_map_stubsBelow c.lowering c.tvDir order files

theorem registryByPath_populate (hfound : c.Found s) (order : MapOrder) {p : Bytes}
    (hp : c.OnDisk s.files p) :
    registryByPath (c.populateRegistryFromExisting order torrents modTime s).registry p = true := by
  have hstart : Populated c s [] s.registry :=
    ⟨fun _ h => h, fun _ h => absurd h List.not_mem_nil, fun _ h => .inl h⟩
  have hdisk : ∀ f ∈ c.walk order s.files, c.OnDisk s.files f.1 := fun f hf => by
    obtain ⟨hlookup, hstub⟩ := mem_walk.mp hf
    exact ⟨hstub, by rw [hlookup]; rfl⟩
  have hend := populated_foldl torrents modTime hfound _ hstart hdisk
    (nodup_map_walk c order s.files) (fun _ _ => List.not_mem_nil)
    (fun _ h => absurd h List.not_mem_nil)
  apply hend.registered
  obtain ⟨data, hdata⟩ := Option.isSome_iff_exists.mp hp.2
  simpa using ⟨data, mem_walk.mpr ⟨hdata, hp.1⟩⟩

end Found

structure RunInput where
  order : MapOrder
  torrents : List TorrentStats
  modTime : Bytes → ℤ
  jobs : List Job
  finishes : Bool
  cleanupOrder : MapOrder

def TVState.opsOf (c : TVConfig) : TVState → List Job → List TVOp
  | _, [] => []
  | s, job :: jobs => job.ops c s ++ TVState.opsOf c (s.process c job).state jobs

structure TVRun where
  tv : TVState
  written : List (Bytes × EpisodeId)

namespace TVRun

variable (c : TVConfig)

def step (s : TVRun) : TVOp → TVRun
  | .mark key => { s with tv := s.tv.mark key }
  | .attempt x =>
    let r := s.tv.attempt c x
    ⟨r.1, if r.2 then (x.epPath c, x.id) :: s.written else s.written⟩

def start (r : RunInput) (s : TVState) : TVRun :=
  ⟨c.populateRegistryFromExisting r.order r.torrents r.modTime s, []⟩

def finish (r : RunInput) (s : TVState) : TVRun :=
  let t := run (step c) (start c r s) (TVState.opsOf c (start c r s).tv r.jobs)
  if r.finishes then
    { t with tv := { t.tv with files := c.cleanupOrphanedFiles r.cleanupOrder t.tv.registry t.tv.files } }
  else t

theorem tv_run (s : TVRun) (ops : List TVOp) :
    (run (step c) s ops).tv = run (TVState.step c) s.tv ops := by
  induction ops generalizing s with
  | nil => rfl
  | cons op ops ih =>
    rw [run_cons, run_cons, ih]
    cases op <;> rfl

theorem tv_run_opsOf (s : TVRun) (jobs : List Job) :
    (run (step c) s (TVState.opsOf c s.tv jobs)).tv =
      jobs.foldl (fun t job => (t.process c job).state) s.tv := by
  rw [tv_run]
  generalize s.tv = t
  induction jobs generalizing t with
  | nil => rfl
  | cons job jobs ih =>
    rw [TVState.opsOf, run, List.foldl_append, List.foldl_cons]
    have hjob := process_eq_run (c := c) (s := t) job
    rw [run] at hjob
    rw [← hjob]
    exact ih _

variable (about : Bytes → Option EpisodeId) (library : TVState)

def Own (s : TVRun) : TVOp → Prop
  | .mark _ => True
  | .attempt x => s.tv.processedThisRun.contains (x.key c) = false →
      s.tv.keeps (x.key c) x.score = false → x.write = .done →
      ∀ p, c.OnDisk library.files p →
        (p = x.epPath c ∨ ∃ e, s.tv.registry.lookup (x.key c) = some e ∧ e.filePath = p) →
        about p = some x.id

def Kept (s : TVRun) (p : Bytes) : Prop :=
  (s.tv.files.lookup p).isSome = true ∧ ∀ id, (p, id) ∉ s.written

def Superseded (s : TVRun) (p : Bytes) : Prop :=
  ∃ q id, (q, id) ∈ s.written ∧ about p = some id

def Accounted (s : TVRun) : Prop :=
  ∀ p, c.OnDisk library.files p →
    (s.Kept p ∧ registryByPath s.tv.registry p = true) ∨ s.Superseded about p

variable {c about library}

theorem accounted_write {s : TVRun} {x : Creation} (hs : s.Accounted c about library)
    (hdone : x.write = .done) (hown : ∀ p, c.OnDisk library.files p →
      (p = x.epPath c ∨ ∃ e, s.tv.registry.lookup (x.key c) = some e ∧ e.filePath = p) →
      about p = some x.id) :
    (⟨(s.tv.writeEpisode c x).1, (x.epPath c, x.id) :: s.written⟩ : TVRun).Accounted c about library := by
  intro p hp
  by_cases hmine : p = x.epPath c ∨ ∃ e, s.tv.registry.lookup (x.key c) = some e ∧ e.filePath = p
  · exact .inr ⟨x.epPath c, x.id, List.mem_cons_self, hown p hp hmine⟩
  · rw [not_or] at hmine
    obtain ⟨hpath, hkey⟩ := hmine
    rcases hs p hp with ⟨⟨hfile, hwritten⟩, hreg⟩ | ⟨q, id, hmem, habout⟩
    · refine .inl ⟨⟨?_, ?_⟩, ?_⟩
      · rw [lookup_files_writeEpisode_done hdone, if_neg, if_neg hpath]
        · exact hfile
        · intro hold
          obtain ⟨e, he, hep, -⟩ := replaced_eq_some.mp hold
          exact hkey ⟨e, he, hep⟩
      · intro id hmem
        rcases List.mem_cons.mp hmem with heq | hmem
        · exact hpath (Prod.mk.inj heq).1
        · exact hwritten id hmem
      · obtain ⟨k, e, hk, hep⟩ := registryByPath_iff.mp hreg
        have hne : k ≠ x.key c := by
          rintro rfl
          exact hkey ⟨e, hk, hep⟩
        refine registryByPath_iff.mpr ⟨k, e, ?_, hep⟩
        rw [lookup_registry_writeEpisode_done hdone, if_neg hne]
        exact hk
    · exact .inr ⟨q, id, List.mem_cons_of_mem _ hmem, habout⟩

theorem accounted_no_write {s : TVRun} {x : Creation} (hs : s.Accounted c about library)
    (hw : x.write ≠ .done) :
    (⟨(s.tv.writeEpisode c x).1, s.written⟩ : TVRun).Accounted c about library := by
  intro p hp
  refine (hs p hp).imp ?_ id
  rintro ⟨⟨hfile, hwritten⟩, hreg⟩
  refine ⟨⟨?_, hwritten⟩, by rw [registry_writeEpisode_of_ne_done hw]; exact hreg⟩
  cases hx : x.write with
  | done => exact absurd hx hw
  | failed =>
    rw [writeEpisode_failed hx]
    exact hfile
  | cut part =>
    rw [writeEpisode_cut hx, Dict.lookup_insert]
    split_ifs
    · rfl
    · exact hfile

theorem accounted_step (s : TVRun) (op : TVOp) (hs : s.Accounted c about library)
    (hown : Own c about library s op) : (step c s op).Accounted c about library := by
  cases op with
  | mark key => exact hs
  | attempt x =>
    rcases attempt_cases c x s.tv with ⟨-, heq⟩ | ⟨-, heq⟩ | ⟨hprocessed, hkeeps, heq⟩
    · simp only [step, heq]
      exact hs
    · simp only [step, heq]
      exact hs
    · simp only [step, heq]
      by_cases hdone : x.write = .done
      · rw [if_pos (by simpa using hdone)]
        exact accounted_write hs hdone (hown hprocessed hkeeps hdone)
      · rw [if_neg (by simpa using hdone)]
        exact accounted_no_write hs hdone

/-- A stub stays, or its episode has a new one. -/
theorem run_deletes_only_superseded (r : RunInput) (hfound : c.Found library)
    (hown : Meets (Own c about library) (step c) (start c r library)
      (TVState.opsOf c (start c r library).tv r.jobs)) :
    ∀ p, c.OnDisk library.files p →
      (finish c r library).Kept p ∨ (finish c r library).Superseded about p := by
  have hstart : (start c r library).Accounted c about library := fun p hp =>
    .inl ⟨⟨hp.2, fun _ => List.not_mem_nil⟩, registryByPath_populate _ _ hfound _ hp⟩
  have hend := Meets.invariant accounted_step _ hstart hown
  intro p hp
  unfold finish
  dsimp only
  split_ifs with hfinishes
  · rcases hend p hp with ⟨⟨hfile, hwritten⟩, hreg⟩ | hsuperseded
    · refine .inl ⟨?_, hwritten⟩
      rw [lookup_cleanupOrphanedFiles, if_neg (by simp [hreg])]
      exact hfile
    · exact .inr hsuperseded
  · exact (hend p hp).imp And.left id

def upgrade : RunInput where
  order := .listed
  torrents := []
  modTime := fun _ => 0
  jobs := [.single showLost (pilotStream 400000) (goodAnswers hashB)]
  finishes := true
  cleanupOrder := .listed

theorem upgrade_deletes_only_superseded :
    (finish tvSample upgrade (libraryOf showLost hashA)).Kept ((pilot showLost hashA).epPath tvSample) ∨
      (finish tvSample upgrade (libraryOf showLost hashA)).Superseded
        (fun _ => some ⟨showLost, 1, 1⟩) ((pilot showLost hashA).epPath tvSample) := by
  refine run_deletes_only_superseded upgrade ?_ ?_ _ ⟨by decide +kernel, by decide +kernel⟩
  · rintro p ⟨-, hfile⟩ hreg
    have hpath : p = (pilot showLost hashA).epPath tvSample := by
      by_contra hne
      rw [libraryOf, Dict.lookup_singleton, if_neg hne] at hfile
      cases hfile
    subst hpath
    exact absurd hreg (by decide +kernel)
  · have hops : TVState.opsOf tvSample (start tvSample upgrade (libraryOf showLost hashA)).tv
        upgrade.jobs = [.attempt { pilot showLost hashB with
          score := 400000
          magnet := (pilotStream 400000).magnet
          file := ⟨1, ascii "Lost.S01E01.1080p.mkv", 900000000⟩
          source := ascii "single" }] := by decide +kernel
    rw [hops]
    exact ⟨fun _ _ _ _ _ _ => rfl, trivial⟩

def showLost2020 : TVShow := { showLost with firstAirDate := ascii "2020-01-01", year := rfl }

def twoShows : TVState where
  registry := ∅
  processedThisRun := []
  files := AList.insert ((pilot showLost hashA).epPath tvSample)
    ((pilot showLost hashA).content tvSample)
    (AList.singleton ((pilot showLost2020 hashB).epPath tvSample)
      ((pilot showLost2020 hashB).content tvSample))

theorem run_deletes_stub_of_same_key : ∃ p, tvSample.OnDisk twoShows.files p ∧
    ∀ about, ¬ ((finish tvSample { upgrade with jobs := [] } twoShows).Kept p ∨
      (finish tvSample { upgrade with jobs := [] } twoShows).Superseded about p) := by
  refine ⟨(pilot showLost2020 hashB).epPath tvSample, ⟨by decide +kernel, by decide +kernel⟩, ?_⟩
  rintro about (hkept | ⟨q, id, hmem, -⟩)
  · exact absurd hkept.1 (by decide +kernel)
  · have hnone : (finish tvSample { upgrade with jobs := [] } twoShows).written = [] := rfl
    rw [hnone] at hmem
    cases hmem

end TVRun

end GoStream.Engines
