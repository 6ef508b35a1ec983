import GoStream.Engines.TV

/-!
# Two shows in one library
-/

namespace GoStream.Engines

open Foundations Regex Inodes AutoRemove

def TVConfig.reach (c : TVConfig) (ops : List EngineOp) : TVState :=
  run (TVState.engineStep c) ⟨∅, [], ∅⟩ ops

def TVConfig.foundKey (c : TVConfig) (sh : TVShow) (season episode : Int64) : Bytes :=
  c.lowering.episodeKey sh.name [] season episode

def TVConfig.StubOf (c : TVConfig) (sh : TVShow) (season episode : Int64) (path : Bytes) : Prop :=
  ∃ hash, path = c.path sh season episode hash

def TVConfig.Origin (c : TVConfig) (key : Bytes) (entry : TVEpisodeEntry) : Prop :=
  (∃ sh season episode hash, key = c.key sh season episode ∧
    entry.filePath = c.path sh season episode hash) ∨ c.existingKey entry.filePath = some key

def TVConfig.Originated (c : TVConfig) (registry : Dict Bytes TVEpisodeEntry) : Prop :=
  ∀ key entry, registry.lookup key = some entry → c.Origin key entry

def TVConfig.Honest (c : TVConfig) (registry : Dict Bytes TVEpisodeEntry) : Prop :=
  ∀ key entry, registry.lookup key = some entry → ∀ sh season episode,
    c.StubOf sh season episode entry.filePath → key = c.key sh season episode ∨
      (key = c.foundKey sh season episode ∧ sanitizeName sh.name ≠ [])

section Origin

variable {c : TVConfig} {s : TVState}

theorem originated_insert {registry : Dict Bytes TVEpisodeEntry} {key : Bytes}
    {entry : TVEpisodeEntry} (h : c.Originated registry) (hnew : c.Origin key entry) :
    c.Originated (AList.insert key entry registry) := by
  intro k e hk
  rw [Dict.lookup_insert] at hk
  split_ifs at hk with heq
  · obtain rfl := Option.some.inj hk
    rw [heq]
    exact hnew
  · exact h k e hk

theorem originated_populate {order : MapOrder} {torrents : List TorrentStats}
    {modTime : Bytes → ℤ} (h : c.Originated s.registry) :
    c.Originated (c.populateRegistryFromExisting order torrents modTime s).registry := by
  apply populate_induct _ h
  intro registry f x entry hf _ hx _ hpath hreg
  apply originated_insert hreg
  rw [TVConfig.Origin, TVConfig.existingKey, hpath, hx]
  exact .inr rfl

theorem originated_step (op : TVOp) (h : c.Originated s.registry) :
    c.Originated (TVState.step c s op).registry := by
  cases op with
  | mark key => exact h
  | attempt x =>
    rcases attempt_cases c x s with ⟨-, heq⟩ | ⟨-, heq⟩ | ⟨-, -, heq⟩
    · rw [TVState.step, heq]
      exact h
    · rw [TVState.step, heq]
      exact h
    · rw [TVState.step, heq]
      by_cases hdone : x.write = .done
      · rw [writeEpisode_done hdone]
        exact originated_insert h (.inl ⟨x.sh, x.season, x.episode, x.hash, rfl, rfl⟩)
      · rw [registry_writeEpisode_of_ne_done hdone]
        exact h

theorem originated_engineStep (s : TVState) (op : EngineOp) (h : c.Originated s.registry) :
    c.Originated (s.engineStep c op).registry := by
  cases op with
  | populate order torrents modTime => exact originated_populate h
  | process job =>
    rw [TVState.engineStep, process_eq_run]
    exact run_keeps (fun s : TVState => c.Originated s.registry) (fun _ op => originated_step op) _ h
  | cleanup order | disk files => exact h
  | restart saved =>
    intro k e hk
    simp only [TVState.engineStep] at hk
    rw [Dict.lookup_foldl_erase] at hk
    split_ifs at hk
    exact h k e hk

theorem originated_reach (ops : List EngineOp) : c.Originated (c.reach ops).registry := by
  apply run_keeps (fun s : TVState => c.Originated s.registry) originated_engineStep ops
  intro k e hk
  simp at hk

theorem path_inj {a b : TVShow} {season episode season' episode' : Int64} {h h' : InfoHash}
    (heq : c.path a season episode h = c.path b season' episode' h') :
    c.lowering.normalized a.name = c.lowering.normalized b.name ∧
      yearOf a.firstAirDate = yearOf b.firstAirDate ∧ season = season' ∧ episode = episode' := by
  obtain ⟨hname, hyear, hseason, hepisode, -⟩ := stubPath_inj c.tvDir_ne heq
  refine ⟨?_, hyear, hseason, hepisode⟩
  rw [← c.lowering.normalized_sanitizeName a.isText, hname,
    c.lowering.normalized_sanitizeName b.isText]

theorem episodeKey_congr (L : Lowering) {a b d d' : Bytes} {season episode : Int64}
    (hname : L.normalized a = L.normalized b) (hyear : yearOf d = yearOf d') :
    L.episodeKey a d season episode = L.episodeKey b d' season episode := by
  simp only [Lowering.episodeKey, hname, hyear]

theorem filepathBase_stubPath (tvDir name date : Bytes) (season episode : Int64) (hash : InfoHash) :
    filepathBase (stubPath tvDir name date season episode (hash8 hash)) =
      buildFilename name season episode (hash8 hash) := by
  rw [stubPath_eq]
  apply filepathBase_join _ _ (slash_not_mem_buildFilename _ _ _ _)
  simp [buildFilename, episodeSuffix]

theorem TVConfig.Originated.honest {registry : Dict Bytes TVEpisodeEntry} (h : c.Originated registry) :
    c.Honest registry := by
  rintro key entry hk sh season episode ⟨hash, hstub⟩
  rcases h key entry hk with ⟨sh', season', episode', hash', rfl, hpath⟩ | hfound
  · obtain ⟨hname, hyear, rfl, rfl⟩ := path_inj (hpath.symm.trans hstub)
    exact .inl (episodeKey_congr _ hname hyear)
  · obtain ⟨x, hx, rfl⟩ := Option.map_eq_some_iff.mp hfound
    rw [hstub, TVConfig.path, filepathBase_stubPath] at hx
    obtain ⟨rfl, hne, -⟩ := eq_of_parseFileName hx
    exact .inr ⟨episodeKey_congr _ (c.lowering.normalized_sanitizeName sh.isText) rfl, hne⟩

end Origin

structure TVConfig.Untouched (c : TVConfig) (sh : TVShow) (before after : TVState) : Prop where
  entry : ∀ key entry season episode, before.registry.lookup key = some entry →
    c.StubOf sh season episode entry.filePath → after.registry.lookup key = some entry
  stub : ∀ season episode path, c.StubOf sh season episode path →
    after.files.lookup path = before.files.lookup path

def TVConfig.Apart (c : TVConfig) (a b : TVShow) : Prop :=
  c.lowering.normalized a.name ≠ c.lowering.normalized b.name ∨
    (yearOf a.firstAirDate ≠ yearOf b.firstAirDate ∧
      (yearOf a.firstAirDate ≠ [] ∨ sanitizeName b.name = []))

def TVConfig.Separate (c : TVConfig) (a b : TVShow) : Prop :=
  (∀ season episode season' episode', c.key a season episode ≠ c.key b season' episode') ∧
    ∀ ops job, job.sh = a → c.Untouched b (c.reach ops) ((c.reach ops).process c job).state

section Apart

variable {c : TVConfig} {a b : TVShow} {s t : TVState}

theorem untouched_refl (s : TVState) : c.Untouched b s s :=
  ⟨fun _ _ _ _ h _ => h, fun _ _ _ _ => rfl⟩

theorem TVConfig.Untouched.trans {u : TVState} (h : c.Untouched b s t) (h' : c.Untouched b t u) :
    c.Untouched b s u :=
  ⟨fun key entry season episode hk hstub =>
      h'.entry key entry season episode (h.entry key entry season episode hk hstub) hstub,
    fun season episode path hstub =>
      (h'.stub season episode path hstub).trans (h.stub season episode path hstub)⟩

theorem TVConfig.Apart.key_ne (h : c.Apart a b) (season episode season' episode' : Int64) :
    c.key a season episode ≠ c.key b season' episode' := by
  intro heq
  obtain ⟨hname, hyear, -, -⟩ := c.lowering.episodeKey_inj heq
  rcases h with h | h
  · exact h hname
  · exact h.1 hyear

theorem TVConfig.Apart.not_registered (h : c.Apart a b) (hs : c.Honest s.registry)
    {season episode season' episode' : Int64} {entry : TVEpisodeEntry}
    (hentry : s.registry.lookup (c.key a season episode) = some entry) :
    ¬ c.StubOf b season' episode' entry.filePath := by
  intro hstub
  rcases hs _ _ hentry _ _ _ hstub with hkey | ⟨hkey, hne⟩
  · exact h.key_ne _ _ _ _ hkey
  · obtain ⟨hname, hyear, -, -⟩ := c.lowering.episodeKey_inj hkey
    rcases h with h | ⟨-, hy | hsan⟩
    · exact h hname
    · exact hy hyear
    · exact hne hsan

theorem TVConfig.Apart.not_stub (h : c.Apart a b) {season episode season' episode' : Int64}
    {hash : InfoHash} : ¬ c.StubOf b season' episode' (c.path a season episode hash) := by
  rintro ⟨hash', heq⟩
  obtain ⟨hname, hyear, -, -⟩ := path_inj heq
  rcases h with h | h
  · exact h hname
  · exact h.1 hyear

theorem untouched_writeEpisode (h : c.Apart a b) (hs : c.Honest s.registry) {x : Creation}
    (hx : x.sh = a) : c.Untouched b s (s.writeEpisode c x).1 := by
  subst hx
  cases hw : x.write with
  | done =>
    constructor
    · intro key entry season episode hk hstub
      have hne : key ≠ x.key c := by
        rintro rfl
        exact h.not_registered hs hk hstub
      rw [lookup_registry_writeEpisode_done hw, if_neg hne]
      exact hk
    · intro season episode path hstub
      rw [lookup_files_writeEpisode_done hw, if_neg, if_neg]
      · rintro rfl
        exact h.not_stub hstub
      · intro hold
        obtain ⟨e, he, rfl, -⟩ := replaced_eq_some.mp hold
        exact h.not_registered hs he hstub
  | failed =>
    rw [writeEpisode_failed hw]
    exact untouched_refl s
  | cut part =>
    rw [writeEpisode_cut hw]
    refine ⟨fun _ _ _ _ hk _ => hk, fun season episode path hstub => ?_⟩
    rw [Dict.lookup_insert, if_neg]
    rintro rfl
    exact h.not_stub hstub

theorem untouched_step (h : c.Apart a b) (hs : c.Honest s.registry) {op : TVOp}
    (hop : ∀ x, op = .attempt x → x.sh = a) : c.Untouched b s (TVState.step c s op) := by
  cases op with
  | mark key => exact ⟨fun _ _ _ _ hk _ => hk, fun _ _ _ _ => rfl⟩
  | attempt x =>
    rcases attempt_cases c x s with ⟨-, heq⟩ | ⟨-, heq⟩ | ⟨-, -, heq⟩
    · rw [TVState.step, heq]
      exact untouched_refl s
    · rw [TVState.step, heq]
      exact ⟨fun _ _ _ _ hk _ => hk, fun _ _ _ _ => rfl⟩
    · rw [TVState.step, heq]
      exact untouched_writeEpisode h hs (hop x rfl)

theorem untouched_process (h : c.Apart a b) (hs : c.Originated s.registry) {job : Job}
    (hjob : job.sh = a) : c.Untouched b s (s.process c job).state := by
  rw [process_eq_run]
  have hkeep : ∀ t op, c.Originated t.registry ∧ c.Untouched b s t →
      (∀ x, op = TVOp.attempt x → x.sh = a) →
      c.Originated (TVState.step c t op).registry ∧ c.Untouched b s (TVState.step c t op) :=
    fun t op ht hop => ⟨originated_step op ht.1, ht.2.trans (untouched_step h ht.1.honest hop)⟩
  have hend := run_invariant hkeep (job.ops c s) ⟨hs, untouched_refl s⟩ fun op hop x hx => by
    subst hx
    exact (from_of_mem_ops hop).sh.trans hjob
  exact hend.2

theorem isStub_path (hyear : yearOf b.firstAirDate ≠ []) (season episode : Int64) (hash : InfoHash) :
    c.isStub (c.path b season episode hash) = true := by
  have hfolder : joinElem c.tvDir (getShowFolderName b.name b.firstAirDate) =
      c.tvDir ++ 47 :: getShowFolderName b.name b.firstAirDate := by
    apply joinElem_of_long
    rw [getShowFolderName, if_pos hyear]
    simp
    omega
  have hpath : c.path b season episode hash = c.tvDir ++ 47 ::
      (getShowFolderName b.name b.firstAirDate ++ 47 :: seasonName season ++
        47 :: (sanitizeName b.name ++ 95 :: 83 :: pad2 season ++ 69 :: pad2 episode ++
          95 :: hash8 hash) ++ ascii ".mkv") := by
    rw [TVConfig.path, stubPath_eq, hfolder, buildFilename, episodeSuffix]
    simp only [List.append_assoc, List.cons_append]
  rw [hpath]
  exact isStubBelow_append c.lowering c.tvDir _

def foundPilot (c : TVConfig) (b : TVShow) : List EngineOp :=
  [.disk (AList.singleton (c.path b 1 1 hashA) []), .populate .listed [] fun _ => 0]

theorem reach_foundPilot (hyear : yearOf b.firstAirDate ≠ []) (hname : sanitizeName b.name ≠ []) :
    c.reach (foundPilot c b) =
      ⟨AList.insert (c.foundKey b 1 1)
        ⟨1, hash8 hashA, c.path b 1 1 hashA, ascii "existing", 0⟩ ∅, [],
        AList.singleton (c.path b 1 1 hashA) []⟩ := by
  have hwalk : c.walk .listed (AList.singleton (c.path b 1 1 hashA) []) =
      [(c.path b 1 1 hashA, [])] := by
    have hitems : Dict.items (AList.singleton (c.path b 1 1 hashA) [] : Files) =
        [(c.path b 1 1 hashA, [])] := rfl
    have hstub := isStub_path (c := c) hyear 1 1 hashA
    simp [TVConfig.walk, hitems, hstub, MapOrder.listed]
  have hparse := parseFileName_buildFilename (s := 1) (e := 1) hashA hname rfl rfl
  have hbase : filepathBase (c.path b 1 1 hashA) = buildFilename b.name 1 1 (hash8 hashA) :=
    filepathBase_stubPath _ _ _ _ _ _
  have hkey : c.lowering.episodeKey (sanitizeName b.name) [] 1 1 = c.foundKey b 1 1 :=
    episodeKey_congr _ (c.lowering.normalized_sanitizeName b.isText) rfl
  simp only [TVConfig.reach, foundPilot, run_cons, run_nil, TVState.engineStep,
    TVConfig.populateRegistryFromExisting, hwalk, List.foldl_cons, List.foldl_nil,
    TVConfig.populateFile, hbase, hparse, hkey]
  rfl

theorem passes_pilotStream (c : TVConfig) :
    c.passes (pilotStream 400000) .res1080p ⟨1, ascii "Lost.S01E01.1080p.mkv", 900000000⟩ = true := by
  have hext : filepathExt (ascii "Lost.S01E01.1080p.mkv") = ascii ".mkv" := by decide
  have hvideo : c.isVideoFile (ascii "Lost.S01E01.1080p.mkv") = true := by
    rw [TVConfig.isVideoFile, hext, c.lowering.lower_of_ascii rfl]
    rfl
  rw [TVConfig.passes, hvideo, Bool.true_and]
  decide +kernel

def upgradedPilot (a : TVShow) : Creation :=
  { pilot a hashB with
    score := 400000
    magnet := (pilotStream 400000).magnet
    file := ⟨1, ascii "Lost.S01E01.1080p.mkv", 900000000⟩
    source := ascii "single" }

theorem process_pilotStream (hprocessed : s.processedThisRun.contains (c.key a 1 1) = false)
    (hkeeps : s.keeps (c.key a 1 1) 400000 = false) :
    (s.process c (.single a (pilotStream 400000) (goodAnswers hashB))).state =
      (s.writeEpisode c (upgradedPilot a)).1 := by
  have htitle : reTVEpNum.submatch (pilotStream 400000).title =
      some [(2, ascii "01"), (1, ascii "01")] := by decide +kernel
  have hepisode : atoi (groupText [(2, ascii "01"), (1, ascii "01")] 2) = 1 := by decide
  have hsingle : singleEpisode c a (pilotStream 400000) (goodAnswers hashB) 1 hashB
      [(⟨1, ascii "Lost.S01E01.1080p.mkv", 900000000⟩, .done)] = some (upgradedPilot a) := by
    have hpasses := passes_pilotStream c
    rw [singleEpisode, List.filter_cons_of_pos (by exact hpasses)]
    rfl
  have hadded : (goodAnswers hashB).added = some hashB := rfl
  have hinfo : (goodAnswers hashB).info =
      some [(⟨1, ascii "Lost.S01E01.1080p.mkv", 900000000⟩, .done)] := rfl
  simp only [TVState.process, TVState.processSingle, htitle, hepisode, hadded, hinfo, hsingle]
  rw [if_neg (by exact Bool.eq_false_iff.mp hprocessed), if_neg (by exact Bool.eq_false_iff.mp hkeeps)]

theorem found_stub_removed (hyear : yearOf a.firstAirDate = []) (hyear' : yearOf b.firstAirDate ≠ [])
    (hname : sanitizeName b.name ≠ [])
    (hnormal : c.lowering.normalized a.name = c.lowering.normalized b.name) :
    ¬ c.Untouched b (c.reach (foundPilot c b)) ((c.reach (foundPilot c b)).process c
      (.single a (pilotStream 400000) (goodAnswers hashB))).state := by
  intro h
  have hkey : c.key a 1 1 = c.foundKey b 1 1 := episodeKey_congr _ hnormal hyear
  have hpath : c.path b 1 1 hashA ≠ c.path a 1 1 hashB := by
    intro heq
    obtain ⟨-, hy, -, -⟩ := path_inj heq
    exact hyear' (hy.trans hyear)
  have hentry : (c.reach (foundPilot c b)).registry.lookup (c.key a 1 1) =
      some ⟨1, hash8 hashA, c.path b 1 1 hashA, ascii "existing", 0⟩ := by
    rw [reach_foundPilot hyear' hname, hkey, Dict.lookup_insert, if_pos rfl]
  have hkeeps : (c.reach (foundPilot c b)).keeps (c.key a 1 1) 400000 = false := by
    have hbeats : noUpgrade 400000 1 = false := by decide +kernel
    rw [TVState.keeps, hentry]
    exact hbeats
  have hold : (c.reach (foundPilot c b)).replaced ((upgradedPilot a).key c)
      ((upgradedPilot a).epPath c) = some (c.path b 1 1 hashA) :=
    replaced_eq_some.mpr ⟨_, hentry, rfl, by simp [TVConfig.path, stubPath_eq], hpath⟩
  have hstub := h.stub 1 1 (c.path b 1 1 hashA) ⟨hashA, rfl⟩
  rw [process_pilotStream _ hkeeps, lookup_files_writeEpisode_done rfl, if_pos hold,
    reach_foundPilot hyear' hname] at hstub
  · rw [Dict.lookup_singleton, if_pos rfl] at hstub
    cases hstub
  · rw [reach_foundPilot hyear' hname]
    rfl

/-- When shows do not replace each other's episodes. -/
theorem episodes_of_shows_separate_iff (c : TVConfig) (a b : TVShow) :
    c.Separate a b ↔ c.Apart a b := by
  constructor
  · intro h
    by_contra hnot
    rw [TVConfig.Apart, not_or, not_not, not_and] at hnot
    obtain ⟨hnormal, hyears⟩ := hnot
    by_cases hyear : yearOf a.firstAirDate = yearOf b.firstAirDate
    · exact h.1 1 1 1 1 (episodeKey_congr _ hnormal hyear)
    · obtain ⟨hya, hsan⟩ := not_or.mp (hyears hyear)
      rw [not_not] at hya
      have hyb : yearOf b.firstAirDate ≠ [] := fun hyb => hyear (hya.trans hyb.symm)
      exact found_stub_removed hya hyb hsan hnormal (h.2 _ _ rfl)
  · intro h
    exact ⟨h.key_ne, fun ops job hjob => untouched_process h (originated_reach ops) hjob⟩

def showOni : TVShow := ⟨[0xE9, 0xAC, 0xBC], ascii "2019-01-01", rfl, rfl⟩

def showRyu : TVShow := ⟨[0xE9, 0xBE, 0x8D], ascii "2019-01-01", rfl, rfl⟩

theorem stub_of_other_show_removed : ¬ tvSample.Separate showOni showRyu := by
  intro h
  have hjob := h.2 [.process (.single showRyu (pilotStream 300000) (goodAnswers hashA)), .restart fun _ => true]
    (.single showOni (pilotStream 400000) (goodAnswers hashB)) rfl
  have hstub := hjob.stub 1 1 (tvSample.path showRyu 1 1 hashA) ⟨hashA, rfl⟩
  exact absurd hstub (by decide +kernel)

end Apart

end GoStream.Engines
