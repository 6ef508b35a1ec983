import GoStream.Engines.Shows
import GoStream.Engines.Superseded

/-!
# Keys recovered from file names
-/

namespace GoStream.Engines

open Foundations Regex Inodes AutoRemove

theorem all_isDecimal_itoa {n : ℤ} (hn : 0 ≤ n) : (itoa n).all isDecimal = true := by
  cases n with
  | ofNat m => exact all_isDecimal_decimal m
  | negSucc m => exact absurd hn (by simp)

theorem all_isDecimal_pad2 (n : Int64) : (pad2 n).all isDecimal = true ↔ 0 ≤ n.toInt := by
  constructor
  · intro h
    by_contra hneg
    cases hn : n.toInt with
    | ofNat m => exact hneg (by rw [hn]; exact Int.natCast_nonneg m)
    | negSucc m =>
      have hsign : 45 ∈ pad2 n := by
        unfold pad2
        split_ifs <;> simp [hn, itoa]
      exact absurd (List.all_eq_true.mp h 45 hsign) (by decide)
  · intro hn
    have hall := all_isDecimal_itoa hn
    unfold pad2
    split_ifs
    · rw [List.all_cons, hall]
      rfl
    · exact hall

theorem existingKey_stubPath (c : TVConfig) (name date : Bytes) (season episode : Int64)
    (hash : InfoHash) (key : Bytes) :
    c.existingKey (stubPath c.tvDir name date season episode (hash8 hash)) = some key ↔
      sanitizeName name ≠ [] ∧ 0 ≤ season.toInt ∧ 0 ≤ episode.toInt ∧
        key = c.lowering.episodeKey (sanitizeName name) [] season episode := by
  rw [TVConfig.existingKey, filepathBase_stubPath, Option.map_eq_some_iff]
  constructor
  · rintro ⟨x, hx, rfl⟩
    obtain ⟨rfl, hne, hs, he⟩ := eq_of_parseFileName hx
    exact ⟨hne, (all_isDecimal_pad2 season).mp hs, (all_isDecimal_pad2 episode).mp he, rfl⟩
  · rintro ⟨hne, hs, he, rfl⟩
    exact ⟨_, parseFileName_buildFilename hash hne ((all_isDecimal_pad2 season).mpr hs)
      ((all_isDecimal_pad2 episode).mpr he), rfl⟩

structure Stored where
  name : Bytes
  firstAirDate : Bytes
  season : Int64
  episode : Int64
  hash : InfoHash

def Stored.key (c : TVConfig) (x : Stored) : Bytes :=
  c.lowering.episodeKey x.name x.firstAirDate x.season x.episode

def Stored.path (c : TVConfig) (x : Stored) : Bytes :=
  stubPath c.tvDir x.name x.firstAirDate x.season x.episode (hash8 x.hash)

structure Stored.Recoverable (L : Lowering) (x : Stored) : Prop where
  undated : yearOf x.firstAirDate = []
  named : sanitizeName x.name ≠ []
  season : 0 ≤ x.season.toInt
  episode : 0 ≤ x.episode.toInt
  normal : L.normalized (sanitizeName x.name) = L.normalized x.name

theorem existingKey_eq_key_iff (c : TVConfig) (x : Stored) :
    c.existingKey (x.path c) = some (x.key c) ↔ x.Recoverable c.lowering := by
  rw [Stored.path, existingKey_stubPath]
  constructor
  · rintro ⟨hne, hs, he, hkey⟩
    obtain ⟨hname, hyear, -, -⟩ := c.lowering.episodeKey_inj hkey
    exact ⟨hyear, hne, hs, he, hname.symm⟩
  · rintro ⟨hyear, hne, hs, he, hname⟩
    exact ⟨hne, hs, he, episodeKey_congr _ hname.symm hyear⟩

theorem Stored.recoverable_of_isText {L : Lowering} {x : Stored} (htext : isText x.name = true)
    (hyear : yearOf x.firstAirDate = []) (hname : sanitizeName x.name ≠ [])
    (hs : 0 ≤ x.season.toInt) (he : 0 ≤ x.episode.toInt) : x.Recoverable L :=
  ⟨hyear, hname, hs, he, L.normalized_sanitizeName htext⟩

def TVConfig.rebuilt (c : TVConfig) (order : MapOrder) (torrents : List TorrentStats)
    (modTime : Bytes → ℤ) (files : Files) : Dict Bytes TVEpisodeEntry :=
  (c.populateRegistryFromExisting order torrents modTime ⟨∅, [], files⟩).registry

structure Rebuilt (c : TVConfig) (seen : List Bytes) (registry : Dict Bytes TVEpisodeEntry) :
    Prop where
  path : ∀ p, registryByPath registry p = true → p ∈ seen
  key : ∀ k, (registry.lookup k).isSome = true ↔ ∃ p ∈ seen, c.existingKey p = some k

section Rebuilt

variable {c : TVConfig} (torrents : List TorrentStats) (modTime : Bytes → ℤ) {seen : List Bytes}
  {registry : Dict Bytes TVEpisodeEntry}

theorem Rebuilt.cons {p : Bytes} (h : Rebuilt c seen registry)
    (hp : ∀ k, c.existingKey p = some k → (registry.lookup k).isSome = true) :
    Rebuilt c (p :: seen) registry := by
  constructor
  · intro q hq
    exact List.mem_cons_of_mem _ (h.path q hq)
  · intro k
    rw [h.key k, List.exists_mem_cons_iff]
    exact ⟨.inr, fun hk => hk.elim (fun hk => (h.key k).mp (hp k hk)) id⟩

theorem Rebuilt.populateFile (h : Rebuilt c seen registry) {f : Bytes × Bytes} (hnew : f.1 ∉ seen) :
    Rebuilt c (f.1 :: seen) (c.populateFile torrents modTime registry f) := by
  have hfree : ¬registryByPath registry f.1 = true := fun hreg => hnew (h.path _ hreg)
  unfold TVConfig.populateFile
  rw [if_neg hfree]
  cases hx : parseFileName (filepathBase f.1) with
  | none => exact h.cons (by simp [TVConfig.existingKey, hx])
  | some x =>
    have hkey : c.existingKey f.1 =
        some (c.lowering.episodeKey x.showName [] x.season x.episode) := by
      rw [TVConfig.existingKey, hx]
      rfl
    dsimp only
    split_ifs with hused
    · apply h.cons
      rw [hkey]
      rintro k ⟨rfl⟩
      exact hused
    · constructor
      · intro q hq
        rcases (registryByPath_insert (by simpa using hused)).mp hq with hq | rfl
        · exact List.mem_cons_of_mem _ (h.path q hq)
        · exact List.mem_cons_self
      · intro k
        rw [List.exists_mem_cons_iff, ← h.key k, Dict.lookup_insert, hkey]
        split_ifs with heq
        · simp [heq]
        · simp [Ne.symm heq]

theorem Rebuilt.foldl (l : List (Bytes × Bytes)) (h : Rebuilt c seen registry)
    (hnodup : (l.map Prod.fst).Nodup) (hnew : ∀ f ∈ l, f.1 ∉ seen) :
    Rebuilt c ((l.map Prod.fst).reverse ++ seen)
      (l.foldl (c.populateFile torrents modTime) registry) := by
  induction l generalizing seen registry with
  | nil => exact h
  | cons f l ih =>
    rw [List.map_cons, List.nodup_cons] at hnodup
    have hstep := h.populateFile torrents modTime (hnew f List.mem_cons_self)
    have hnext : ∀ g ∈ l, g.1 ∉ f.1 :: seen := by
      intro g hg hmem
      rcases List.mem_cons.mp hmem with heq | hmem
      · exact hnodup.1 (heq ▸ List.mem_map_of_mem hg)
      · exact hnew g (List.mem_cons_of_mem _ hg) hmem
    simpa using ih hstep hnodup.2 hnext

theorem isSome_lookup_rebuilt (order : MapOrder) (files : Files) (k : Bytes) :
    ((c.rebuilt order torrents modTime files).lookup k).isSome = true ↔
      ∃ p, c.OnDisk files p ∧ c.existingKey p = some k := by
  have hstart : Rebuilt c [] (∅ : Dict Bytes TVEpisodeEntry) :=
    ⟨fun p hp => by simp [registryByPath_iff] at hp, fun k => by simp⟩
  have hend := hstart.foldl torrents modTime (c.walk order files) (nodup_map_walk c order files)
    fun _ _ => List.not_mem_nil
  rw [TVConfig.rebuilt, TVConfig.populateRegistryFromExisting, hend.key k]
  constructor
  · rintro ⟨p, hp, hk⟩
    rw [List.append_nil, List.mem_reverse, List.mem_map] at hp
    obtain ⟨f, hf, rfl⟩ := hp
    obtain ⟨hlookup, hstub⟩ := mem_walk.mp hf
    exact ⟨f.1, ⟨hstub, by rw [hlookup]; rfl⟩, hk⟩
  · rintro ⟨p, ⟨hstub, hsome⟩, hk⟩
    obtain ⟨data, hdata⟩ := Option.isSome_iff_exists.mp hsome
    refine ⟨p, ?_, hk⟩
    rw [List.append_nil, List.mem_reverse, List.mem_map]
    exact ⟨(p, data), mem_walk.mpr ⟨hdata, hstub⟩, rfl⟩

end Rebuilt

/-- When keys are recovered from file names. -/
theorem keys_recovered_iff (c : TVConfig) :
    (∀ x : Stored, c.existingKey (x.path c) = some (x.key c) ↔ x.Recoverable c.lowering) ∧
      ∀ (stored : List Stored) (order : MapOrder) (torrents : List TorrentStats)
        (modTime : Bytes → ℤ) (files : Files),
        (∀ p, c.OnDisk files p ↔ ∃ x ∈ stored, x.path c = p) →
        (∀ x ∈ stored, x.Recoverable c.lowering) → ∀ k,
          ((c.rebuilt order torrents modTime files).lookup k).isSome = true ↔
            ∃ x ∈ stored, x.key c = k := by
  refine ⟨existingKey_eq_key_iff c, ?_⟩
  intro stored order torrents modTime files hdisk hall k
  rw [isSome_lookup_rebuilt]
  constructor
  · rintro ⟨p, hp, hk⟩
    obtain ⟨x, hx, rfl⟩ := (hdisk p).mp hp
    rw [(existingKey_eq_key_iff c x).mpr (hall x hx)] at hk
    exact ⟨x, hx, Option.some.inj hk⟩
  · rintro ⟨x, hx, rfl⟩
    exact ⟨x.path c, (hdisk _).mpr ⟨x, hx, rfl⟩, (existingKey_eq_key_iff c x).mpr (hall x hx)⟩

def storedPilot (date : Bytes) : Stored := ⟨ascii "Lost", date, 1, 1, hashA⟩

theorem storedPilot_recoverable : (storedPilot []).Recoverable tvSample.lowering :=
  Stored.recoverable_of_isText rfl rfl (by decide) (by decide) (by decide)

def undatedFiles : Files := AList.singleton ((storedPilot []).path tvSample) []

theorem onDisk_undatedFiles (p : Bytes) :
    tvSample.OnDisk undatedFiles p ↔ ∃ x ∈ [storedPilot []], x.path tvSample = p := by
  have hstub : tvSample.isStub ((storedPilot []).path tvSample) = true := by decide +kernel
  simp only [TVConfig.OnDisk, undatedFiles, List.mem_singleton, exists_eq_left]
  constructor
  · rintro ⟨-, hp⟩
    rw [AList.lookup_isSome] at hp
    exact (List.mem_singleton.mp hp).symm
  · rintro rfl
    exact ⟨hstub, by rw [AList.lookup_isSome]; exact List.mem_singleton_self _⟩

theorem keys_recovered_iff_undated :
    tvSample.existingKey ((storedPilot []).path tvSample) =
        some ((storedPilot []).key tvSample) ∧
      ((tvSample.rebuilt .listed [] (fun _ => 0) undatedFiles).lookup
        ((storedPilot []).key tvSample)).isSome = true :=
  ⟨((keys_recovered_iff tvSample).1 (storedPilot [])).mpr storedPilot_recoverable,
    ((keys_recovered_iff tvSample).2 [storedPilot []] .listed [] (fun _ => 0) undatedFiles
      onDisk_undatedFiles (by simpa using storedPilot_recoverable) _).mpr
      ⟨storedPilot [], List.mem_singleton_self _, rfl⟩⟩

theorem datedShow_not_recovered :
    (storedPilot (ascii "2004-09-22")).key tvSample = ascii "lost_2004_s01e01" ∧
      tvSample.existingKey ((storedPilot (ascii "2004-09-22")).path tvSample) =
        some (ascii "lost_s01e01") := by
  decide +kernel

end GoStream.Engines
