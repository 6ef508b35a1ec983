import GoStream.Metadb.Tables

/-!
# Migration of the legacy JSON files
-/

namespace GoStream.Metadb

open Foundations

inductive Stored (α : Type)
  | absent
  | unreadable
  | unparsable
  | parsed (content : α)

def Stored.fileExists {α : Type} : Stored α → Bool
  | .absent => false
  | _ => true

structure InodeMapDataV2 where
  files : Dict Bytes Bytes
  dirs : Dict Bytes Bytes
  filenameIndex : Dict Bytes Bytes

structure InodeMapDataV1 where
  files : Dict Bytes UInt64
  dirs : Dict Bytes UInt64
  filenameIndex : Dict Bytes Bytes

inductive InodeMapData
  | v1 (data : InodeMapDataV1)
  | v2 (data : InodeMapDataV2)

structure NegativeCacheEntryJSON where
  hash : Bytes
  timestamp : Bytes

structure FullpackCacheEntryJSON where
  hash : Bytes
  title : Bytes
  timestamp : Bytes

structure EpisodeEntryJSON where
  qualityScore : ℤ
  hash : Bytes
  filePath : Bytes
  source : Bytes
  created : Int64

structure LegacyFiles where
  inodeMap : Stored InodeMapData
  noMkvHashes : Stored (Dict Bytes NegativeCacheEntryJSON)
  tvFullpacks : Stored (Dict Bytes FullpackCacheEntryJSON)
  tvEpisodeRegistry : Stored (Dict Bytes EpisodeEntryJSON)

def LegacyFiles.none : LegacyFiles := ⟨.absent, .absent, .absent, .absent⟩

structure StateDir where
  live : LegacyFiles
  migrated : LegacyFiles

inductive Stage
  | checkData
  | recreate
  | inodes
  | caches
  | episodes
  deriving DecidableEq

inductive LegacyFile
  | inodeMap
  | noMkvHashes
  | tvFullpacks
  | tvEpisodeRegistry

structure Environment where
  filesOrder : MapOrder
  dirsOrder : MapOrder
  negativesOrder : MapOrder
  fullpacksOrder : MapOrder
  episodesOrder : MapOrder
  now : CacheType → Bytes → Bytes
  fails : Stage → Bool
  renameFails : LegacyFile → Bool

def LegacyFiles.allMigrated (f : LegacyFiles) : Bool :=
  !(f.inodeMap.fileExists || f.noMkvHashes.fileExists || f.tvFullpacks.fileExists ||
    f.tvEpisodeRegistry.fileExists)

def DB.hasAnyData (d : DB) : Bool :=
  !d.inodes.rows.isEmpty || !d.syncCaches.rows.isEmpty || !d.tvEpisodes.rows.isEmpty

def fileRow (key : Bytes) (inodeVal : UInt64) : InodeRow :=
  { type := .file
    infohash := some key
    fileIdx := some 0
    fullPath := some []
    relPath := none
    basename := some (pathBase key)
    inodeValue := inodeVal.toInt64 }

def dirRow (relPath : Bytes) (inodeVal : UInt64) : InodeRow :=
  { type := .dir
    infohash := some []
    fileIdx := some 0
    fullPath := some relPath
    relPath := none
    basename := some (pathBase relPath)
    inodeValue := inodeVal.toInt64 }

def inodeRows {ν : Type} (value : ν → Option UInt64) (e : Environment) (files dirs : Dict Bytes ν) :
    List InodeRow :=
  (e.filesOrder.arrange files.items).filterMap (fun x => (value x.2).map (fileRow x.1)) ++
    (e.dirsOrder.arrange dirs.items).filterMap (fun x => (value x.2).map (dirRow x.1))

def insertInodesV1 (e : Environment) (d : DB) (data : InodeMapDataV1) : DB :=
  { d with inodes := d.inodes.insertAll (inodeRows some e data.files data.dirs) }

def insertInodesV2 (e : Environment) (d : DB) (data : InodeMapDataV2) : DB :=
  { d with inodes := d.inodes.insertAll (inodeRows parseUint e data.files data.dirs) }

def migrateInodes (e : Environment) (d : DB) : Stored InodeMapData → Except Stage DB
  | .absent => .ok d
  | .unreadable | .unparsable => .error .inodes
  | .parsed (.v1 data) => if e.fails .inodes then .error .inodes else .ok (insertInodesV1 e d data)
  | .parsed (.v2 data) => if e.fails .inodes then .error .inodes else .ok (insertInodesV2 e d data)

def timestampOr (e : Environment) (t : CacheType) (hash ts : Bytes) : Bytes :=
  if ts = [] then e.now t hash else ts

def negativeRows (e : Environment) (negData : Dict Bytes NegativeCacheEntryJSON) : List CacheRow :=
  (e.negativesOrder.arrange negData.items).map fun x =>
    ⟨x.1, .negative, some [], timestampOr e .negative x.1 x.2.timestamp⟩

def fullpackRows (e : Environment) (fullData : Dict Bytes FullpackCacheEntryJSON) : List CacheRow :=
  (e.fullpacksOrder.arrange fullData.items).map fun x =>
    ⟨x.1, .fullpack, some x.2.title, timestampOr e .fullpack x.1 x.2.timestamp⟩

def cacheFileRows {α : Type} (rows : α → List CacheRow) : Stored α → Except Stage (List CacheRow)
  | .absent | .unparsable => .ok []
  | .unreadable => .error .caches
  | .parsed content => .ok (rows content)

def migrateCaches (e : Environment) (d : DB) (f : LegacyFiles) : Except Stage DB := do
  let neg ← cacheFileRows (negativeRows e) f.noMkvHashes
  let full ← cacheFileRows (fullpackRows e) f.tvFullpacks
  if e.fails .caches then .error .caches
  else .ok { d with syncCaches := d.syncCaches.insertAll (neg ++ full) }

def episodeRows (e : Environment) (epData : Dict Bytes EpisodeEntryJSON) : List EpisodeRow :=
  (e.episodesOrder.arrange epData.items).map fun x =>
    ⟨x.1, x.2.qualityScore, x.2.hash, x.2.filePath, x.2.source, x.2.created⟩

def migrateEpisodes (e : Environment) (d : DB) :
    Stored (Dict Bytes EpisodeEntryJSON) → Except Stage DB
  | .absent => .ok d
  | .unreadable | .unparsable => .error .episodes
  | .parsed epData =>
    if e.fails .episodes then .error .episodes
    else .ok { d with tvEpisodes := d.tvEpisodes.insertAll (episodeRows e epData) }

def rename {α : Type} (fails : Bool) (live migrated : Stored α) : Stored α × Stored α :=
  if live.fileExists && !fails then (.absent, live) else (live, migrated)

def StateDir.renamed (e : Environment) (dir : StateDir) : StateDir :=
  let inodeMap := rename (e.renameFails .inodeMap) dir.live.inodeMap dir.migrated.inodeMap
  let neg := rename (e.renameFails .noMkvHashes) dir.live.noMkvHashes dir.migrated.noMkvHashes
  let full := rename (e.renameFails .tvFullpacks) dir.live.tvFullpacks dir.migrated.tvFullpacks
  let ep := rename (e.renameFails .tvEpisodeRegistry) dir.live.tvEpisodeRegistry
    dir.migrated.tvEpisodeRegistry
  ⟨⟨inodeMap.1, neg.1, full.1, ep.1⟩, ⟨inodeMap.2, neg.2, full.2, ep.2⟩⟩

def migrateTables (e : Environment) (d : DB) (f : LegacyFiles) : Except Stage DB := do
  let d ← migrateInodes e d f.inodeMap
  let d ← (if f.noMkvHashes.fileExists || f.tvFullpacks.fileExists then migrateCaches e d f
    else .ok d)
  migrateEpisodes e d f.tvEpisodeRegistry

def migrateFromJSON (e : Environment) (d : DB) (dir : StateDir) : Except Stage (DB × StateDir) :=
  if dir.live.allMigrated then .ok (d, dir)
  else if e.fails .checkData then .error .checkData
  -- "crash recovery": the database has data and a file is not renamed
  else if d.hasAnyData && e.fails .recreate then .error .recreate
  else do
    let d ← migrateTables e (if d.hasAnyData then DB.new else d) dir.live
    .ok (d, dir.renamed e)

def DB.upsertAlternative (d : DB) (a : TorrentAlternative) : DB :=
  { d with torrentAlternatives := d.torrentAlternatives.insertOrReplace a }

inductive SaveOutcome
  | saved
  | truncated
  | notRenamed

def SaveOutcome.result {α : Type} (content : α) (old : Stored α) : SaveOutcome → Stored α
  | .saved => .parsed content
  | .truncated => .unparsable
  | .notRenamed => old

structure CacheEntry where
  reason : Bytes
  title : Bytes
  ts : Int64

def saveAllCaches (o : SaveOutcome) (noMKVCache : Dict Bytes CacheEntry) (dir : StateDir) :
    StateDir :=
  { dir with live := { dir.live with
      noMkvHashes := o.result (noMKVCache.mapValues fun _ => ⟨[], []⟩) dir.live.noMkvHashes } }

def saveRegistry (o : SaveOutcome) (registry : Dict Bytes EpisodeEntryJSON) (dir : StateDir) :
    StateDir :=
  { dir with live := { dir.live with
      tvEpisodeRegistry := o.result registry dir.live.tvEpisodeRegistry } }

def InodeRow.legacyKeys (r : InodeRow) : List Bytes :=
  match r.infohash with
  | none => []
  | some h => h :: r.fileIdx.toList.map fun i => h ++ ascii ":" ++ itoa i.toInt

def InodeRow.OccursAmong (r : InodeRow) (files dirs paths : List Bytes) : Prop :=
  match r.type with
  | .file => (∃ k ∈ r.legacyKeys, k ∈ files) ∨ ∃ p ∈ paths, r.fullPath = some p
  | .dir => ∃ p ∈ dirs, r.fullPath = some p ∨ r.relPath = some p

def InodeRow.OccursIn (r : InodeRow) : Stored InodeMapData → Prop
  | .parsed (.v1 data) => r.OccursAmong data.files.keys data.dirs.keys data.filenameIndex.keys
  | .parsed (.v2 data) => r.OccursAmong data.files.keys data.dirs.keys data.filenameIndex.keys
  | _ => False

def Stored.HasKey {α : Type} (k : Bytes) : Stored (Dict Bytes α) → Prop
  | .parsed m => k ∈ m
  | _ => False

def CacheRow.OccursIn (r : CacheRow) (f : LegacyFiles) : Prop :=
  match r.cacheType with
  | .negative => f.noMkvHashes.HasKey r.hash
  | .fullpack => f.tvFullpacks.HasKey r.hash

def EpisodeRow.OccursIn (r : EpisodeRow) (f : LegacyFiles) : Prop :=
  f.tvEpisodeRegistry.HasKey r.episodeKey

structure MigrationKeeps (before : DB) (f : LegacyFiles) (after : DB) : Prop where
  alternatives : ∀ r ∈ before.torrentAlternatives.rows, r ∈ after.torrentAlternatives.rows
  inodes : ∀ r ∈ before.inodes.rows, ¬ r.OccursIn f.inodeMap → r ∈ after.inodes.rows
  caches : ∀ r ∈ before.syncCaches.rows, ¬ r.OccursIn f → r ∈ after.syncCaches.rows
  episodes : ∀ r ∈ before.tvEpisodes.rows, ¬ r.OccursIn f → r ∈ after.tvEpisodes.rows

structure NothingOfItsOwn (d : DB) (f : LegacyFiles) : Prop where
  alternatives : d.torrentAlternatives.rows = []
  inodes : ∀ r ∈ d.inodes.rows, r.OccursIn f.inodeMap
  caches : ∀ r ∈ d.syncCaches.rows, r.OccursIn f
  episodes : ∀ r ∈ d.tvEpisodes.rows, r.OccursIn f

def Unaffected (d : DB) (f : LegacyFiles) : Prop :=
  f.allMigrated = true ∨ d.hasAnyData = false ∨ NothingOfItsOwn d f

variable {e : Environment} {d d' : DB} {f : LegacyFiles}

theorem steps_ok {α β : Type} {x : Except Stage α} {next : α → Except Stage β} {r : β} :
    (x >>= next) = .ok r ↔ ∃ a, x = .ok a ∧ next a = .ok r := by
  rcases x with stage | a
  · constructor
    · intro h
      cases h
    · rintro ⟨_, h, -⟩
      cases h
  · constructor
    · exact fun h => ⟨a, rfl, h⟩
    · rintro ⟨_, h, hnext⟩
      cases h
      exact hnext

theorem occursAmong_of_mem_inodeRows {ν : Type} {value : ν → Option UInt64} {files dirs : Dict Bytes ν}
    {r : InodeRow} (h : r ∈ inodeRows value e files dirs) (paths : List Bytes) :
    r.OccursAmong files.keys dirs.keys paths := by
  rcases List.mem_append.mp h with h | h
  · obtain ⟨x, hx, hr⟩ := List.mem_filterMap.mp h
    obtain ⟨v, -, rfl⟩ := Option.map_eq_some_iff.mp hr
    have hmem := Dict.mem_keys_of_mem_items (e.filesOrder.mem_arrange.mp hx)
    exact .inl ⟨x.1, by simp [InodeRow.legacyKeys, fileRow], hmem⟩
  · obtain ⟨x, hx, hr⟩ := List.mem_filterMap.mp h
    obtain ⟨v, -, rfl⟩ := Option.map_eq_some_iff.mp hr
    have hmem := Dict.mem_keys_of_mem_items (e.dirsOrder.mem_arrange.mp hx)
    exact ⟨x.1, hmem, .inl rfl⟩

theorem migrateInodes_ok {s : Stored InodeMapData} (h : migrateInodes e d s = .ok d') :
    ∃ t, d' = { d with inodes := t } ∧
      (d.inodes = .empty → ∀ r ∈ t.rows, r.OccursIn s) := by
  cases s with
  | absent =>
    obtain rfl : d = d' := Except.ok.inj h
    refine ⟨d.inodes, rfl, fun hd => ?_⟩
    simp [hd]
  | unreadable | unparsable => cases h
  | parsed content =>
    cases content with
    | v1 data | v2 data =>
      simp only [migrateInodes] at h
      split_ifs at h
      refine ⟨_, (Except.ok.inj h).symm, fun hd r hr => ?_⟩
      rw [hd] at hr
      exact occursAmong_of_mem_inodeRows (Table.mem_of_mem_insertAll hr) _

theorem hasKey_of_cacheFileRows {α : Type} {t : CacheType} {rows : Dict Bytes α → List CacheRow}
    {s : Stored (Dict Bytes α)} {l : List CacheRow} (h : cacheFileRows rows s = .ok l)
    (hrows : ∀ m, ∀ r ∈ rows m, r.cacheType = t ∧ r.hash ∈ m) :
    ∀ r ∈ l, r.cacheType = t ∧ s.HasKey r.hash := by
  intro r hr
  cases s with
  | absent | unparsable =>
    obtain rfl : [] = l := Except.ok.inj h
    simp at hr
  | unreadable => cases h
  | parsed m =>
    obtain rfl : rows m = l := Except.ok.inj h
    exact hrows m r hr

theorem mem_negativeRows (m : Dict Bytes NegativeCacheEntryJSON) :
    ∀ r ∈ negativeRows e m, r.cacheType = .negative ∧ r.hash ∈ m := by
  intro r hr
  obtain ⟨x, hx, rfl⟩ := List.mem_map.mp hr
  exact ⟨rfl, Dict.mem_keys_of_mem_items (e.negativesOrder.mem_arrange.mp hx)⟩

theorem mem_fullpackRows (m : Dict Bytes FullpackCacheEntryJSON) :
    ∀ r ∈ fullpackRows e m, r.cacheType = .fullpack ∧ r.hash ∈ m := by
  intro r hr
  obtain ⟨x, hx, rfl⟩ := List.mem_map.mp hr
  exact ⟨rfl, Dict.mem_keys_of_mem_items (e.fullpacksOrder.mem_arrange.mp hx)⟩

theorem migrateCaches_ok (h : migrateCaches e d f = .ok d') :
    ∃ t, d' = { d with syncCaches := t } ∧
      (d.syncCaches = .empty → ∀ r ∈ t.rows, r.OccursIn f) := by
  obtain ⟨neg, hneg, h⟩ := steps_ok.mp h
  obtain ⟨full, hfull, h⟩ := steps_ok.mp h
  split_ifs at h
  refine ⟨_, (Except.ok.inj h).symm, fun hd r hr => ?_⟩
  rw [hd] at hr
  rcases List.mem_append.mp (Table.mem_of_mem_insertAll hr) with hr | hr
  · obtain ⟨ht, hkey⟩ := hasKey_of_cacheFileRows hneg mem_negativeRows r hr
    simpa only [CacheRow.OccursIn, ht] using hkey
  · obtain ⟨ht, hkey⟩ := hasKey_of_cacheFileRows hfull mem_fullpackRows r hr
    simpa only [CacheRow.OccursIn, ht] using hkey

theorem migrateEpisodes_ok {s : Stored (Dict Bytes EpisodeEntryJSON)}
    (h : migrateEpisodes e d s = .ok d') :
    ∃ t, d' = { d with tvEpisodes := t } ∧
      (d.tvEpisodes = .empty → ∀ r ∈ t.rows, s.HasKey r.episodeKey) := by
  cases s with
  | absent =>
    obtain rfl : d = d' := Except.ok.inj h
    refine ⟨d.tvEpisodes, rfl, fun hd => ?_⟩
    simp [hd]
  | unreadable | unparsable => cases h
  | parsed epData =>
    simp only [migrateEpisodes] at h
    split_ifs at h
    refine ⟨_, (Except.ok.inj h).symm, fun hd r hr => ?_⟩
    rw [hd] at hr
    obtain ⟨x, hx, rfl⟩ := List.mem_map.mp (Table.mem_of_mem_insertAll hr)
    exact Dict.mem_keys_of_mem_items (e.episodesOrder.mem_arrange.mp hx)

theorem migrateTables_ok (h : migrateTables e d f = .ok d') :
    d'.torrentAlternatives = d.torrentAlternatives ∧
      (d.inodes = .empty → ∀ r ∈ d'.inodes.rows, r.OccursIn f.inodeMap) ∧
      (d.syncCaches = .empty → ∀ r ∈ d'.syncCaches.rows, r.OccursIn f) ∧
      (d.tvEpisodes = .empty → ∀ r ∈ d'.tvEpisodes.rows, r.OccursIn f) := by
  obtain ⟨d₁, h₁, h⟩ := steps_ok.mp h
  obtain ⟨d₂, h₂, h₃⟩ := steps_ok.mp h
  obtain ⟨ti, rfl, hti⟩ := migrateInodes_ok h₁
  obtain ⟨te, rfl, hte⟩ := migrateEpisodes_ok h₃
  split_ifs at h₂
  · obtain ⟨tc, rfl, htc⟩ := migrateCaches_ok h₂
    exact ⟨rfl, hti, htc, hte⟩
  · obtain rfl := Except.ok.inj h₂
    refine ⟨rfl, hti, fun hd => ?_, hte⟩
    simp [hd]

theorem not_hasAnyData : d.hasAnyData = false ↔
    d.inodes.rows = [] ∧ d.syncCaches.rows = [] ∧ d.tvEpisodes.rows = [] := by
  simp [DB.hasAnyData, and_assoc]

theorem keeps_iff_nothingOfItsOwn (h : migrateTables e DB.new f = .ok d') :
    MigrationKeeps d f d' ↔ NothingOfItsOwn d f := by
  obtain ⟨ha, hi, hc, he⟩ := migrateTables_ok h
  constructor
  · intro hk
    refine ⟨?_, ?_, ?_, ?_⟩
    · refine List.eq_nil_iff_forall_not_mem.mpr fun r hr => ?_
      have := hk.alternatives r hr
      simp [ha, DB.new] at this
    · exact fun r hr => by_contra fun hno => hno (hi rfl r (hk.inodes r hr hno))
    · exact fun r hr => by_contra fun hno => hno (hc rfl r (hk.caches r hr hno))
    · exact fun r hr => by_contra fun hno => hno (he rfl r (hk.episodes r hr hno))
  · rintro ⟨na, ni, nc, ne⟩
    refine ⟨?_, ?_, ?_, ?_⟩
    · simp [na]
    · exact fun r hr hno => absurd (ni r hr) hno
    · exact fun r hr hno => absurd (nc r hr) hno
    · exact fun r hr hno => absurd (ne r hr) hno

/-- When the migration keeps what only the database has. -/
theorem migrateFromJSON_keeps_iff {dir dir' : StateDir}
    (h : migrateFromJSON e d dir = .ok (d', dir')) :
    MigrationKeeps d dir.live d' ↔ Unaffected d dir.live := by
  unfold migrateFromJSON at h
  split_ifs at h with hall hcheck hrec hd
  · obtain ⟨rfl, -⟩ := Prod.mk.inj (Except.ok.inj h)
    exact ⟨fun _ => .inl hall, fun _ => ⟨fun _ => id, fun _ hr _ => hr, fun _ hr _ => hr,
      fun _ hr _ => hr⟩⟩
  · obtain ⟨d₁, h₁, h⟩ := steps_ok.mp h
    obtain ⟨rfl, -⟩ := Prod.mk.inj (Except.ok.inj h)
    rw [keeps_iff_nothingOfItsOwn h₁, Unaffected]
    simp [hall, hd]
  · obtain ⟨d₁, h₁, h⟩ := steps_ok.mp h
    obtain ⟨rfl, -⟩ := Prod.mk.inj (Except.ok.inj h)
    rw [Bool.not_eq_true] at hd
    refine ⟨fun _ => .inr (.inl hd), fun _ => ?_⟩
    obtain ⟨hi, hc, he⟩ := not_hasAnyData.mp hd
    refine ⟨?_, ?_, ?_, ?_⟩
    · rw [(migrateTables_ok h₁).1]
      exact fun _ hr => hr
    · simp [hi]
    · simp [hc]
    · simp [he]

def Environment.calm : Environment where
  filesOrder := .listed
  dirsOrder := .listed
  negativesOrder := .listed
  fullpacksOrder := .listed
  episodesOrder := .listed
  now := fun _ _ => ascii "2026-01-01T00:00:00Z"
  fails := fun _ => false
  renameFails := fun _ => false

def TorrentAlternative.active (contentID hash : Bytes) : TorrentAlternative :=
  { contentID, contentType := .movie, rank := 1, hash, title := [], size := 0, seeders := 0
    qualityScore := 0, status := .active, lastHealthCheck := 0, avgSpeedKBps := 0
    replacementCount := 0 }

def StateDir.oneNegative (hash : Bytes) : StateDir where
  live := { LegacyFiles.none with
    noMkvHashes := .parsed (AList.singleton hash ⟨hash, ascii "2025-01-01T00:00:00Z"⟩) }
  migrated := LegacyFiles.none

theorem alternatives_kept_by_first_migration :
    ∃ d' dir', migrateFromJSON .calm (DB.new.upsertAlternative (.active [1] [2])) (.oneNegative [3]) =
        .ok (d', dir') ∧
      MigrationKeeps (DB.new.upsertAlternative (.active [1] [2])) (StateDir.oneNegative [3]).live d' :=
  ⟨_, _, rfl, (migrateFromJSON_keeps_iff (e := .calm) rfl).mpr (.inr (.inl rfl))⟩

def restartAfterSync (e : Environment) (dir : StateDir) (a : TorrentAlternative)
    (noMKVCache : Dict Bytes CacheEntry) : Except Stage (DB × DB) := do
  let (d, dir) ← migrateFromJSON e DB.new dir
  let before := d.upsertAlternative a
  let (after, _) ← migrateFromJSON e before (saveAllCaches .saved noMKVCache dir)
  .ok (before, after)

theorem restart_after_sync_drops_alternatives :
    ∃ before after, restartAfterSync .calm (.oneNegative [3]) (.active [1] [2])
        (AList.singleton [4] ⟨ascii "no_valid_files", [], 0⟩) = .ok (before, after) ∧
      before.torrentAlternatives.rows = [.active [1] [2]] ∧ after.torrentAlternatives.rows = [] ∧
      before.syncCaches.rows.map CacheRow.hash = [[3]] ∧
      after.syncCaches.rows.map CacheRow.hash = [[4]] :=
  ⟨_, _, rfl, by decide, by decide, by decide, by decide⟩

end GoStream.Metadb
