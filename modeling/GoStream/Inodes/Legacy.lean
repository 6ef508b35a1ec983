import GoStream.Inodes.Storage

/-!
# Migration of the inode map from its legacy file
-/

namespace GoStream.Metadb.InodeMapData

open Foundations

def fileInode : InodeMapData → Bytes → Option UInt64
  | .v1 data, key => (data.files.lookup key).bind some
  | .v2 data, key => (data.files.lookup key).bind parseUint

def dirInode : InodeMapData → Bytes → Option UInt64
  | .v1 data, relPath => (data.dirs.lookup relPath).bind some
  | .v2 data, relPath => (data.dirs.lookup relPath).bind parseUint

def keyOf : InodeMapData → Bytes → Option Bytes
  | .v1 data, path => data.filenameIndex.lookup path
  | .v2 data, path => data.filenameIndex.lookup path

structure WellFormed (data : InodeMapData) : Prop where
  path : ∀ p k, data.keyOf p = some k → p.head? = some 47
  dir : ∀ p v, data.dirInode p = some v → p.head? = some 47
  inode : ∀ k v, data.fileInode k = some v → v ≠ 0

end GoStream.Metadb.InodeMapData

namespace GoStream.Inodes

open Foundations Metadb

variable {H : Hashing}

structure AnswersAlike (a b : InodeMap H) : Prop where
  file : ∀ p, a.getFileInode p = b.getFileInode p
  dir : ∀ p, (a.getDirInode p).1 = (b.getDirInode p).1

structure NothingToLose (H : Hashing) (data : InodeMapData) : Prop where
  files : ∀ k, data.fileInode k = none
  dirs : ∀ p v, data.dirInode p = some v → p ≠ ascii "/" → v = H.generateDirInode p

theorem getFileInode_loadFromJSON (o : JSONOrders) (data : InodeMapData) (p : Bytes) :
    ((InodeMap.new : InodeMap H).loadFromJSON o data).getFileInode p =
      ((data.keyOf p).bind data.fileInode).getD 0 := by
  cases data with
  | v1 data | v2 data => exact InodeMap.getFileInode_loadJSON p

theorem dirLookup_loadFromJSON (o : JSONOrders) (data : InodeMapData) {p : Bytes}
    (hp : p ≠ ascii "/") :
    InodeMap.dirLookup H ((InodeMap.new : InodeMap H).loadFromJSON o data).dirMap p =
      data.dirInode p := by
  cases data with
  | v1 data | v2 data => exact InodeMap.dirLookup_loadJSON hp

theorem mem_filterMap_items {ν : Type} {value : ν → Option UInt64} {order : MapOrder}
    {d : Dict Bytes ν} {row : Bytes → UInt64 → InodeRow} {r : InodeRow} :
    r ∈ (order.arrange d.items).filterMap (fun x => (value x.2).map (row x.1)) ↔
      ∃ k v, (d.lookup k).bind value = some v ∧ r = row k v := by
  simp only [List.mem_filterMap, order.mem_arrange, Prod.exists, Dict.mem_items,
    Option.map_eq_some_iff, Option.bind_eq_some_iff]
  constructor
  · rintro ⟨k, x, hx, v, hv, rfl⟩
    exact ⟨k, v, ⟨x, hx, hv⟩, rfl⟩
  · rintro ⟨k, v, ⟨x, hx, hv⟩, rfl⟩
    exact ⟨k, x, hx, v, hv, rfl⟩

variable {e : Environment} {data : InodeMapData} {d : DB}

theorem inodes_of_migrateInodes {d' : DB} (h : migrateInodes e d (.parsed data) = .ok d') :
    ∃ fs ds, d'.inodes = d.inodes.insertAll (fs ++ ds) ∧
      (∀ r, r ∈ fs ↔ ∃ k v, data.fileInode k = some v ∧ r = fileRow k v) ∧
      (∀ r, r ∈ ds ↔ ∃ p v, data.dirInode p = some v ∧ r = dirRow p v) := by
  cases data with
  | v1 data | v2 data =>
    simp only [migrateInodes] at h
    split_ifs at h
    obtain rfl := Except.ok.inj h
    exact ⟨_, _, rfl, fun r => mem_filterMap_items, fun r => mem_filterMap_items⟩

theorem inodes_of_migrateFromJSON {dir dir' : StateDir} (hdir : dir.live.inodeMap = .parsed data)
    (h : migrateFromJSON e DB.new dir = .ok (d, dir')) :
    ∃ fs ds, d.inodes = Table.empty.insertAll (fs ++ ds) ∧
      (∀ r, r ∈ fs ↔ ∃ k v, data.fileInode k = some v ∧ r = fileRow k v) ∧
      (∀ r, r ∈ ds ↔ ∃ p v, data.dirInode p = some v ∧ r = dirRow p v) := by
  unfold migrateFromJSON at h
  split_ifs at h with hall hcheck hrec hdata
  · simp [LegacyFiles.allMigrated, hdir, Stored.fileExists] at hall
  · simp [DB.hasAnyData, DB.new] at hdata
  · obtain ⟨d₁, htables, hd⟩ := steps_ok.mp h
    obtain ⟨rfl, -⟩ := Prod.mk.inj (Except.ok.inj hd)
    obtain ⟨d₂, hinodes, hrest⟩ := steps_ok.mp htables
    obtain ⟨d₃, hcaches, hepisodes⟩ := steps_ok.mp hrest
    obtain ⟨te, rfl, -⟩ := migrateEpisodes_ok hepisodes
    rw [hdir] at hinodes
    have hkept : d₃.inodes = d₂.inodes := by
      split_ifs at hcaches
      · obtain ⟨tc, rfl, -⟩ := migrateCaches_ok hcaches
        rfl
      · rw [Except.ok.inj hcaches]
    rw [hkept]
    exact inodes_of_migrateInodes hinodes

section Loaded

variable {es : List InodeEntry}

structure Migrated (data : InodeMapData) (es : List InodeEntry) : Prop where
  entry : ∀ e ∈ es, (∃ k v, data.fileInode k = some v ∧ (fileRow k v).scan = some e) ∨
    ∃ p v, data.dirInode p = some v ∧ (dirRow p v).scan = some e
  file : ∀ k v, data.fileInode k = some v →
    ∃ k' v', data.fileInode k' = some v' ∧ ∃ e ∈ es, (fileRow k' v').scan = some e

theorem migrated_of_table (order : MapOrder) {fs ds : List InodeRow}
    (hdirs : ∀ p v, data.dirInode p = some v → p ≠ [])
    (htable : d.inodes = Table.empty.insertAll (fs ++ ds))
    (hfs : ∀ r, r ∈ fs ↔ ∃ k v, data.fileInode k = some v ∧ r = fileRow k v)
    (hds : ∀ r, r ∈ ds ↔ ∃ p v, data.dirInode p = some v ∧ r = dirRow p v) :
    ∃ es, d.loadAll order = some es ∧ Migrated data es := by
  have hrows : ∀ r ∈ d.inodes.rows, r ∈ fs ∨ r ∈ ds := by
    intro r hr
    rw [htable] at hr
    exact List.mem_append.mp (Table.mem_of_mem_insertAll hr)
  obtain ⟨es, hload, hes⟩ := DB.loadAll_eq order (d := d) fun r hr => by
    rcases hrows r hr with h | h
    · obtain ⟨k, v, -, rfl⟩ := (hfs r).mp h
      rfl
    · obtain ⟨p, v, -, rfl⟩ := (hds r).mp h
      rfl
  refine ⟨es, hload, ?_, ?_⟩
  · intro e he
    obtain ⟨r, hr, hscan⟩ := (hes e).mp he
    rcases hrows r hr with h | h
    · obtain ⟨k, v, hv, rfl⟩ := (hfs r).mp h
      exact .inl ⟨k, v, hv, hscan⟩
    · obtain ⟨p, v, hv, rfl⟩ := (hds r).mp h
      exact .inr ⟨p, v, hv, hscan⟩
  · intro k v hv
    have hne : fs ≠ [] := List.ne_nil_of_mem ((hfs _).mpr ⟨k, v, hv, rfl⟩)
    obtain ⟨k', v', hv', hlast⟩ := (hfs _).mp (List.getLast_mem hne)
    have hmem : fileRow k' v' ∈ d.inodes.rows := by
      rw [htable, Table.mem_insertAll]
      right
      rw [← List.dropLast_append_getLast hne, List.append_assoc, hlast]
      refine lasts_append (fun s hs => ?_) _
      -- a directory has a path of its own and no `rel_path`
      obtain ⟨p, w, hw, rfl⟩ := (hds s).mp hs
      have hp := hdirs p w hw
      simp [InodeRow.Clash, SameValue, fileRow, dirRow, hp.symm]
    exact ⟨k', v', hv', _, (hes _).mpr ⟨_, hmem, rfl⟩, rfl⟩

theorem scan_fileRow {k : Bytes} {v : UInt64} {e : InodeEntry} (h : (fileRow k v).scan = some e) :
    InodeMap.nameEntry e = some ([], k ++ ascii ":" ++ itoa 0) ∧
      InodeMap.fileEntry e = some (k ++ ascii ":" ++ itoa 0, v) ∧ InodeMap.dirEntry e = none := by
  obtain rfl := Option.some.inj h
  refine ⟨rfl, ?_, rfl⟩
  simp [InodeMap.fileEntry, fileRow]

theorem scan_dirRow {p : Bytes} {v : UInt64} {e : InodeEntry} (h : (dirRow p v).scan = some e) :
    InodeMap.nameEntry e = none ∧ InodeMap.fileEntry e = none ∧
      InodeMap.dirEntry e = some ([], v) := by
  obtain rfl := Option.some.inj h
  refine ⟨rfl, rfl, ?_⟩
  simp [InodeMap.dirEntry, dirRow]

variable (hm : Migrated data es)

include hm

theorem Migrated.name_entry {p k : Bytes} (h : (p, k) ∈ es.filterMap InodeMap.nameEntry) :
    p = [] ∧ ∃ v, (k, v) ∈ es.filterMap InodeMap.fileEntry := by
  obtain ⟨e, he, hname⟩ := List.mem_filterMap.mp h
  rcases hm.entry e he with ⟨k', v, -, hscan⟩ | ⟨p', v, -, hscan⟩
  · obtain ⟨hn, hf, -⟩ := scan_fileRow hscan
    obtain ⟨rfl, rfl⟩ := Prod.mk.inj (Option.some.inj (hname.symm.trans hn))
    exact ⟨rfl, v, List.mem_filterMap.mpr ⟨e, he, hf⟩⟩
  · rw [(scan_dirRow hscan).1] at hname
    cases hname

theorem Migrated.file_entry {k : Bytes} {v : UInt64} (h : (k, v) ∈ es.filterMap InodeMap.fileEntry) :
    ∃ k', data.fileInode k' = some v := by
  obtain ⟨e, he, hfile⟩ := List.mem_filterMap.mp h
  rcases hm.entry e he with ⟨k', v', hv', hscan⟩ | ⟨p, v', -, hscan⟩
  · obtain ⟨-, rfl⟩ := Prod.mk.inj (Option.some.inj (hfile.symm.trans (scan_fileRow hscan).2.1))
    exact ⟨k', hv'⟩
  · rw [(scan_dirRow hscan).2.1] at hfile
    cases hfile

theorem Migrated.dir_entry {p : Bytes} {v : UInt64} (h : (p, v) ∈ es.filterMap InodeMap.dirEntry) :
    p = [] := by
  obtain ⟨e, he, hdir⟩ := List.mem_filterMap.mp h
  rcases hm.entry e he with ⟨k', v', -, hscan⟩ | ⟨p', v', -, hscan⟩
  · rw [(scan_fileRow hscan).2.2] at hdir
    cases hdir
  · exact (Prod.mk.inj (Option.some.inj (hdir.symm.trans (scan_dirRow hscan).2.2))).1

theorem Migrated.getFileInode_of_no_files (hno : ∀ k, data.fileInode k = none) (p : Bytes) :
    (es.foldl InodeMap.loadEntry (InodeMap.new : InodeMap H)).getFileInode p = 0 := by
  unfold InodeMap.getFileInode
  rw [InodeMap.nameMap_loadEntries, Sharded.lookupInsert.get_of_absent]
  · rfl
  · intro k hk
    obtain ⟨-, v, hv⟩ := hm.name_entry hk
    obtain ⟨k', hk'⟩ := hm.file_entry hv
    simp [hno] at hk'

theorem Migrated.getFileInode_empty_path (hpos : ∀ k v, data.fileInode k = some v → v ≠ 0)
    {k : Bytes} {v : UInt64} (hfile : data.fileInode k = some v) :
    (es.foldl InodeMap.loadEntry (InodeMap.new : InodeMap H)).getFileInode [] ≠ 0 := by
  obtain ⟨k', v', -, e, he, hscan⟩ := hm.file k v hfile
  have hname := List.mem_filterMap.mpr ⟨e, he, (scan_fileRow hscan).1⟩
  obtain ⟨key, hkey, hlookup⟩ :=
    Sharded.lookupInsert.get_of_mem (s := (InodeMap.new : InodeMap H).nameMap) hname
  obtain ⟨-, w, hw⟩ := hm.name_entry hkey
  obtain ⟨u, hu, hinode⟩ :=
    Sharded.lookupInsert.get_of_mem (s := (InodeMap.new : InodeMap H).fileMap) hw
  obtain ⟨k'', hk''⟩ := hm.file_entry hu
  unfold InodeMap.getFileInode
  rw [InodeMap.nameMap_loadEntries, InodeMap.fileMap_loadEntries, hlookup]
  dsimp only
  rw [hinode]
  exact hpos k'' u hk''

theorem Migrated.getDirInode (p : Bytes) :
    ((es.foldl InodeMap.loadEntry (InodeMap.new : InodeMap H)).getDirInode p).1 =
      H.generateDirInode p := by
  apply InodeMap.getDirInode_of_own
  intro hslash hempty v hv
  rw [InodeMap.dirMap_loadEntries, InodeMap.dirLookupInsert.get_of_absent,
    InodeMap.dirLookup_new hslash] at hv
  · cases hv
  · exact fun w hw => hempty (hm.dir_entry hw)

end Loaded

/-- When the migration loses nothing. -/
theorem legacy_migration_lossless_iff (rowOrder : MapOrder) (o : JSONOrders) {dir dir' : StateDir}
    (hwf : data.WellFormed) (hdir : dir.live.inodeMap = .parsed data)
    (h : migrateFromJSON e DB.new dir = .ok (d, dir')) :
    (∃ m, (InodeMap.new : InodeMap H).loadFromDB rowOrder d = some m ∧
      AnswersAlike m ((InodeMap.new : InodeMap H).loadFromJSON o data)) ↔ NothingToLose H data := by
  have hslash : ∀ {p : Bytes}, p.head? = some 47 → p ≠ [] := by
    rintro p hp rfl
    cases hp
  obtain ⟨fs, ds, htable, hfs, hds⟩ := inodes_of_migrateFromJSON hdir h
  obtain ⟨es, hload, hm⟩ := migrated_of_table rowOrder
    (fun p v hv => hslash (hwf.dir p v hv)) htable hfs hds
  have hdb : (InodeMap.new : InodeMap H).loadFromDB rowOrder d =
      some (es.foldl InodeMap.loadEntry .new) := by
    simp [InodeMap.loadFromDB, hload]
  constructor
  · rintro ⟨m, hsome, halike⟩
    obtain rfl := Option.some.inj (hdb.symm.trans hsome)
    constructor
    · intro k
      by_contra hk
      obtain ⟨v, hv⟩ := Option.ne_none_iff_exists'.mp hk
      apply hm.getFileInode_empty_path (H := H) hwf.inode hv
      rw [halike.file, getFileInode_loadFromJSON]
      cases hkey : data.keyOf [] with
      | none => rfl
      | some k' => exact absurd rfl (hslash (hwf.path [] k' hkey))
    · intro p v hv hp
      have hsame := halike.dir p
      rw [hm.getDirInode, InodeMap.getDirInode_fst, dirLookup_loadFromJSON o data hp, hv,
        if_neg (by simp [hp, hslash (hwf.dir p v hv)])] at hsame
      exact hsame.symm
  · rintro ⟨hfiles, hdirs⟩
    refine ⟨_, hdb, fun p => ?_, fun p => ?_⟩
    · rw [hm.getFileInode_of_no_files hfiles, getFileInode_loadFromJSON]
      cases data.keyOf p with
      | none => rfl
      | some k => simp [hfiles]
    · rw [hm.getDirInode, InodeMap.getDirInode_fst]
      split_ifs with hroot
      · simp [Hashing.generateDirInode, hroot]
      · rw [not_or] at hroot
        rw [dirLookup_loadFromJSON o data hroot.1]
        cases hv : data.dirInode p with
        | none => rfl
        | some v => exact (hdirs p v hv hroot.1).symm

def stateDirWith (data : InodeMapData) : StateDir where
  live := { LegacyFiles.none with inodeMap := .parsed data }
  migrated := LegacyFiles.none

def JSONOrders.listed : JSONOrders := ⟨.listed, .listed⟩

def moviesOnly (H : Hashing) : InodeMapData :=
  .v1 ⟨∅, AList.singleton (ascii "/movies") (H.generateDirInode (ascii "/movies")), ∅⟩

theorem lookup_moviesOnly {p : Bytes} {v : UInt64} (h : (moviesOnly H).dirInode p = some v) :
    p = ascii "/movies" ∧ v = H.generateDirInode (ascii "/movies") := by
  simp only [moviesOnly, InodeMapData.dirInode, Option.bind_fun_some, Dict.lookup_singleton] at h
  split_ifs at h with hp
  exact ⟨hp, (Option.some.inj h).symm⟩

theorem directories_survive_migration :
    ∃ d dir', migrateFromJSON .calm DB.new (stateDirWith (moviesOnly .standard)) =
        .ok (d, dir') ∧
      ∃ m, (InodeMap.new : InodeMap .standard).loadFromDB .listed d = some m ∧
        AnswersAlike m ((InodeMap.new : InodeMap .standard).loadFromJSON .listed
          (moviesOnly .standard)) := by
  have hdir : (stateDirWith (moviesOnly .standard)).live.inodeMap = .parsed (moviesOnly .standard) :=
    rfl
  refine ⟨_, _, rfl, (legacy_migration_lossless_iff (e := .calm) .listed .listed ?_ hdir rfl).mpr ?_⟩
  · refine ⟨?_, ?_, ?_⟩
    · intro p k h
      simp [moviesOnly, InodeMapData.keyOf] at h
    · intro p v h
      rw [(lookup_moviesOnly h).1]
      rfl
    · intro k v h
      simp [moviesOnly, InodeMapData.fileInode] at h
  · refine ⟨?_, ?_⟩
    · intro k
      simp [moviesOnly, InodeMapData.fileInode]
    · intro p v h _
      obtain ⟨rfl, rfl⟩ := lookup_moviesOnly h
      rfl

def twoFiles (H : Hashing) : InodeMapData :=
  .v1
    { files := AList.insert (ascii "ab:0") (H.generateFileInode (ascii "ab") 0)
        (AList.singleton (ascii "ab:1") (H.generateFileInode (ascii "ab") 1))
      dirs := ∅
      filenameIndex := AList.insert (ascii "/tv/a.mkv") (ascii "ab:0")
        (AList.singleton (ascii "/tv/b.mkv") (ascii "ab:1")) }

theorem files_lost_by_migration :
    ∃ d dir', migrateFromJSON .calm DB.new (stateDirWith (twoFiles .standard)) =
        .ok (d, dir') ∧ d.inodes.rows.length = 1 ∧
      ∃ m, (InodeMap.new : InodeMap .standard).loadFromDB .listed d = some m ∧
        m.getFileInode (ascii "/tv/a.mkv") = 0 ∧ m.getFileInode (ascii "/tv/b.mkv") = 0 ∧
        ((InodeMap.new : InodeMap .standard).loadFromJSON .listed (twoFiles .standard)).getFileInode
          (ascii "/tv/a.mkv") = Hashing.standard.generateFileInode (ascii "ab") 0 ∧
        Hashing.standard.generateFileInode (ascii "ab") 0 ≠ 0 :=
  ⟨_, _, rfl, by decide, _, rfl, by decide +kernel, by decide +kernel, by decide +kernel,
    by decide +kernel⟩

end GoStream.Inodes
