import GoStream.Foundations.Run
import GoStream.Inodes.Legacy

/-!
# Saving the inode map and loading it again
-/

namespace GoStream.Inodes

open Foundations Metadb

variable {H : Hashing}

def RoundTrips (m : InodeMap H) : Prop :=
  ∀ (o : SaveOrders) (rowOrder : MapOrder) (db : DB),
    ∃ m', (InodeMap.new : InodeMap H).loadFromDB rowOrder (m.saveToDB o db).2 = some m' ∧
      AnswersAlike m' m ∧
      ∀ p k, m'.nameMap.lookup p = some k → m.nameMap.lookup p = some k

structure Saveable (m : InodeMap H) : Prop where
  key : ∀ p k, m.nameMap.lookup p = some k →
    ∃ (a : Bytes) (i : Int64), 58 ∉ a ∧ k = a ++ ascii ":" ++ itoa i.toInt
  inode : ∀ p k, m.nameMap.lookup p = some k → ∃ v, m.fileMap.lookup k = some v
  owner : ∀ k v, m.fileMap.lookup k = some v → ∃ p, m.nameMap.lookup p = some k
  unshared : ∀ p q k, m.nameMap.lookup p = some k → m.nameMap.lookup q = some k → p = q
  dir : ∀ j p v, (m.dirMap j).lookup p = some v → v = H.generateDirInode p
  earlier : ∀ j p k, m.nameMap.lookup p = some k → p ∈ m.dirMap j → j < H.getShard k

section Saved

variable {m : InodeMap H} {o : SaveOrders}

theorem splitKey_append {a : Bytes} (ha : 58 ∉ a) (i : Int64) :
    InodeMap.splitKey (a ++ ascii ":" ++ itoa i.toInt) = (a, i) := by
  have hsplit : splitFirst 58 (a ++ ascii ":" ++ itoa i.toInt) = some (a, itoa i.toInt) := by
    rw [List.append_assoc]
    exact splitFirst_append ha
  rw [InodeMap.splitKey, hsplit]
  simp [parseInt_itoa]

theorem Saveable.keyToPath (hm : Saveable m) {p k : Bytes} (h : m.nameMap.lookup p = some k) :
    (m.keyToPath o).lookup k = some p := by
  have hswap : m.keyToPath o =
      ((o.names.arrange (m.nameMap.items .listed)).map Prod.swap).foldl
        (fun d x => AList.insert x.1 x.2 d) ∅ := by
    rw [List.foldl_map]
    rfl
  rw [hswap]
  have hmem : ∀ {q : Bytes}, (k, q) ∈ (o.names.arrange (m.nameMap.items .listed)).map Prod.swap ↔
      m.nameMap.lookup q = some k := by
    intro q
    rw [List.mem_map]
    constructor
    · rintro ⟨⟨p', k'⟩, hx, heq⟩
      obtain ⟨rfl, rfl⟩ := Prod.mk.inj heq
      exact Sharded.mem_items.mp (o.names.mem_arrange.mp hx)
    · intro hq
      exact ⟨(q, k), o.names.mem_arrange.mpr (Sharded.mem_items.mpr hq), rfl⟩
  exact Dict.lookupInsert.get_of_unique (hmem.mpr h) fun q hq => hm.unshared q p k (hmem.mp hq) h

theorem mem_saveEntries_file {k : Bytes} {v : UInt64} :
    SaveEntry.file k v ∈ m.saveEntries o ↔ m.fileMap.lookup k = some v := by
  simp only [InodeMap.saveEntries, List.mem_flatMap, List.mem_finRange, true_and, List.mem_append,
    List.mem_map, o.files.mem_arrange, o.dirs.mem_arrange, Prod.exists, SaveEntry.file.injEq,
    reduceCtorEq, and_false, exists_false, or_false, Sharded.mem_items_part]
  constructor
  · rintro ⟨i, k', v', ⟨-, h⟩, rfl, rfl⟩
    exact h
  · intro h
    exact ⟨_, k, v, ⟨rfl, h⟩, rfl, rfl⟩

theorem mem_saveEntries_dir {p : Bytes} {v : UInt64} :
    SaveEntry.dir p v ∈ m.saveEntries o ↔ ∃ j, (m.dirMap j).lookup p = some v := by
  simp only [InodeMap.saveEntries, List.mem_flatMap, List.mem_finRange, true_and, List.mem_append,
    List.mem_map, o.files.mem_arrange, o.dirs.mem_arrange, Prod.exists, SaveEntry.dir.injEq,
    reduceCtorEq, and_false, exists_false, false_or, Dict.mem_items]
  constructor
  · rintro ⟨i, p', v', h, rfl, rfl⟩
    exact ⟨i, h⟩
  · rintro ⟨i, h⟩
    exact ⟨i, p, v, h, rfl, rfl⟩

theorem Saveable.not_clash_file (hm : Saveable m) {k k' : Bytes} {v v' : UInt64}
    (h : m.fileMap.lookup k = some v) (h' : m.fileMap.lookup k' = some v') (hne : k ≠ k') :
    ¬ (InodeMap.saveRow (m.keyToPath o) (.file k v)).Clash
      (InodeMap.saveRow (m.keyToPath o) (.file k' v')) := by
  obtain ⟨p, hp⟩ := hm.owner k v h
  obtain ⟨p', hp'⟩ := hm.owner k' v' h'
  have hpath : p ≠ p' := by
    rintro rfl
    exact hne (Option.some.inj (hp.symm.trans hp'))
  simp [InodeMap.saveRow, InodeRow.Clash, SameValue, hm.keyToPath hp, hm.keyToPath hp', hpath]

theorem Saveable.not_clash_dir (hm : Saveable m) {k q : Bytes} {v w : UInt64} {j : Fin 32}
    (h : m.fileMap.lookup k = some v) (hq : (m.dirMap j).lookup q = some w)
    (hj : H.getShard k ≤ j) :
    ¬ (InodeMap.saveRow (m.keyToPath o) (.file k v)).Clash
      (InodeMap.saveRow (m.keyToPath o) (.dir q w)) := by
  obtain ⟨p, hp⟩ := hm.owner k v h
  have hpath : p ≠ q := by
    rintro rfl
    have hmem : p ∈ m.dirMap j := AList.lookup_isSome.mp (by rw [hq]; rfl)
    exact absurd (hm.earlier j p k hp hmem) (not_lt.mpr hj)
  simp [InodeMap.saveRow, InodeRow.Clash, SameValue, hm.keyToPath hp, hpath]

theorem Saveable.file_lasts (hm : Saveable m) {k : Bytes} {v : UInt64}
    (h : m.fileMap.lookup k = some v) :
    Lasts (fun a b => (InodeMap.saveRow (m.keyToPath o) a).Clash (InodeMap.saveRow (m.keyToPath o) b))
      (.file k v) (m.saveEntries o) := by
  apply lasts_of_pairwise (mem_saveEntries_file.mpr h)
  -- the rows after that of `k`: keys of the same shard or a later one, and directories there
  have hfile : ∀ (i : Fin 32) (x : Bytes × UInt64), x ∈ o.files.arrange (m.fileMap.parts i).items →
      H.getShard x.1 = i ∧ m.fileMap.lookup x.1 = some x.2 := fun i x hx =>
    (m.fileMap.mem_items_part).mp (o.files.mem_arrange.mp hx)
  have hdir : ∀ (j : Fin 32) (x : Bytes × UInt64), x ∈ o.dirs.arrange (m.dirMap j).items →
      (m.dirMap j).lookup x.1 = some x.2 := fun j x hx =>
    Dict.mem_items.mp (o.dirs.mem_arrange.mp hx)
  unfold InodeMap.saveEntries
  refine List.pairwise_flatMap.mpr ⟨fun i _ => ?_, ?_⟩
  · refine List.pairwise_append.mpr ⟨?_, ?_, ?_⟩
    · have hnodup := (o.files.perm (m.fileMap.parts i).items).nodup_iff.mpr
        (m.fileMap.parts i).nodup_items
      refine List.pairwise_map.mpr (hnodup.pairwise_of_forall_ne fun x hx y hy hne heq => ?_)
      obtain ⟨rfl, rfl⟩ := SaveEntry.file.inj heq
      refine hm.not_clash_file (hfile i x hx).2 (hfile i y hy).2 fun hkey => hne ?_
      have hval := (hfile i x hx).2.symm.trans (hkey ▸ (hfile i y hy).2)
      exact Prod.ext hkey (Option.some.inj hval)
    · refine List.pairwise_map.mpr (List.pairwise_of_forall fun x y heq => ?_)
      cases heq
    · intro a ha b hb heq
      obtain ⟨x, hx, rfl⟩ := List.mem_map.mp ha
      obtain ⟨y, hy, rfl⟩ := List.mem_map.mp hb
      obtain ⟨rfl, rfl⟩ := SaveEntry.file.inj heq
      exact hm.not_clash_dir (hfile i x hx).2 (hdir i y hy) (hfile i x hx).1.le
  · refine (List.pairwise_lt_finRange 32).imp fun {i j} hij a ha b hb heq => ?_
    subst heq
    have hi : H.getShard k = i := by
      rcases List.mem_append.mp ha with ha | ha
      · obtain ⟨x, hx, heq⟩ := List.mem_map.mp ha
        obtain ⟨rfl, rfl⟩ := SaveEntry.file.inj heq
        exact (hfile i x hx).1
      · obtain ⟨x, -, heq⟩ := List.mem_map.mp ha
        cases heq
    rcases List.mem_append.mp hb with hb | hb
    · obtain ⟨y, hy, rfl⟩ := List.mem_map.mp hb
      refine hm.not_clash_file h (hfile j y hy).2 fun hkey => hij.ne ?_
      rw [← hi, hkey, (hfile j y hy).1]
    · obtain ⟨y, hy, rfl⟩ := List.mem_map.mp hb
      exact hm.not_clash_dir h (hdir j y hy) (hi ▸ hij.le)

theorem Saveable.scan_file (hm : Saveable m) {p k : Bytes} {v : UInt64} {e : InodeEntry}
    (hp : m.nameMap.lookup p = some k)
    (he : (InodeMap.saveRow (m.keyToPath o) (.file k v)).scan = some e) :
    InodeMap.nameEntry e = some (p, k) ∧ InodeMap.fileEntry e = some (k, v) ∧
      InodeMap.dirEntry e = none := by
  have hkey : (InodeMap.splitKey k).1 ++ ascii ":" ++ itoa (InodeMap.splitKey k).2.toInt = k := by
    obtain ⟨a, i, ha, rfl⟩ := hm.key p k hp
    rw [splitKey_append ha]
  obtain rfl := Option.some.inj he
  refine ⟨?_, ?_, rfl⟩
  · simp only [InodeMap.nameEntry, InodeMap.saveRow, hm.keyToPath hp, Option.getD_some, hkey]
  · simp only [InodeMap.fileEntry, InodeMap.saveRow, Option.getD_some, hkey,
      UInt64.toUInt64_toInt64]

theorem scan_dir {d : Dict Bytes Bytes} {q : Bytes} {w : UInt64} {e : InodeEntry}
    (he : (InodeMap.saveRow d (.dir q w)).scan = some e) :
    InodeMap.nameEntry e = none ∧ InodeMap.fileEntry e = none ∧
      InodeMap.dirEntry e = some (q, w) := by
  obtain rfl := Option.some.inj he
  refine ⟨rfl, rfl, ?_⟩
  simp [InodeMap.dirEntry, InodeMap.saveRow]

structure Saved (m : InodeMap H) (es : List InodeEntry) : Prop where
  name : ∀ p k, (p, k) ∈ es.filterMap InodeMap.nameEntry ↔ m.nameMap.lookup p = some k
  file : ∀ k v, (k, v) ∈ es.filterMap InodeMap.fileEntry ↔ m.fileMap.lookup k = some v
  dir : ∀ q w, (q, w) ∈ es.filterMap InodeMap.dirEntry → w = H.generateDirInode q

theorem Saveable.saved (hm : Saveable m) (rowOrder : MapOrder) (db : DB) :
    ∃ es, (m.saveToDB o db).2.loadAll rowOrder = some es ∧ Saved m es := by
  have hrows : ∀ r ∈ (m.saveToDB o db).2.inodes.rows,
      ∃ x ∈ m.saveEntries o, InodeMap.saveRow (m.keyToPath o) x = r := fun r hr =>
    List.mem_map.mp (Table.mem_of_mem_insertAll hr)
  obtain ⟨es, hload, hes⟩ := DB.loadAll_eq rowOrder (d := (m.saveToDB o db).2) fun r hr => by
    obtain ⟨x, -, rfl⟩ := hrows r hr
    cases x <;> rfl
  -- every entry is that of a key or of a directory
  have hentry : ∀ e ∈ es,
      (∃ p k v, m.nameMap.lookup p = some k ∧ m.fileMap.lookup k = some v ∧
        InodeMap.nameEntry e = some (p, k) ∧ InodeMap.fileEntry e = some (k, v) ∧
        InodeMap.dirEntry e = none) ∨
      ∃ q, InodeMap.nameEntry e = none ∧ InodeMap.fileEntry e = none ∧
        InodeMap.dirEntry e = some (q, H.generateDirInode q) := by
    intro e he
    obtain ⟨r, hr, hscan⟩ := (hes e).mp he
    obtain ⟨x, hx, rfl⟩ := hrows r hr
    cases x with
    | file k v =>
      have hv := mem_saveEntries_file.mp hx
      obtain ⟨p, hp⟩ := hm.owner k v hv
      exact .inl ⟨p, k, v, hp, hv, hm.scan_file hp hscan⟩
    | dir q w =>
      obtain ⟨j, hj⟩ := mem_saveEntries_dir.mp hx
      obtain rfl := hm.dir j q w hj
      exact .inr ⟨q, scan_dir hscan⟩
  -- and the row of every key is still there
  have hkept : ∀ p k v, m.nameMap.lookup p = some k → m.fileMap.lookup k = some v →
      ∃ e ∈ es, InodeMap.nameEntry e = some (p, k) ∧ InodeMap.fileEntry e = some (k, v) := by
    intro p k v hp hv
    have hmem : InodeMap.saveRow (m.keyToPath o) (.file k v) ∈ (m.saveToDB o db).2.inodes.rows :=
      Table.mem_insertAll.mpr (.inr ((hm.file_lasts hv).map _))
    have hscan := hm.scan_file (o := o) (v := v) hp rfl
    exact ⟨_, (hes _).mpr ⟨_, hmem, rfl⟩, hscan.1, hscan.2.1⟩
  refine ⟨es, hload, fun p k => ?_, fun k v => ?_, fun q w hq => ?_⟩
  · rw [List.mem_filterMap]
    constructor
    · rintro ⟨e, he, hname⟩
      rcases hentry e he with ⟨p', k', v, hp, -, hn, -⟩ | ⟨q, hn, -⟩
      · obtain ⟨rfl, rfl⟩ := Prod.mk.inj (Option.some.inj (hname.symm.trans hn))
        exact hp
      · cases hname.symm.trans hn
    · intro hp
      obtain ⟨v, hv⟩ := hm.inode p k hp
      obtain ⟨e, he, hn, -⟩ := hkept p k v hp hv
      exact ⟨e, he, hn⟩
  · rw [List.mem_filterMap]
    constructor
    · rintro ⟨e, he, hfile⟩
      rcases hentry e he with ⟨p, k', v', -, hv, -, hf, -⟩ | ⟨q, -, hf, -⟩
      · obtain ⟨rfl, rfl⟩ := Prod.mk.inj (Option.some.inj (hfile.symm.trans hf))
        exact hv
      · cases hfile.symm.trans hf
    · intro hv
      obtain ⟨p, hp⟩ := hm.owner k v hv
      obtain ⟨e, he, -, hf⟩ := hkept p k v hp hv
      exact ⟨e, he, hf⟩
  · obtain ⟨e, he, hdir⟩ := List.mem_filterMap.mp hq
    rcases hentry e he with ⟨-, -, -, -, -, -, -, hd⟩ | ⟨q', -, -, hd⟩
    · cases hdir.symm.trans hd
    · obtain ⟨rfl, rfl⟩ := Prod.mk.inj (Option.some.inj (hdir.symm.trans hd))
      rfl

end Saved

section Loaded

variable {m : InodeMap H} {es : List InodeEntry} (hs : Saved m es)

include hs

theorem Saved.lookup_nameMap (p : Bytes) :
    (es.foldl InodeMap.loadEntry (InodeMap.new : InodeMap H)).nameMap.lookup p =
      m.nameMap.lookup p := by
  rw [InodeMap.nameMap_loadEntries]
  exact Sharded.lookupInsert.get_of_graph hs.name rfl

theorem Saved.lookup_fileMap (k : Bytes) :
    (es.foldl InodeMap.loadEntry (InodeMap.new : InodeMap H)).fileMap.lookup k =
      m.fileMap.lookup k := by
  rw [InodeMap.fileMap_loadEntries]
  exact Sharded.lookupInsert.get_of_graph hs.file rfl

theorem Saved.getDirInode (p : Bytes) :
    ((es.foldl InodeMap.loadEntry (InodeMap.new : InodeMap H)).getDirInode p).1 =
      H.generateDirInode p := by
  apply InodeMap.getDirInode_of_own
  intro hslash _ v hv
  rw [InodeMap.dirMap_loadEntries] at hv
  by_cases hmem : ∃ w, (p, w) ∈ es.filterMap InodeMap.dirEntry
  · obtain ⟨w, hw⟩ := hmem
    obtain ⟨u, hu, hget⟩ := InodeMap.dirLookupInsert.get_of_mem (s := InodeMap.new.dirMap) hw
    obtain rfl := Option.some.inj (hget.symm.trans hv)
    exact hs.dir p u hu
  · rw [InodeMap.dirLookupInsert.get_of_absent fun w hw => hmem ⟨w, hw⟩,
      InodeMap.dirLookup_new hslash] at hv
    cases hv

end Loaded

theorem Saveable.getDirInode {m : InodeMap H} (hm : Saveable m) (p : Bytes) :
    (m.getDirInode p).1 = H.generateDirInode p :=
  InodeMap.getDirInode_of_own fun _ _ v hv => hm.dir _ p v hv

theorem Saveable.roundTrips {m : InodeMap H} (hm : Saveable m) : RoundTrips m := by
  intro o rowOrder db
  obtain ⟨es, hload, hs⟩ := hm.saved (o := o) rowOrder db
  refine ⟨es.foldl InodeMap.loadEntry .new, ?_, ⟨?_, ?_⟩, ?_⟩
  · simp [InodeMap.loadFromDB, hload]
  · intro p
    simp only [InodeMap.getFileInode, hs.lookup_nameMap, hs.lookup_fileMap]
  · intro p
    rw [hs.getDirInode, hm.getDirInode]
  · intro p k h
    rwa [hs.lookup_nameMap] at h

namespace RoundTrip

inductive Op
  | addFile (fullPath infohash : Bytes) (index : Int64)
  | addDir (relativePath : Bytes)
  | removeFile (fullPath : Bytes)

def step (m : InodeMap H) : Op → InodeMap H
  | .addFile p h i => (m.addFile p h i).2
  | .addDir p => (m.addDir p).2
  | .removeFile p => m.removeFile p

def separate (m : InodeMap H) : Op → Prop
  | .addFile p h i => h = [] ∨
      58 ∉ H.toLower h ∧
      (∀ k, m.nameMap.lookup p = some k → k = H.fileKey h i) ∧
      (∀ q, q ≠ p → m.nameMap.lookup q ≠ some (H.fileKey h i)) ∧
      ∀ j, p ∈ m.dirMap j → j < H.getShard (H.fileKey h i)
  | .addDir p => ∀ k, m.nameMap.lookup p = some k → H.getShard p < H.getShard k
  | .removeFile _ => True

theorem saveable_new : Saveable (InodeMap.new : InodeMap H) where
  key := fun p k h => by simp [InodeMap.new] at h
  inode := fun p k h => by simp [InodeMap.new] at h
  owner := fun k v h => by simp [InodeMap.new] at h
  unshared := fun p q k h => by simp [InodeMap.new] at h
  dir := by
    intro j p v h
    simp only [InodeMap.new] at h
    split_ifs at h
    · rw [Dict.lookup_singleton] at h
      split_ifs at h with hp
      simp [Hashing.generateDirInode, hp, ← Option.some.inj h]
    · simp at h
  earlier := fun j p k h => by simp [InodeMap.new] at h

variable {m : InodeMap H}

theorem dirMap_addFile (p h : Bytes) (i : Int64) : (m.addFile p h i).2.dirMap = m.dirMap := by
  unfold InodeMap.addFile
  dsimp only
  split_ifs <;> rfl

theorem saveable_addFile (hm : Saveable m) (p h : Bytes) (i : Int64)
    (hok : separate m (.addFile p h i)) : Saveable (m.addFile p h i).2 := by
  by_cases hh : h = []
  · rw [hh, InodeMap.addFile_of_hash_empty]
    exact hm
  obtain ⟨hcolon, hsame, hother, hearlier⟩ := hok.resolve_left hh
  have hname := InodeMap.lookup_nameMap_addFile (m := m) hh p (i := i)
  have hfile := fun k => InodeMap.lookup_fileMap_addFile (m := m) hh p k i
  -- the names of a key after the step
  have hold : ∀ q k, (m.addFile p h i).2.nameMap.lookup q = some k →
      (q = p ∧ k = H.fileKey h i) ∨ (q ≠ p ∧ m.nameMap.lookup q = some k) := by
    intro q k hq
    rw [hname] at hq
    split_ifs at hq with hqp
    · exact .inl ⟨hqp, (Option.some.inj hq).symm⟩
    · exact .inr ⟨hqp, hq⟩
  constructor
  · intro q k hq
    rcases hold q k hq with ⟨-, rfl⟩ | ⟨-, hq⟩
    · exact ⟨H.toLower h, i, hcolon, rfl⟩
    · exact hm.key q k hq
  · intro q k hq
    rw [hfile]
    split_ifs with hnew
    · exact ⟨_, rfl⟩
    · rcases hold q k hq with ⟨-, rfl⟩ | ⟨-, hq⟩
      · exact hm.inode p _ (by simpa using hnew)
      · exact hm.inode q k hq
  · intro k v hk
    rw [hfile] at hk
    split_ifs at hk with hnew
    · exact ⟨p, by rw [hname, if_pos rfl, hnew.2]⟩
    · obtain ⟨q, hq⟩ := hm.owner k v hk
      refine ⟨q, ?_⟩
      rw [hname]
      split_ifs with hqp
      · rw [hsame k (hqp ▸ hq)]
      · exact hq
  · intro q r k hq hr
    rcases hold q k hq with ⟨rfl, rfl⟩ | ⟨hqp, hq'⟩
    · rcases hold r _ hr with ⟨rfl, -⟩ | ⟨hrp, hr'⟩
      · rfl
      · exact absurd hr' (hother r hrp)
    · rcases hold r k hr with ⟨rfl, rfl⟩ | ⟨-, hr'⟩
      · exact absurd hq' (hother q hqp)
      · exact hm.unshared q r k hq' hr'
  · rw [dirMap_addFile]
    exact hm.dir
  · intro j q k hq hdir
    rw [dirMap_addFile] at hdir
    rcases hold q k hq with ⟨rfl, rfl⟩ | ⟨-, hq⟩
    · exact hearlier j hdir
    · exact hm.earlier j q k hq hdir

theorem saveable_addDir (hm : Saveable m) (p : Bytes) (hok : separate m (.addDir p)) :
    Saveable (m.addDir p).2 := by
  unfold InodeMap.addDir
  dsimp only
  split_ifs with hthere
  · exact hm
  · refine { key := hm.key, inode := hm.inode, owner := hm.owner, unshared := hm.unshared
             dir := fun j q v h => ?_, earlier := fun j q k hq hdir => ?_ }
    · dsimp only at h
      by_cases hj : j = H.getShard p
      · subst hj
        rw [Function.update_self, Dict.lookup_insert] at h
        split_ifs at h with hqp
        · rw [hqp]
          exact (Option.some.inj h).symm
        · exact hm.dir _ q v h
      · rw [Function.update_of_ne hj] at h
        exact hm.dir j q v h
    · dsimp only at hdir
      by_cases hj : j = H.getShard p
      · subst hj
        rw [Function.update_self, AList.mem_insert] at hdir
        rcases hdir with rfl | hdir
        · exact hok k hq
        · exact hm.earlier _ q k hq hdir
      · rw [Function.update_of_ne hj] at hdir
        exact hm.earlier j q k hq hdir

theorem saveable_removeFile (hm : Saveable m) (p : Bytes) : Saveable (m.removeFile p) := by
  have hold : ∀ q k, (m.removeFile p).nameMap.lookup q = some k →
      q ≠ p ∧ m.nameMap.lookup q = some k := by
    intro q k hq
    rw [InodeMap.lookup_nameMap_removeFile] at hq
    split_ifs at hq with hqp
    exact ⟨hqp, hq⟩
  constructor
  · exact fun q k hq => hm.key q k (hold q k hq).2
  · intro q k hq
    obtain ⟨hqp, hq⟩ := hold q k hq
    rw [InodeMap.lookup_fileMap_removeFile, if_neg fun hp => hqp (hm.unshared q p k hq hp)]
    exact hm.inode q k hq
  · intro k v hk
    rw [InodeMap.lookup_fileMap_removeFile] at hk
    split_ifs at hk with hp
    obtain ⟨q, hq⟩ := hm.owner k v hk
    have hqp : q ≠ p := by
      rintro rfl
      exact hp hq
    exact ⟨q, by rw [InodeMap.lookup_nameMap_removeFile, if_neg hqp, hq]⟩
  · exact fun q r k hq hr => hm.unshared q r k (hold q k hq).2 (hold r k hr).2
  · rw [InodeMap.dirMap_removeFile]
    exact hm.dir
  · intro j q k hq hdir
    rw [InodeMap.dirMap_removeFile] at hdir
    exact hm.earlier j q k (hold q k hq).2 hdir

theorem saveable_step (m : InodeMap H) (op : Op) (hm : Saveable m) (hok : separate m op) :
    Saveable (step m op) := by
  cases op with
  | addFile p h i => exact saveable_addFile hm p h i hok
  | addDir p => exact saveable_addDir hm p hok
  | removeFile p => exact saveable_removeFile hm p

/-- The map can be saved and loaded at any time. -/
theorem map_round_trips (ops : List Op) (h : Meets separate step (InodeMap.new : InodeMap H) ops) :
    ∀ pre, pre <+: ops → RoundTrips (run step (InodeMap.new : InodeMap H) pre) :=
  Meets.good saveable_step (fun _ hm => hm.roundTrips) ops saveable_new h

theorem map_round_trips_season :
    RoundTrips (run step (InodeMap.new : InodeMap .standard)
      [.addDir (ascii "/tv"), .addFile (ascii "/tv/a.mkv") (ascii "ab") 0,
        .addFile (ascii "/tv/b.mkv") (ascii "ab") 1, .removeFile (ascii "/tv/b.mkv")]) := by
  apply map_round_trips _ ?_ _ List.prefix_rfl
  refine ⟨?_, .inr ⟨by decide, ?_, ?_, by decide +kernel⟩,
    .inr ⟨by decide, ?_, ?_, by decide +kernel⟩, trivial, trivial⟩
  · intro k hk
    simp [InodeMap.new] at hk
  · intro k hk
    simp [step, InodeMap.maps_addDir, InodeMap.new] at hk
  · intro q _ hq
    simp [step, InodeMap.maps_addDir, InodeMap.new] at hq
  · intro k hk
    simp only [step] at hk
    rw [InodeMap.lookup_nameMap_addFile (by decide), if_neg (by decide),
      (InodeMap.maps_addDir _).1] at hk
    simp [InodeMap.new] at hk
  · intro q _ hq
    simp only [step] at hq
    rw [InodeMap.lookup_nameMap_addFile (by decide), (InodeMap.maps_addDir _).1] at hq
    split_ifs at hq
    · exact absurd hq (by decide)
    · simp [InodeMap.new] at hq

theorem shared_key_lost :
    ¬ RoundTrips (run step (InodeMap.new : InodeMap .standard)
      [.addFile (ascii "/tv/a.mkv") (ascii "ab") 0, .addFile (ascii "/tv/b.mkv") (ascii "ab") 0]) := by
  intro h
  obtain ⟨m', hload, halike, -⟩ := h ⟨.listed, .listed, .listed⟩ .listed DB.new
  have ha := halike.file (ascii "/tv/a.mkv")
  have hb := halike.file (ascii "/tv/b.mkv")
  obtain rfl := Option.some.inj (Eq.symm hload)
  revert ha hb
  decide +kernel

end RoundTrip

end GoStream.Inodes
