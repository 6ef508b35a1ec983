import GoStream.Inodes.Map
import GoStream.Metadb.Migration

/-!
# Loading and saving the inode map
-/

namespace GoStream.Inodes

open Foundations Metadb

variable {H : Hashing}

namespace InodeMap

def putDir (dirMap : Fin 32 → Dict Bytes UInt64) (i : Fin 32) (relPath : Bytes) (inode : UInt64) :
    Fin 32 → Dict Bytes UInt64 :=
  Function.update dirMap i (AList.insert relPath inode (dirMap i))

def loadEntry (m : InodeMap H) (e : InodeEntry) : InodeMap H :=
  match e.type with
  | .file =>
    let key := e.infohash ++ ascii ":" ++ itoa e.fileIdx.toInt
    { m with
      nameMap := m.nameMap.insert e.fullPath key
      fileMap := m.fileMap.insert key e.inodeValue
      fastFileMap := m.fastFileMap.insert e.basename e.inodeValue }
  | .dir => { m with dirMap := putDir m.dirMap (H.getShard e.relPath) e.relPath e.inodeValue }

def loadFromDB (order : MapOrder) (m : InodeMap H) (db : DB) : Option (InodeMap H) :=
  (db.loadAll order).map fun entries => entries.foldl loadEntry m

def addLoadedFile (m : InodeMap H) (fullPath key : Bytes) (inode : UInt64) : InodeMap H :=
  { m with
    nameMap := m.nameMap.insert fullPath key
    fileMap := m.fileMap.insert key inode
    fastFileMap := m.fastFileMap.insert (filepathBase fullPath) inode }

def addLoadedDir (m : InodeMap H) (relPath : Bytes) (inode : UInt64) : InodeMap H :=
  { m with dirMap := putDir m.dirMap (H.getShard relPath) relPath inode }

end InodeMap

structure JSONOrders where
  index : MapOrder
  dirs : MapOrder

namespace InodeMap

def jsonFiles {ν : Type} (value : ν → Option UInt64) (o : JSONOrders) (files : Dict Bytes ν)
    (filenameIndex : Dict Bytes Bytes) : List (Bytes × Bytes × UInt64) :=
  (o.index.arrange filenameIndex.items).filterMap fun x =>
    ((files.lookup x.2).bind value).map fun inode => (x.1, x.2, inode)

def jsonDirs {ν : Type} (value : ν → Option UInt64) (o : JSONOrders) (dirs : Dict Bytes ν) :
    List (Bytes × UInt64) :=
  (o.dirs.arrange dirs.items).filterMap fun x => (value x.2).map fun inode => (x.1, inode)

def loadJSON {ν : Type} (value : ν → Option UInt64) (o : JSONOrders) (files dirs : Dict Bytes ν)
    (filenameIndex : Dict Bytes Bytes) (m : InodeMap H) : InodeMap H :=
  (jsonDirs value o dirs).foldl (fun m x => m.addLoadedDir x.1 x.2)
    ((jsonFiles value o files filenameIndex).foldl (fun m x => m.addLoadedFile x.1 x.2.1 x.2.2) m)

def loadFromJSON (o : JSONOrders) (m : InodeMap H) : InodeMapData → InodeMap H
  | .v2 data => loadJSON parseUint o data.files data.dirs data.filenameIndex m
  | .v1 data =>
    { loadJSON some o data.files data.dirs data.filenameIndex m with dirty := true }

end InodeMap

structure SaveOrders where
  names : MapOrder
  files : MapOrder
  dirs : MapOrder

inductive SaveEntry
  | file (key : Bytes) (inode : UInt64)
  | dir (relPath : Bytes) (inode : UInt64)

namespace InodeMap

def keyToPath (o : SaveOrders) (m : InodeMap H) : Dict Bytes Bytes :=
  (o.names.arrange (m.nameMap.items .listed)).foldl (fun d x => AList.insert x.2 x.1 d) ∅

def splitKey (key : Bytes) : Bytes × Int64 :=
  match splitFirst 58 key with
  | some (infohash, idx) => (infohash, (parseInt idx).getD 0)
  | none => (key, 0)

def saveRow (keyToPath : Dict Bytes Bytes) : SaveEntry → InodeRow
  | .file key inode =>
    let fullPath := (keyToPath.lookup key).getD []
    { type := .file
      infohash := some (splitKey key).1
      fileIdx := some (splitKey key).2
      fullPath := some fullPath
      relPath := none
      basename := some (pathBase fullPath)
      inodeValue := inode.toInt64 }
  | .dir relPath inode =>
    { type := .dir
      infohash := none
      fileIdx := none
      fullPath := some relPath
      relPath := some relPath
      basename := some (pathBase relPath)
      inodeValue := inode.toInt64 }

def saveEntries (o : SaveOrders) (m : InodeMap H) : List SaveEntry :=
  (List.finRange 32).flatMap fun i =>
    (o.files.arrange (m.fileMap.parts i).items).map (fun x => .file x.1 x.2) ++
      (o.dirs.arrange (m.dirMap i).items).map (fun x => .dir x.1 x.2)

def saveToDB (o : SaveOrders) (m : InodeMap H) (db : DB) : InodeMap H × DB :=
  ({ m with dirty := false },
    { db with inodes := Table.empty.insertAll ((m.saveEntries o).map (saveRow (m.keyToPath o))) })

def dirLookup (H : Hashing) (dirMap : Fin 32 → Dict Bytes UInt64) (relPath : Bytes) :
    Option UInt64 :=
  (dirMap (H.getShard relPath)).lookup relPath

theorem dirLookupInsert :
    LookupInsert (dirLookup H) fun dirMap p v => putDir dirMap (H.getShard p) p v := by
  intro dirMap a v k
  unfold dirLookup putDir
  by_cases hs : H.getShard k = H.getShard a
  · simp only [hs, Function.update_self, Dict.lookup_insert]
  · have hk : k ≠ a := fun h => hs (congrArg H.getShard h)
    simp only [Function.update_of_ne hs, if_neg hk]

theorem dirLookup_new {p : Bytes} (hp : p ≠ ascii "/") :
    dirLookup H (new : InodeMap H).dirMap p = none := by
  unfold dirLookup new
  dsimp only
  split_ifs
  · rw [Dict.lookup_singleton, if_neg hp]
  · rfl

theorem getDirInode_fst (m : InodeMap H) (p : Bytes) :
    (m.getDirInode p).1 = if p = ascii "/" ∨ p = [] then inodeRoot
      else (dirLookup H m.dirMap p).getD (H.generateDirInode p) := by
  unfold getDirInode
  split_ifs with hroot
  · rfl
  · have hlook : (m.dirMap (H.getShard p)).lookup p = dirLookup H m.dirMap p := rfl
    rw [hlook]
    cases dirLookup H m.dirMap p with
    | some inode => rfl
    | none =>
      simp only [addDir]
      split <;> rfl

theorem getDirInode_of_own {m : InodeMap H} {p : Bytes} (h : p ≠ ascii "/" → p ≠ [] →
    ∀ v, dirLookup H m.dirMap p = some v → v = H.generateDirInode p) :
    (m.getDirInode p).1 = H.generateDirInode p := by
  rw [getDirInode_fst]
  split_ifs with hroot
  · simp [Hashing.generateDirInode, hroot]
  · rw [not_or] at hroot
    cases hv : dirLookup H m.dirMap p with
    | none => rfl
    | some v => exact h hroot.1 hroot.2 v hv

def nameEntry (e : InodeEntry) : Option (Bytes × Bytes) :=
  match e.type with
  | .file => some (e.fullPath, e.infohash ++ ascii ":" ++ itoa e.fileIdx.toInt)
  | .dir => none

def fileEntry (e : InodeEntry) : Option (Bytes × UInt64) :=
  match e.type with
  | .file => some (e.infohash ++ ascii ":" ++ itoa e.fileIdx.toInt, e.inodeValue)
  | .dir => none

def dirEntry (e : InodeEntry) : Option (Bytes × UInt64) :=
  match e.type with
  | .file => none
  | .dir => some (e.relPath, e.inodeValue)

variable (m : InodeMap H) (es : List InodeEntry)

theorem nameMap_loadEntries : (es.foldl loadEntry m).nameMap =
    (es.filterMap nameEntry).foldl (fun s x => s.insert x.1 x.2) m.nameMap := by
  refine proj_foldl Sharded.insert ?_ es m
  intro a e
  cases h : e.type <;> simp [loadEntry, nameEntry, h]

theorem fileMap_loadEntries : (es.foldl loadEntry m).fileMap =
    (es.filterMap fileEntry).foldl (fun s x => s.insert x.1 x.2) m.fileMap := by
  refine proj_foldl Sharded.insert ?_ es m
  intro a e
  cases h : e.type <;> simp [loadEntry, fileEntry, h]

theorem dirMap_loadEntries : (es.foldl loadEntry m).dirMap =
    (es.filterMap dirEntry).foldl (fun d x => putDir d (H.getShard x.1) x.1 x.2) m.dirMap := by
  refine proj_foldl (fun d p v => putDir d (H.getShard p) p v) ?_ es m
  intro a e
  cases h : e.type <;> simp [loadEntry, dirEntry, h]

section JSON

variable {ν : Type} {value : ν → Option UInt64} {o : JSONOrders} {files dirs : Dict Bytes ν}
  {filenameIndex : Dict Bytes Bytes}

theorem mem_jsonFiles {p k : Bytes} {v : UInt64} :
    (p, k, v) ∈ jsonFiles value o files filenameIndex ↔
      filenameIndex.lookup p = some k ∧ (files.lookup k).bind value = some v := by
  simp only [jsonFiles, List.mem_filterMap, o.index.mem_arrange, Option.map_eq_some_iff, Prod.exists,
    Prod.mk.injEq, Dict.mem_items]
  constructor
  · rintro ⟨a, b, hidx, w, hw, rfl, rfl, rfl⟩
    exact ⟨hidx, hw⟩
  · rintro ⟨hidx, hv⟩
    exact ⟨p, k, hidx, v, hv, rfl, rfl, rfl⟩

theorem mem_jsonDirs {p : Bytes} {v : UInt64} :
    (p, v) ∈ jsonDirs value o dirs ↔ (dirs.lookup p).bind value = some v := by
  simp only [jsonDirs, List.mem_filterMap, o.dirs.mem_arrange, Option.map_eq_some_iff, Prod.exists,
    Prod.mk.injEq, Dict.mem_items, Option.bind_eq_some_iff]
  constructor
  · rintro ⟨a, b, hab, w, hw, rfl, rfl⟩
    exact ⟨b, hab, hw⟩
  · rintro ⟨b, hpb, hv⟩
    exact ⟨p, b, hpb, v, hv, rfl, rfl⟩

theorem maps_addLoadedDirs (l : List (Bytes × UInt64)) :
    let loaded := l.foldl (fun m x => m.addLoadedDir x.1 x.2) m
    loaded.nameMap = m.nameMap ∧ loaded.fileMap = m.fileMap ∧
      loaded.dirMap = l.foldl (fun d x => putDir d (H.getShard x.1) x.1 x.2) m.dirMap := by
  induction l generalizing m with
  | nil => exact ⟨rfl, rfl, rfl⟩
  | cons x l ih => exact ih (m.addLoadedDir x.1 x.2)

theorem maps_addLoadedFiles (l : List (Bytes × Bytes × UInt64)) :
    let loaded := l.foldl (fun m x => m.addLoadedFile x.1 x.2.1 x.2.2) m
    loaded.nameMap = (l.map fun x => (x.1, x.2.1)).foldl (fun s x => s.insert x.1 x.2) m.nameMap ∧
      loaded.fileMap = (l.map Prod.snd).foldl (fun s x => s.insert x.1 x.2) m.fileMap ∧
      loaded.dirMap = m.dirMap := by
  induction l generalizing m with
  | nil => exact ⟨rfl, rfl, rfl⟩
  | cons x l ih => exact ih (m.addLoadedFile x.1 x.2.1 x.2.2)

theorem getFileInode_loadJSON (p : Bytes) :
    (loadJSON value o files dirs filenameIndex (new : InodeMap H)).getFileInode p =
      ((filenameIndex.lookup p).bind fun k => (files.lookup k).bind value).getD 0 := by
  obtain ⟨hname, hfile, -⟩ := maps_addLoadedDirs
    ((jsonFiles value o files filenameIndex).foldl (fun m x => m.addLoadedFile x.1 x.2.1 x.2.2)
      (new : InodeMap H)) (jsonDirs value o dirs)
  obtain ⟨hname', hfile', -⟩ := maps_addLoadedFiles (new : InodeMap H)
    (jsonFiles value o files filenameIndex)
  unfold getFileInode loadJSON
  rw [hname, hname', hfile, hfile']
  cases hval : (filenameIndex.lookup p).bind fun k => (files.lookup k).bind value with
  | none =>
    rw [Sharded.lookupInsert.get_of_absent]
    · rfl
    · intro k hk
      obtain ⟨⟨a, b, v⟩, hx, heq⟩ := List.mem_map.mp hk
      obtain ⟨rfl, rfl⟩ := Prod.mk.inj heq
      obtain ⟨hidx, hv⟩ := mem_jsonFiles.mp hx
      simp [hidx, hv] at hval
  | some v =>
    obtain ⟨k, hidx, hv⟩ := Option.bind_eq_some_iff.mp hval
    have hmem : (p, k, v) ∈ jsonFiles value o files filenameIndex := mem_jsonFiles.mpr ⟨hidx, hv⟩
    rw [Sharded.lookupInsert.get_of_unique (v := k) (List.mem_map.mpr ⟨_, hmem, rfl⟩)]
    · dsimp only
      rw [Sharded.lookupInsert.get_of_unique (v := v) (List.mem_map.mpr ⟨_, hmem, rfl⟩)]
      intro w hw
      obtain ⟨⟨a, b, c⟩, hx, heq⟩ := List.mem_map.mp hw
      obtain ⟨rfl, rfl⟩ := Prod.mk.inj heq
      exact Option.some.inj ((mem_jsonFiles.mp hx).2.symm.trans hv)
    · intro k' hk'
      obtain ⟨⟨a, b, c⟩, hx, heq⟩ := List.mem_map.mp hk'
      obtain ⟨rfl, rfl⟩ := Prod.mk.inj heq
      exact Option.some.inj ((mem_jsonFiles.mp hx).1.symm.trans hidx)

theorem dirLookup_loadJSON {p : Bytes} (hp : p ≠ ascii "/") :
    dirLookup H (loadJSON value o files dirs filenameIndex (new : InodeMap H)).dirMap p =
      (dirs.lookup p).bind value := by
  obtain ⟨-, -, hdir⟩ := maps_addLoadedDirs
    ((jsonFiles value o files filenameIndex).foldl (fun m x => m.addLoadedFile x.1 x.2.1 x.2.2)
      (new : InodeMap H)) (jsonDirs value o dirs)
  obtain ⟨-, -, hdir'⟩ := maps_addLoadedFiles (new : InodeMap H)
    (jsonFiles value o files filenameIndex)
  unfold loadJSON
  rw [hdir, hdir']
  exact dirLookupInsert.get_of_graph (fun _ _ => mem_jsonDirs) (dirLookup_new hp)

end JSON

end InodeMap

end GoStream.Inodes
