import GoStream.Foundations.Maps
import GoStream.Foundations.XXHash

/-!
# The inode map
-/

namespace GoStream.Inodes

open Foundations

structure Hashing where
  xxhash : Bytes → UInt64
  toLower : Bytes → Bytes

def inodeFileMask : UInt64 := 0x7FFFFFFFFFFFFFFF

def inodeDirMask : UInt64 := 0x8000000000000000

def inodeRoot : UInt64 := 1

namespace Hashing

def standard : Hashing where
  xxhash := XXHash.sum64
  toLower := fun s => s.map fun c => if 65 ≤ c ∧ c ≤ 90 then c + 32 else c

variable (H : Hashing)

def getShard (key : Bytes) : Fin 32 :=
  ⟨(H.xxhash key &&& 31).toNat, by
    rw [UInt64.toNat_and]
    exact Nat.lt_succ_of_le Nat.and_le_right⟩

def fileKey (infohash : Bytes) (index : Int64) : Bytes :=
  H.toLower infohash ++ ascii ":" ++ itoa index.toInt

def generateFileInode (infohash : Bytes) (index : Int64) : UInt64 :=
  H.xxhash (H.fileKey infohash index) &&& inodeFileMask

def generateDirInode (relativePath : Bytes) : UInt64 :=
  if relativePath = ascii "/" ∨ relativePath = [] then inodeRoot
  else H.xxhash relativePath ||| inodeDirMask

end Hashing

def filepathBase (p : Bytes) : Bytes :=
  if p = [] then ascii "."
  else
    let base := afterLast 47 (p.reverse.dropWhile (· = 47)).reverse
    if base = [] then ascii "/" else base

structure InodeMap (H : Hashing) where
  fileMap : Sharded H.getShard UInt64
  dirMap : Fin 32 → Dict Bytes UInt64
  nameMap : Sharded H.getShard Bytes
  fastFileMap : Sharded H.getShard UInt64
  dirty : Bool

variable {H : Hashing}

namespace InodeMap

def new : InodeMap H where
  fileMap := .empty
  dirMap := fun i => if i.val = 0 then AList.singleton (ascii "/") inodeRoot else ∅
  nameMap := .empty
  fastFileMap := .empty
  dirty := false

variable (m : InodeMap H)

def addFile (fullPath infohash : Bytes) (index : Int64) : UInt64 × InodeMap H :=
  if infohash = [] then (0, m)
  else
    let key := H.fileKey infohash index
    let inode := H.generateFileInode infohash index
    if m.nameMap.lookup fullPath = some key then (inode, m)
    else
      (inode,
        { m with
          nameMap := m.nameMap.insert fullPath key
          fileMap := m.fileMap.insert key inode
          fastFileMap := m.fastFileMap.insert (filepathBase fullPath) inode
          dirty := true })

def addDir (relativePath : Bytes) : UInt64 × InodeMap H :=
  let inode := H.generateDirInode relativePath
  let i := H.getShard relativePath
  if relativePath ∈ m.dirMap i then (inode, m)
  else
    (inode,
      { m with
        dirMap := Function.update m.dirMap i (AList.insert relativePath inode (m.dirMap i))
        dirty := true })

def getFileInode (fullPath : Bytes) : UInt64 :=
  match m.nameMap.lookup fullPath with
  | none => 0
  | some key => (m.fileMap.lookup key).getD 0

def getFileInodeByName (filename : Bytes) : UInt64 := (m.fastFileMap.lookup filename).getD 0

def getDirInode (relativePath : Bytes) : UInt64 × InodeMap H :=
  if relativePath = ascii "/" ∨ relativePath = [] then (inodeRoot, m)
  else
    match (m.dirMap (H.getShard relativePath)).lookup relativePath with
    | some inode => (inode, m)
    | none => m.addDir relativePath

def removeFile (fullPath : Bytes) : InodeMap H :=
  match m.nameMap.lookup fullPath with
  | none => m
  | some key =>
    let targetInode := (m.fileMap.lookup key).getD 0
    let filename := filepathBase fullPath
    { m with
      nameMap := m.nameMap.erase fullPath
      fileMap := m.fileMap.erase key
      fastFileMap :=
        if m.fastFileMap.lookup filename = some targetInode then m.fastFileMap.erase filename
        else m.fastFileMap
      dirty := true }

def toRemove (order : MapOrder) (foundFiles : Bytes → Bool) : List Bytes :=
  ((m.nameMap.items order).map Prod.fst).filter fun fullPath => !foundFiles fullPath

def pruneMissing (order : MapOrder) (foundFiles : Bytes → Bool) : ℕ × InodeMap H :=
  let removed := (m.toRemove order foundFiles).foldl removeFile m
  ((m.toRemove order foundFiles).length,
    if (m.toRemove order foundFiles).length > 0 then { removed with dirty := true } else removed)

variable {m}

theorem addFile_of_hash_empty (p : Bytes) (i : Int64) : (m.addFile p [] i).2 = m := by
  simp [addFile]

theorem lookup_nameMap_addFile {h : Bytes} (hh : h ≠ []) (p q : Bytes) (i : Int64) :
    (m.addFile p h i).2.nameMap.lookup q =
      if q = p then some (H.fileKey h i) else m.nameMap.lookup q := by
  unfold addFile
  rw [if_neg hh]
  dsimp only
  split_ifs with hsame hq hq
  · rw [hq, hsame]
  · rfl
  · simp [hq]
  · simp [hq]

theorem lookup_fileMap_addFile {h : Bytes} (hh : h ≠ []) (p k : Bytes) (i : Int64) :
    (m.addFile p h i).2.fileMap.lookup k =
      if m.nameMap.lookup p ≠ some (H.fileKey h i) ∧ k = H.fileKey h i
      then some (H.generateFileInode h i) else m.fileMap.lookup k := by
  unfold addFile
  rw [if_neg hh]
  dsimp only
  by_cases hsame : m.nameMap.lookup p = some (H.fileKey h i)
  · simp [hsame]
  · simp [hsame]

theorem lookup_nameMap_removeFile (p q : Bytes) :
    (m.removeFile p).nameMap.lookup q = if q = p then none else m.nameMap.lookup q := by
  unfold removeFile
  split
  · next hnone =>
    split_ifs with hq
    · rw [hq, hnone]
    · rfl
  · simp

theorem lookup_fileMap_removeFile (p k : Bytes) :
    (m.removeFile p).fileMap.lookup k =
      if m.nameMap.lookup p = some k then none else m.fileMap.lookup k := by
  unfold removeFile
  split
  · next hnone => simp [hnone]
  · next key hkey => simp [hkey, eq_comm]

theorem maps_addDir (p : Bytes) : (m.addDir p).2.nameMap = m.nameMap ∧
    (m.addDir p).2.fileMap = m.fileMap := by
  unfold addDir
  dsimp only
  split_ifs <;> exact ⟨rfl, rfl⟩

theorem maps_getDirInode (p : Bytes) : (m.getDirInode p).2.nameMap = m.nameMap ∧
    (m.getDirInode p).2.fileMap = m.fileMap := by
  unfold getDirInode
  split_ifs
  · exact ⟨rfl, rfl⟩
  · split
    · exact ⟨rfl, rfl⟩
    · exact maps_addDir p

theorem dirMap_removeFile (p : Bytes) : (m.removeFile p).dirMap = m.dirMap := by
  unfold removeFile
  split <;> rfl

theorem lookup_nameMap_removeFiles (l : List Bytes) (q : Bytes) :
    (l.foldl removeFile m).nameMap.lookup q = if q ∈ l then none else m.nameMap.lookup q := by
  induction l generalizing m with
  | nil => simp
  | cons p l ih =>
    rw [List.foldl_cons, ih, lookup_nameMap_removeFile]
    by_cases hq : q = p
    · simp [hq]
    · simp [hq]

theorem lookup_fileMap_removeFiles (l : List Bytes) (k : Bytes)
    (hk : ∀ p ∈ l, m.nameMap.lookup p ≠ some k) :
    (l.foldl removeFile m).fileMap.lookup k = m.fileMap.lookup k := by
  induction l generalizing m with
  | nil => rfl
  | cons p l ih =>
    rw [List.foldl_cons, ih, lookup_fileMap_removeFile, if_neg (hk p (by simp))]
    intro q hq
    rw [lookup_nameMap_removeFile]
    split_ifs
    · simp
    · exact hk q (by simp [hq])

theorem lookup_fileMap_of_removeFiles {l : List Bytes} {k : Bytes} {v : UInt64}
    (h : (l.foldl removeFile m).fileMap.lookup k = some v) : m.fileMap.lookup k = some v := by
  induction l generalizing m with
  | nil => exact h
  | cons p l ih =>
    have hp := ih h
    rw [lookup_fileMap_removeFile] at hp
    split_ifs at hp
    exact hp

theorem mem_toRemove {order : MapOrder} {found : Bytes → Bool} {p : Bytes} :
    p ∈ m.toRemove order found ↔ (∃ k, m.nameMap.lookup p = some k) ∧ found p = false := by
  simp only [toRemove, List.mem_filter, List.mem_map, Prod.exists, Sharded.mem_items,
    exists_and_right, exists_eq_right, Bool.not_eq_true']

theorem maps_pruneMissing (order : MapOrder) (found : Bytes → Bool) :
    (m.pruneMissing order found).2.nameMap = ((m.toRemove order found).foldl removeFile m).nameMap ∧
      (m.pruneMissing order found).2.fileMap =
        ((m.toRemove order found).foldl removeFile m).fileMap := by
  unfold pruneMissing
  dsimp only
  split_ifs <;> exact ⟨rfl, rfl⟩

theorem lookup_nameMap_pruneMissing (order : MapOrder) (found : Bytes → Bool) (q : Bytes) :
    (m.pruneMissing order found).2.nameMap.lookup q =
      if found q then m.nameMap.lookup q else none := by
  rw [(maps_pruneMissing order found).1, lookup_nameMap_removeFiles]
  split_ifs with hmem hfound hfound
  · simp [(mem_toRemove.mp hmem).2] at hfound
  · rfl
  · rfl
  · -- a path that is not collected and was not found is not in the map
    by_contra hne
    obtain ⟨k, hk⟩ := Option.ne_none_iff_exists'.mp hne
    exact hmem (mem_toRemove.mpr ⟨⟨k, hk⟩, by simpa using hfound⟩)

theorem lookup_fileMap_pruneMissing (order : MapOrder) (found : Bytes → Bool) {k : Bytes}
    (hk : ∀ p, found p = false → m.nameMap.lookup p ≠ some k) :
    (m.pruneMissing order found).2.fileMap.lookup k = m.fileMap.lookup k := by
  rw [(maps_pruneMissing order found).2, lookup_fileMap_removeFiles]
  exact fun p hp => hk p (mem_toRemove.mp hp).2

end InodeMap

end GoStream.Inodes
