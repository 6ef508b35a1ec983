import GoStream.Foundations.Run
import GoStream.Inodes.Map

/-!
# Referential integrity of the inode map
-/

namespace GoStream.Inodes.Integrity

open Foundations

variable {H : Hashing}

inductive Op
  | addFile (fullPath infohash : Bytes) (index : Int64)
  | removeFile (fullPath : Bytes)
  | pruneMissing (order : MapOrder) (foundFiles : Bytes → Bool)

structure State (H : Hashing) where
  map : InodeMap H
  added : Bytes → Option (Bytes × Int64)

def State.init : State H := ⟨.new, fun _ => none⟩

def step (s : State H) : Op → State H
  | .addFile p h i =>
    { map := (s.map.addFile p h i).2
      added := Function.update s.added p (if h = [] then none else some (h, i)) }
  | .removeFile p =>
    { map := s.map.removeFile p
      added := Function.update s.added p none }
  | .pruneMissing order found =>
    { map := (s.map.pruneMissing order found).2
      added := fun p => if found p then s.added p else none }

def StableInodes (s : State H) : Prop :=
  ∀ p h i, s.added p = some (h, i) → s.map.getFileInode p = H.generateFileInode h i

def unshared (s : State H) : Op → Prop
  | .addFile _ _ _ => True
  | .removeFile p => ∀ q, q ≠ p → ∀ k, s.map.nameMap.lookup p = some k →
      s.map.nameMap.lookup q ≠ some k
  | .pruneMissing _ found => ∀ p q, found p = false → found q = true →
      ∀ k, s.map.nameMap.lookup p = some k → s.map.nameMap.lookup q ≠ some k

def inodeOfKey (H : Hashing) (k : Bytes) : UInt64 := H.xxhash k &&& inodeFileMask

structure Inv (s : State H) : Prop where
  key_of_added : ∀ p h i, s.added p = some (h, i) → s.map.nameMap.lookup p = some (H.fileKey h i)
  inode_of_key : ∀ p k, s.map.nameMap.lookup p = some k →
    s.map.fileMap.lookup k = some (inodeOfKey H k)

theorem inv_init : Inv (State.init : State H) where
  key_of_added := fun p h i hadded => by simp [State.init] at hadded
  inode_of_key := fun p k hk => by simp [State.init, InodeMap.new] at hk

theorem inv_addFile {s : State H} (hs : Inv s) (p h : Bytes) (i : Int64) :
    Inv (step s (.addFile p h i)) := by
  by_cases hh : h = []
  · subst hh
    simp only [step, InodeMap.addFile_of_hash_empty, if_pos]
    refine ⟨fun q h' i' hq => ?_, hs.inode_of_key⟩
    by_cases hqp : q = p
    · simp [hqp] at hq
    · exact hs.key_of_added q h' i' (by simpa [hqp] using hq)
  · simp only [step, if_neg hh]
    constructor
    · intro q h' i' hq
      rw [InodeMap.lookup_nameMap_addFile hh]
      by_cases hqp : q = p
      · simp only [hqp, Function.update_self, Option.some.injEq, Prod.mk.injEq] at hq
        rw [if_pos hqp, hq.1, hq.2]
      · rw [if_neg hqp]
        exact hs.key_of_added q h' i' (by simpa [hqp] using hq)
    · intro q k hq
      rw [InodeMap.lookup_nameMap_addFile hh] at hq
      rw [InodeMap.lookup_fileMap_addFile hh]
      split_ifs with hnew
      · rw [hnew.2]
        rfl
      · -- the key was there before: it is that of `q`, or `p` already had it
        split_ifs at hq with hqp
        · obtain rfl := Option.some.inj hq
          exact hs.inode_of_key p _ (by simpa using hnew)
        · exact hs.inode_of_key q k hq

theorem inv_removeFile {s : State H} (hs : Inv s) (p : Bytes) (hok : unshared s (.removeFile p)) :
    Inv (step s (.removeFile p)) := by
  constructor
  · intro q h i hq
    by_cases hqp : q = p
    · simp [step, hqp] at hq
    · simp only [step, InodeMap.lookup_nameMap_removeFile, if_neg hqp]
      exact hs.key_of_added q h i (by simpa [step, hqp] using hq)
  · intro q k hq
    simp only [step, InodeMap.lookup_nameMap_removeFile] at hq
    split_ifs at hq with hqp
    simp only [step, InodeMap.lookup_fileMap_removeFile]
    rw [if_neg fun hp => hok q hqp k hp hq]
    exact hs.inode_of_key q k hq

theorem inv_pruneMissing {s : State H} (hs : Inv s) (order : MapOrder) (found : Bytes → Bool)
    (hok : unshared s (.pruneMissing order found)) : Inv (step s (.pruneMissing order found)) := by
  constructor
  · intro q h i hq
    simp only [step] at hq
    split_ifs at hq with hfound
    simp only [step, InodeMap.lookup_nameMap_pruneMissing, if_pos hfound]
    exact hs.key_of_added q h i hq
  · intro q k hq
    simp only [step, InodeMap.lookup_nameMap_pruneMissing] at hq
    split_ifs at hq with hfound
    simp only [step]
    rw [InodeMap.lookup_fileMap_pruneMissing]
    · exact hs.inode_of_key q k hq
    · exact fun p hp hk => hok p q hp hfound k hk hq

theorem inv_step (s : State H) (op : Op) (hs : Inv s) (hok : unshared s op) : Inv (step s op) := by
  cases op with
  | addFile p h i => exact inv_addFile hs p h i
  | removeFile p => exact inv_removeFile hs p hok
  | pruneMissing order found => exact inv_pruneMissing hs order found hok

theorem stableInodes_of_inv (s : State H) (hs : Inv s) : StableInodes s := by
  intro p h i hadded
  have hkey := hs.key_of_added p h i hadded
  simp only [InodeMap.getFileInode, hkey, hs.inode_of_key p _ hkey]
  rfl

/-- A path that was added has its stable inode. -/
theorem inodes_stable (ops : List Op) (h : Meets unshared step (State.init : State H) ops) :
    ∀ pre, pre <+: ops → StableInodes (run step (State.init : State H) pre) :=
  Meets.good inv_step stableInodes_of_inv ops inv_init h

theorem inodes_stable_two_files :
    StableInodes (run step (State.init : State .standard)
      [.addFile (ascii "/tv/a.mkv") (ascii "ab") 0, .addFile (ascii "/tv/b.mkv") (ascii "ab") 1,
        .removeFile (ascii "/tv/b.mkv")]) := by
  apply inodes_stable _ ?_ _ List.prefix_rfl
  refine ⟨trivial, trivial, ?_, trivial⟩
  intro q hq k hb ha
  simp only [step] at hb ha
  rw [InodeMap.lookup_nameMap_addFile (by decide), if_pos rfl] at hb
  rw [InodeMap.lookup_nameMap_addFile (by decide), if_neg hq,
    InodeMap.lookup_nameMap_addFile (by decide)] at ha
  split_ifs at ha
  · exact absurd (Option.some.inj (hb.trans ha.symm)) (by decide)
  · simp [State.init, InodeMap.new] at ha

theorem inode_lost_with_other_path :
    ¬ StableInodes (run step (State.init : State .standard)
      [.addFile (ascii "/tv/a.mkv") (ascii "ab") 0, .addFile (ascii "/tv/b.mkv") (ascii "ab") 0,
        .removeFile (ascii "/tv/b.mkv"), .addFile (ascii "/tv/a.mkv") (ascii "ab") 0]) := by
  intro h
  have hlost := h (ascii "/tv/a.mkv") (ascii "ab") 0 (by decide)
  revert hlost
  decide +kernel

end GoStream.Inodes.Integrity
