import GoStream.Inodes.Map

/-!
# Stubs and the inode map
-/

namespace GoStream.Inodes

open Foundations

variable {H : Hashing}

def isHex (c : UInt8) : Bool := isDecimal c || (97 ≤ c && c ≤ 102) || (65 ≤ c && c ≤ 70)

def hashPattern (s : Bytes) : Option Bytes :=
  let digits := (s.drop 5).take 40
  if (ascii "link=").isPrefixOf s ∧ digits.length = 40 ∧ digits.all isHex then some digits else none

def indexPattern (s : Bytes) : Option Bytes :=
  let digits := (s.drop 6).takeWhile isDecimal
  if (ascii "index=").isPrefixOf s ∧ digits ≠ [] then some digits else none

def Hashing.extractHashAndIndex (H : Hashing) (url : Bytes) : Bytes × Int64 :=
  (((firstMatch hashPattern url).map H.toLower).getD [],
    ((firstMatch indexPattern url).bind parseInt).getD 0)

def Hashing.named (H : Hashing) (url : Bytes) : Option (Bytes × Int64) :=
  if (H.extractHashAndIndex url).1 = [] then none else some (H.extractHashAndIndex url)

namespace InodeMap

variable (m : InodeMap H)

def getFileInodeFromMap (fullPath : Bytes) : UInt64 :=
  let filename := filepathBase fullPath
  if m.getFileInode fullPath ≠ 0 then m.getFileInode fullPath
  else if m.getFileInodeByName filename ≠ 0 then m.getFileInodeByName filename
  else H.xxhash filename &&& inodeFileMask

def addFileToInodeMap (fullPath url : Bytes) : InodeMap H :=
  match H.named url with
  | none => m
  | some (hash, index) => (m.addFile fullPath hash index).2

end InodeMap

def Hashing.stubKey (H : Hashing) (url : Bytes) : Option Bytes :=
  (H.named url).map fun x => H.fileKey x.1 x.2

theorem named_ne_nil {url h : Bytes} {i : Int64} (hn : H.named url = some (h, i)) : h ≠ [] := by
  unfold Hashing.named at hn
  split_ifs at hn with hempty
  rw [Option.some.inj hn] at hempty
  exact hempty

theorem toLower_of_named (hlower : ∀ b, H.toLower (H.toLower b) = H.toLower b) {url h : Bytes}
    {i : Int64} (hn : H.named url = some (h, i)) : H.toLower h = h := by
  have hh := named_ne_nil hn
  unfold Hashing.named at hn
  split_ifs at hn
  have heq : (H.extractHashAndIndex url).1 = h := by rw [Option.some.inj hn]
  unfold Hashing.extractHashAndIndex at heq
  cases hmatch : firstMatch hashPattern url with
  | none =>
    rw [hmatch] at heq
    exact absurd heq.symm hh
  | some digits =>
    rw [hmatch] at heq
    rw [← heq]
    exact hlower digits

theorem toLower_standard (b : Bytes) :
    Hashing.standard.toLower (Hashing.standard.toLower b) = Hashing.standard.toLower b := by
  simp only [Hashing.standard, List.map_map]
  refine List.map_congr_left fun c _ => ?_
  simp only [Function.comp_apply]
  by_cases hup : 65 ≤ c ∧ c ≤ 90
  · -- the lower-case letters come after the upper-case ones
    have hlow : ¬ (65 ≤ c + 32 ∧ c + 32 ≤ 90) := by
      simp only [UInt8.le_iff_toNat_le, UInt8.toNat_add] at hup ⊢
      simp at hup ⊢
      omega
    rw [if_pos hup, if_neg hlow]
  · rw [if_neg hup, if_neg hup]

theorem fileKey_inj {h h' : Bytes} {i i' : Int64} (heq : H.fileKey h i = H.fileKey h' i') :
    H.toLower h = H.toLower h' ∧ i = i' := by
  have hsep : ∀ j : Int64, 58 ∉ itoa j.toInt := fun j hmem => absurd (le_of_mem_itoa hmem) (by decide)
  simp only [Hashing.fileKey, List.append_assoc] at heq
  have hhash : H.toLower h = H.toLower h' := append_separator_inj (hsep i) (hsep i') heq
  rw [hhash] at heq
  have htail := List.append_cancel_left (List.append_cancel_left heq)
  have hidx := congrArg parseInt htail
  rw [parseInt_itoa, parseInt_itoa] at hidx
  exact ⟨hhash, Option.some.inj hidx⟩

end GoStream.Inodes
