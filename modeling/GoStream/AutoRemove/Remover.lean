import GoStream.Inodes.Stubs
import GoStream.MetaCache.Reads

/-!
# Removing the torrent of a deleted stub
-/

namespace GoStream.AutoRemove

open Foundations Inodes MetaCache

def isLowerHex (c : UInt8) : Bool := isDecimal c || (97 ≤ c && c ≤ 102)

structure InfoHash where
  digits : Bytes
  length_eq : digits.length = 40
  hex : digits.all isLowerHex = true
  deriving DecidableEq

def toLower (s : Bytes) : Bytes := Hashing.standard.toLower s

inductive Content
  | json (url : Option Bytes)
  | lines (text : Bytes)
  deriving DecidableEq

def Content.urlText : Content → Option Bytes
  | .json url => url
  | .lines text =>
    let line := text.takeWhile (· ≠ 10)
    if text = [] ∨ 64 * 1024 ≤ line.length then none
    else some (if line.getLast? = some 13 then line.dropLast else line)

def Content.reference (c : Content) : Option Bytes :=
  (c.urlText.bind Hashing.standard.named).map Prod.fst

def hashPattern : Bytes → Option Bytes := runOf 40 isLowerHex

def suffixPattern (filename : Bytes) : Option Bytes :=
  let tail := filename.drop (filename.length - 13)
  let tag := (tail.drop 1).take 8
  if tail.length = 13 ∧ tail.head? = some 95 ∧ tag.all isLowerHex ∧ tail.drop 9 = ascii ".mkv"
  then some tag else none

def findFullHashBySuffix (torrents : List InfoHash) (suffix : Bytes) : Bytes :=
  ((torrents.find? fun t => (toLower suffix).isSuffixOf (toLower t.digits)).map (·.digits)).getD []

def extractHashFromFile (file : Option Content) : Bytes :=
  match file.bind Content.urlText with
  | none => []
  | some text => toLower ((firstMatch hashPattern text).getD [])

def filepathDir (p : Bytes) : Bytes :=
  if 47 ∈ p then
    let dir := p.take (p.length - (afterLast 47 p).length - 1)
    if dir = [] then ascii "/" else dir
  else ascii "."

def deriveTitleFromPath (path : Bytes) : Bytes :=
  match ((filepathDir path).splitOn 47).reverse with
  | lastDir :: parent :: _ => if (ascii "Season.").isPrefixOf lastDir then parent else lastDir
  | _ => filepathBase path

inductive Action
  | addToBlacklist (hash title : Bytes)
  | removeTorrent (hash : Bytes)
  deriving DecidableEq

def fullHash (torrents : List InfoHash) (file : Option Content) (fullPath : Bytes) : Bytes :=
  let found :=
    match suffixPattern (filepathBase fullPath) with
    | some suffix => findFullHashBySuffix torrents suffix
    | none => []
  if found = [] then extractHashFromFile file else found

def removeTorrentFromFile (torrents : List InfoHash) (file : Option Content) (fullPath : Bytes) :
    Except Bytes Bool × List Action :=
  let hash := fullHash torrents file fullPath
  if hash.length ≠ 40 then
    (.error (ascii "invalid or missing hash (" ++ hash ++ ascii ") for: " ++ filepathBase fullPath), [])
  else
    (.ok true, [.addToBlacklist hash (deriveTitleFromPath fullPath), .removeTorrent hash])

structure Blacklist where
  hashes : Dict Bytes Bytes
  titles : List Bytes

def yearPattern (s : Bytes) : Option Bytes :=
  let digits := if s.head? = some 40 then s.tail else s
  if (runOf 4 isDecimal digits).isSome then
    let rest := digits.drop 4
    some (if rest.head? = some 41 then rest.tail else rest)
  else none

def removeYears : ℕ → Bytes → Bytes
  | 0, s => s
  | _ + 1, [] => []
  | n + 1, c :: s =>
    match yearPattern (c :: s) with
    | some rest => removeYears n rest
    | none => c :: removeYears n s

def cleanTitle (H : Hashing) (title : Bytes) : Bytes :=
  let spaced := (H.toLower title).map fun c => if c = 95 ∨ c = 46 then 32 else c
  (removeYears spaced.length spaced).filter fun c => (97 ≤ c && c ≤ 122) || isDecimal c

def Blacklist.add (H : Hashing) (bl : Blacklist) (hash title : Bytes) : Blacklist where
  hashes := if hash ∈ bl.hashes then bl.hashes else AList.insert hash title bl.hashes
  titles :=
    if title = [] ∨ cleanTitle H title = [] ∨ bl.titles.contains (cleanTitle H title) then bl.titles
    else bl.titles ++ [cleanTitle H title]

def Takes (torrents : List InfoHash) (file : Option Content) (p h : Bytes) : Prop :=
  Action.removeTorrent h ∈ (removeTorrentFromFile torrents file p).2

instance (torrents : List InfoHash) (file : Option Content) (p h : Bytes) :
    Decidable (Takes torrents file p h) :=
  inferInstanceAs (Decidable (_ ∈ _))

def FirstListed (torrents : List InfoHash) (tag : Bytes) (t : InfoHash) : Prop :=
  ∃ earlier later, torrents = earlier ++ t :: later ∧ tag <:+ t.digits ∧
    ∀ u ∈ earlier, ¬ tag <:+ u.digits

def Unlisted (torrents : List InfoHash) (p : Bytes) : Prop :=
  ∀ tag, suffixPattern (filepathBase p) = some tag → ∀ t ∈ torrents, ¬ tag <:+ t.digits

variable {torrents : List InfoHash} {file : Option Content} {p tag h : Bytes}

theorem toLower_of_hex {s : Bytes} (hs : s.all isLowerHex = true) : toLower s = s := by
  have hid : ∀ c ∈ s, (if 65 ≤ c ∧ c ≤ 90 then c + 32 else c) = c := by
    intro c hc
    have hex := List.all_eq_true.mp hs c hc
    simp only [isLowerHex, isDecimal, Bool.or_eq_true, Bool.and_eq_true, decide_eq_true_eq,
      UInt8.le_iff_toNat_le] at hex
    rw [if_neg]
    simp only [UInt8.le_iff_toNat_le]
    simp at hex ⊢
    omega
  exact (List.map_congr_left hid).trans (List.map_id' s)

theorem firstListed_iff {t : InfoHash} : FirstListed torrents tag t ↔
    torrents.find? (fun t => tag.isSuffixOf t.digits) = some t := by
  simp only [FirstListed, List.find?_eq_some_iff_append, List.isSuffixOf_iff_suffix,
    Bool.not_eq_true', ← Bool.not_eq_true]
  constructor
  · rintro ⟨earlier, later, heq, htag, hno⟩
    exact ⟨htag, earlier, later, heq, hno⟩
  · rintro ⟨htag, earlier, later, heq, hno⟩
    exact ⟨earlier, later, heq, htag, hno⟩

theorem FirstListed.unique {t u : InfoHash} (ht : FirstListed torrents tag t)
    (hu : FirstListed torrents tag u) : t = u :=
  Option.some.inj ((firstListed_iff.mp ht).symm.trans (firstListed_iff.mp hu))

theorem hex_of_suffixPattern (htag : suffixPattern p = some tag) : tag.all isLowerHex = true := by
  unfold suffixPattern at htag
  dsimp only at htag
  split_ifs at htag with hpat
  obtain rfl := Option.some.inj htag
  exact hpat.2.2.1

theorem findFullHashBySuffix_eq (htag : tag.all isLowerHex = true) :
    findFullHashBySuffix torrents tag =
      ((torrents.find? fun t => tag.isSuffixOf t.digits).map (·.digits)).getD [] := by
  simp only [findFullHashBySuffix, toLower_of_hex htag, toLower_of_hex (InfoHash.hex _)]

theorem InfoHash.digits_ne_nil (t : InfoHash) : t.digits ≠ [] := by
  intro hnil
  have hlen := t.length_eq
  rw [hnil] at hlen
  cases hlen

theorem fullHash_of_listed {t : InfoHash} (htag : suffixPattern (filepathBase p) = some tag)
    (ht : FirstListed torrents tag t) : fullHash torrents file p = t.digits := by
  have hfound : findFullHashBySuffix torrents tag = t.digits := by
    rw [findFullHashBySuffix_eq (hex_of_suffixPattern htag), firstListed_iff.mp ht]
    rfl
  simp only [fullHash, htag, hfound, if_neg t.digits_ne_nil]

theorem fullHash_of_unlisted (hun : Unlisted torrents p) :
    fullHash torrents file p = extractHashFromFile file := by
  unfold fullHash
  cases htag : suffixPattern (filepathBase p) with
  | none => rfl
  | some tag =>
    have hnone : torrents.find? (fun t => tag.isSuffixOf t.digits) = none := by
      simpa [List.find?_eq_none, List.isSuffixOf_iff_suffix] using hun tag htag
    simp only [findFullHashBySuffix_eq (hex_of_suffixPattern htag), hnone, Option.map_none,
      Option.getD_none, if_true]

theorem listed_or_unlisted (torrents : List InfoHash) (p : Bytes) :
    (∃ tag t, suffixPattern (filepathBase p) = some tag ∧ FirstListed torrents tag t) ∨
      Unlisted torrents p := by
  cases htag : suffixPattern (filepathBase p) with
  | none => exact .inr fun tag h => by rw [htag] at h; cases h
  | some tag =>
    cases hfind : torrents.find? fun t => tag.isSuffixOf t.digits with
    | some t => exact .inl ⟨tag, t, rfl, firstListed_iff.mpr hfind⟩
    | none =>
      refine .inr fun tag' h => ?_
      obtain rfl := Option.some.inj (htag.symm.trans h)
      simpa [List.find?_eq_none, List.isSuffixOf_iff_suffix] using hfind

theorem not_unlisted {t : InfoHash} (htag : suffixPattern (filepathBase p) = some tag)
    (ht : FirstListed torrents tag t) : ¬ Unlisted torrents p := by
  obtain ⟨earlier, later, heq, hsuffix, -⟩ := ht
  exact fun hun => hun tag htag t (by simp [heq]) hsuffix

theorem takes_iff_fullHash :
    Takes torrents file p h ↔ fullHash torrents file p = h ∧ h.length = 40 := by
  unfold Takes removeTorrentFromFile
  dsimp only
  split_ifs with hlen
  · simp only [List.not_mem_nil, false_iff]
    rintro ⟨rfl, hlen'⟩
    exact hlen hlen'
  · rw [not_not] at hlen
    simp only [List.mem_cons, reduceCtorEq, Action.removeTorrent.injEq, List.not_mem_nil, or_false,
      false_or]
    constructor
    · rintro rfl
      exact ⟨rfl, hlen⟩
    · exact fun heq => heq.1.symm

theorem hashPattern_spec {s : Bytes} (hs : firstMatch hashPattern s = some h) :
    h.length = 40 ∧ h.all isLowerHex = true :=
  of_firstMatch (fun _ _ hr => runOf_eq_some hr) hs

theorem extractHashFromFile_iff : extractHashFromFile file = h ∧ h.length = 40 ↔
    ∃ c text, file = some c ∧ c.urlText = some text ∧ firstMatch hashPattern text = some h := by
  unfold extractHashFromFile
  constructor
  · rintro ⟨heq, hlen⟩
    split at heq
    · rw [← heq] at hlen
      cases hlen
    · next text htext =>
      obtain ⟨c, hc, hurl⟩ := Option.bind_eq_some_iff.mp htext
      refine ⟨c, text, hc, hurl, ?_⟩
      cases hmatch : firstMatch hashPattern text with
      | none =>
        rw [hmatch] at heq
        rw [← heq] at hlen
        cases hlen
      | some r =>
        rw [hmatch, Option.getD_some, toLower_of_hex (hashPattern_spec hmatch).2] at heq
        rw [heq]
  · rintro ⟨c, text, rfl, hurl, hmatch⟩
    have hspec := hashPattern_spec hmatch
    simp only [Option.bind_some, hurl, hmatch, Option.getD_some]
    exact ⟨toLower_of_hex hspec.2, hspec.1⟩

theorem takes_iff : Takes torrents file p h ↔
    (∃ tag t, suffixPattern (filepathBase p) = some tag ∧ FirstListed torrents tag t ∧ t.digits = h) ∨
      (Unlisted torrents p ∧ ∃ c text, file = some c ∧ c.urlText = some text ∧
        firstMatch hashPattern text = some h) := by
  rw [takes_iff_fullHash, ← extractHashFromFile_iff]
  rcases listed_or_unlisted torrents p with ⟨tag, t, htag, ht⟩ | hun
  · rw [fullHash_of_listed htag ht]
    constructor
    · exact fun heq => .inl ⟨tag, t, htag, ht, heq.1⟩
    · rintro (⟨tag', t', htag', ht', rfl⟩ | ⟨hun, -⟩)
      · obtain rfl := Option.some.inj (htag.symm.trans htag')
        rw [ht.unique ht']
        exact ⟨rfl, t'.length_eq⟩
      · exact absurd hun (not_unlisted htag ht)
  · rw [fullHash_of_unlisted hun]
    constructor
    · exact fun heq => .inr ⟨hun, heq⟩
    · rintro (⟨tag', t', htag', ht', -⟩ | ⟨-, heq⟩)
      · exact absurd hun (not_unlisted htag' ht')
      · exact heq

end GoStream.AutoRemove
