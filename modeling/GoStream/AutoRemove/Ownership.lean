import GoStream.AutoRemove.Remover
import GoStream.Foundations.Run

/-!
# Whose torrent is removed
-/

namespace GoStream.AutoRemove

open Foundations Inodes MetaCache

structure State where
  library : Dict Bytes Content
  torrents : List InfoHash
  blacklist : Blacklist

def State.perform (H : Hashing) (s : State) : Action → State
  | .addToBlacklist hash title => { s with blacklist := s.blacklist.add H hash title }
  | .removeTorrent hash => { s with torrents := s.torrents.filter fun t => t.digits ≠ hash }

def State.unlink (H : Hashing) (s : State) (p : Bytes) : State :=
  let actions := (removeTorrentFromFile s.torrents (s.library.lookup p) p).2
  { actions.foldl (State.perform H) s with library := AList.erase p s.library }

def State.Takes (s : State) (p h : Bytes) : Prop :=
  AutoRemove.Takes s.torrents (s.library.lookup p) p h

instance (s : State) (p h : Bytes) : Decidable (s.Takes p h) :=
  inferInstanceAs (Decidable (AutoRemove.Takes _ _ _ _))

def Unshared (s : State) (p : Bytes) : Prop :=
  ∀ q c g, q ≠ p → s.library.lookup q = some c → c.reference = some g →
    (∀ tag t, suffixPattern (filepathBase p) = some tag → FirstListed s.torrents tag t →
      t.digits ≠ g) ∧
    (Unlisted s.torrents p → ∀ own text, s.library.lookup p = some own → own.urlText = some text →
      firstMatch hashPattern text ≠ some g)

variable {H : Hashing} {s : State} {p : Bytes}

theorem not_takes_of_unshared (hun : Unshared s p) {q g : Bytes} {c : Content} (hq : q ≠ p)
    (hc : s.library.lookup q = some c) (hg : c.reference = some g) : ¬ s.Takes p g := by
  obtain ⟨hlisted, hcontent⟩ := hun q c g hq hc hg
  intro htakes
  rcases takes_iff.mp htakes with ⟨tag, t, htag, ht, heq⟩ | ⟨hnone, own, text, hown, htext, heq⟩
  · exact hlisted tag t htag ht heq
  · exact hcontent hnone own text hown htext heq

/-- When no other stub refers to the removed torrent. -/
theorem unlink_takes_unshared_iff (s : State) (p : Bytes) :
    (∀ h, s.Takes p h → ∀ q c, q ≠ p → s.library.lookup q = some c → c.reference ≠ some h) ↔
      Unshared s p := by
  constructor
  · intro hown q c g hq hc hg
    refine ⟨fun tag t htag ht heq => ?_, fun hnone own text hlib htext heq => ?_⟩
    · exact hown g (takes_iff.mpr (.inl ⟨tag, t, htag, ht, heq⟩)) q c hq hc hg
    · exact hown g (takes_iff.mpr (.inr ⟨hnone, own, text, hlib, htext, heq⟩)) q c hq hc hg
  · intro hun h htakes q c hq hc hg
    exact not_takes_of_unshared hun hq hc hg htakes

def seasonHash : InfoHash := ⟨List.replicate 40 97, rfl, rfl⟩

def firstEpisode : Bytes := ascii "/tv/Show/Season.01/Show_S01E01_aaaaaaaa.mkv"

def secondEpisode : Bytes := ascii "/tv/Show/Season.01/Show_S01E02_aaaaaaaa.mkv"

def season : State where
  library :=
    AList.insert firstEpisode (.json (some (ascii "http://h/stream?link=" ++ seasonHash.digits)))
      (AList.singleton secondEpisode
        (.json (some (ascii "http://h/stream?link=" ++ seasonHash.digits))))
  torrents := [seasonHash]
  blacklist := ⟨∅, []⟩

theorem season_taken_with_episode :
    season.Takes firstEpisode seasonHash.digits ∧ secondEpisode ≠ firstEpisode ∧
      (season.library.lookup secondEpisode).bind Content.reference = some seasonHash.digits ∧
      (season.unlink .standard firstEpisode).torrents = [] := by
  decide +kernel

theorem mem_torrents_unlink {t : InfoHash} :
    t ∈ (s.unlink H p).torrents ↔ t ∈ s.torrents ∧ ¬ s.Takes p t.digits := by
  unfold State.unlink State.Takes AutoRemove.Takes removeTorrentFromFile
  dsimp only
  split_ifs
  · simp
  · simp [State.perform]

/-- Each of the torrents that a stub refers to is there. -/
def Backed (torrents : List InfoHash) (s : State) : Prop :=
  ∀ q c (t : InfoHash), s.library.lookup q = some c → c.reference = some t.digits →
    t ∈ torrents → t ∈ s.torrents

theorem backed_unlink {torrents : List InfoHash} (s : State) (p : Bytes) (h : Backed torrents s)
    (hun : Unshared s p) : Backed torrents (s.unlink H p) := by
  intro q c t hc href ht
  have herase : (AList.erase p s.library).lookup q = some c := hc
  rw [Dict.lookup_erase] at herase
  split_ifs at herase with hq
  exact mem_torrents_unlink.mpr
    ⟨h q c t herase href ht, not_takes_of_unshared hun hq herase href⟩

inductive Engine
  | tv
  | movie
  | watchlist

def Engine.tag : Engine → InfoHash → Bytes
  | .tv, h => h.digits.take 8
  | _, h => h.digits.drop (h.digits.length - 8)

def Engine.filename (e : Engine) (stem : Bytes) (h : InfoHash) : Bytes :=
  stem ++ ascii "_" ++ e.tag h ++ ascii ".mkv"

def streamURL (baseURL : Bytes) (h : InfoHash) (index : ℤ) : Bytes :=
  baseURL ++ ascii "/stream?link=" ++ h.digits ++ ascii "&index=" ++ itoa index ++ ascii "&play"

def OwnTag (torrents : List InfoHash) (e : Engine) (h : InfoHash) (baseURL : Bytes) : Prop :=
  (∀ t, FirstListed torrents (e.tag h) t → t = h) ∧
    ((∀ t ∈ torrents, ¬ e.tag h <:+ t.digits) →
      ∀ digits, firstMatch hashPattern baseURL = some digits → digits = h.digits)

theorem filepathBase_append (u : Bytes) {v : Bytes} (hv : v ≠ []) (hslash : 47 ∉ v) :
    filepathBase (u ++ v) = afterLast 47 u ++ v := by
  have hall : ∀ x ∈ v.reverse, decide (x ≠ 47) = true := by
    intro x hx
    exact decide_eq_true fun h => hslash (List.mem_reverse.mp (h ▸ hx))
  have htrim : ((u ++ v).reverse.dropWhile (· = 47)).reverse = u ++ v := by
    cases hrev : v.reverse with
    | nil => exact absurd (List.reverse_eq_nil_iff.mp hrev) hv
    | cons c w =>
      have hc : c ≠ 47 := by simpa using hall c (hrev ▸ List.mem_cons_self)
      rw [List.reverse_append, hrev, List.cons_append,
        List.dropWhile_cons_of_neg (by simpa using hc), ← List.cons_append, ← hrev,
        ← List.reverse_append, List.reverse_reverse]
  have hlast : afterLast 47 (u ++ v) = afterLast 47 u ++ v := by
    rw [afterLast, List.reverse_append, List.takeWhile_append_of_pos hall, List.reverse_append,
      List.reverse_reverse, afterLast]
  unfold filepathBase
  rw [if_neg (by simp [hv])]
  dsimp only
  rw [htrim, hlast, if_neg (by simp [hv])]

theorem filepathBase_join (dir : Bytes) {name : Bytes} (hname : name ≠ []) (hslash : 47 ∉ name) :
    filepathBase (filepathJoin dir name) = name := by
  have hlast : afterLast 47 (dir ++ [47]) = [] := afterLast_append dir List.not_mem_nil
  have hjoin : filepathJoin dir name = (dir ++ [47]) ++ name := by simp [filepathJoin]
  rw [hjoin, filepathBase_append _ hname hslash, hlast, List.nil_append]

theorem tag_spec (e : Engine) (h : InfoHash) :
    (e.tag h).length = 8 ∧ (e.tag h).all isLowerHex = true := by
  have hlen := h.length_eq
  have hall := List.all_eq_true.mp h.hex
  cases e with
  | tv =>
    refine ⟨by simp [Engine.tag, hlen], List.all_eq_true.mpr fun c hc => ?_⟩
    exact hall c (List.mem_of_mem_take hc)
  | movie | watchlist =>
    refine ⟨by simp [Engine.tag, hlen], List.all_eq_true.mpr fun c hc => ?_⟩
    exact hall c (List.mem_of_mem_drop hc)

theorem suffixPattern_filename (e : Engine) (stem : Bytes) (h : InfoHash) :
    suffixPattern (e.filename stem h) = some (e.tag h) := by
  obtain ⟨hlen, hhex⟩ := tag_spec e h
  have hname : e.filename stem h = stem ++ (95 :: e.tag h ++ ascii ".mkv") := by
    simp only [Engine.filename, List.append_assoc]
    rfl
  have htail : (e.filename stem h).drop ((e.filename stem h).length - 13) =
      95 :: e.tag h ++ ascii ".mkv" := by
    rw [hname]
    have hmkv : (ascii ".mkv").length = 4 := rfl
    refine List.drop_left' ?_
    simp [hlen, hmkv]
  have htag : ((95 :: e.tag h ++ ascii ".mkv").drop 1).take 8 = e.tag h := by
    simp [← hlen]
  have hrest : (95 :: e.tag h ++ ascii ".mkv").drop 9 = ascii ".mkv" := by
    have h9 : 9 = (95 :: e.tag h).length := by simp [hlen]
    rw [h9, List.drop_left]
  unfold suffixPattern
  dsimp only
  rw [htail, htag, hrest, if_pos]
  refine ⟨?_, rfl, hhex, rfl⟩
  have hmkv : (ascii ".mkv").length = 4 := rfl
  simp [hlen, hmkv]

theorem suffixPattern_path (e : Engine) (dir : Bytes) {stem : Bytes} (h : InfoHash)
    (hslash : 47 ∉ stem) :
    suffixPattern (filepathBase (filepathJoin dir (e.filename stem h))) = some (e.tag h) := by
  rw [filepathBase_join dir, suffixPattern_filename]
  · simp [Engine.filename, ascii]
  · -- neither digits nor the other characters are slashes
    have hhex := List.all_eq_true.mp (tag_spec e h).2
    have htag : 47 ∉ e.tag h := fun hmem => absurd (hhex 47 hmem) (by decide)
    have hascii : (47 : UInt8) ∉ ascii "_" ∧ (47 : UInt8) ∉ ascii ".mkv" := by decide
    simp [Engine.filename, hslash, htag, hascii]

theorem firstMatch_streamURL (baseURL : Bytes) (h : InfoHash) (index : ℤ) :
    firstMatch hashPattern (streamURL baseURL h index) =
      some ((firstMatch hashPattern baseURL).getD h.digits) := by
  have hurl : streamURL baseURL h index =
      (baseURL ++ 47 :: ascii "stream?link") ++ 61 ::
        (h.digits ++ (ascii "&index=" ++ itoa index ++ ascii "&play")) := by
    have hlink : ascii "/stream?link=" = 47 :: ascii "stream?link" ++ [61] := rfl
    simp only [streamURL, hlink, List.append_assoc, List.cons_append, List.nil_append]
  have hlink : firstMatch (runOf 40 isLowerHex) (ascii "stream?link") = none := by decide
  unfold hashPattern
  rw [hurl, firstMatch_append (by decide), firstMatch_append (by decide), hlink,
    firstMatch_of_run h.length_eq h.hex]
  cases firstMatch (runOf 40 isLowerHex) baseURL <;> rfl

theorem removeTorrentFromFile_eq_iff {torrents : List InfoHash} {file : Option Content}
    {p : Bytes} {h : InfoHash} :
    removeTorrentFromFile torrents file p =
        (.ok true, [.addToBlacklist h.digits (deriveTitleFromPath p), .removeTorrent h.digits]) ↔
      Takes torrents file p h.digits := by
  constructor
  · intro heq
    rw [Takes, heq]
    simp
  · intro htakes
    obtain ⟨hfull, -⟩ := takes_iff_fullHash.mp htakes
    simp [removeTorrentFromFile, hfull, h.length_eq]

theorem InfoHash.ext_digits {t h : InfoHash} (heq : t.digits = h.digits) : t = h := by
  cases t
  cases h
  simpa using heq

/-- When exactly the torrent in the URL is removed. -/
theorem own_torrent_removed_iff (torrents : List InfoHash) (e : Engine) (dir stem baseURL : Bytes)
    (h : InfoHash) (index : ℤ) (hslash : 47 ∉ stem) :
    removeTorrentFromFile torrents (some (.json (some (streamURL baseURL h index))))
        (filepathJoin dir (e.filename stem h)) =
      (.ok true, [.addToBlacklist h.digits (deriveTitleFromPath (filepathJoin dir (e.filename stem h))),
        .removeTorrent h.digits]) ↔
      OwnTag torrents e h baseURL := by
  have htag := suffixPattern_path e dir h hslash
  have hnone : Unlisted torrents (filepathJoin dir (e.filename stem h)) ↔
      ∀ t ∈ torrents, ¬ e.tag h <:+ t.digits := by
    simp [Unlisted, htag]
  rw [removeTorrentFromFile_eq_iff, takes_iff]
  constructor
  · rintro (⟨tag, t, htag', ht, heq⟩ | ⟨hun, c, text, hc, htext, hmatch⟩)
    · obtain rfl := Option.some.inj (htag.symm.trans htag')
      obtain rfl := InfoHash.ext_digits heq
      exact ⟨fun u hu => hu.unique ht, fun hno => absurd (hnone.mpr hno) (not_unlisted htag ht)⟩
    · obtain rfl := Option.some.inj hc
      obtain rfl := Option.some.inj htext
      refine ⟨fun t ht => absurd hun (not_unlisted htag ht), fun _ digits hdigits => ?_⟩
      rw [firstMatch_streamURL, hdigits] at hmatch
      exact Option.some.inj hmatch
  · rintro ⟨hlisted, hbase⟩
    rcases listed_or_unlisted torrents (filepathJoin dir (e.filename stem h)) with
      ⟨tag, t, htag', ht⟩ | hun
    · obtain rfl := Option.some.inj (htag.symm.trans htag')
      exact .inl ⟨_, t, htag, ht, by rw [hlisted t ht]⟩
    · refine .inr ⟨hun, _, _, rfl, rfl, ?_⟩
      rw [firstMatch_streamURL]
      cases hdigits : firstMatch hashPattern baseURL with
      | none => rfl
      | some digits => rw [Option.getD_some, hbase (hnone.mp hun) digits hdigits]

def pilotHash : InfoHash := ⟨List.replicate 8 97 ++ List.replicate 32 98, rfl, rfl⟩

def filmHash : InfoHash := ⟨List.replicate 32 99 ++ List.replicate 8 97, rfl, rfl⟩

theorem film_takes_own_torrent :
    removeTorrentFromFile [pilotHash, filmHash]
        (some (.json (some (streamURL (ascii "http://h") filmHash 1))))
        (filepathJoin (ascii "/movies") (Engine.movie.filename (ascii "Film") filmHash)) =
      (.ok true, [.addToBlacklist filmHash.digits (deriveTitleFromPath
        (filepathJoin (ascii "/movies") (Engine.movie.filename (ascii "Film") filmHash))),
        .removeTorrent filmHash.digits]) := by
  refine (own_torrent_removed_iff _ .movie _ _ _ filmHash 1 (by decide)).mpr ⟨fun t ht => ?_, ?_⟩
  · have hfind : [pilotHash, filmHash].find? (fun t => (Engine.movie.tag filmHash).isSuffixOf t.digits) =
        some filmHash := by decide
    exact Option.some.inj ((firstListed_iff.mp ht).symm.trans hfind)
  · intro _ digits hdigits
    have hnone : firstMatch hashPattern (ascii "http://h") = none := by decide
    rw [hnone] at hdigits
    cases hdigits

theorem show_takes_torrent_of_film :
    (removeTorrentFromFile [pilotHash, filmHash]
        (some (.json (some (streamURL (ascii "http://h") pilotHash 1))))
        (filepathJoin (ascii "/tv") (Engine.tv.filename (ascii "Show_S01E01") pilotHash))).2 =
      [.addToBlacklist filmHash.digits (ascii "tv"), .removeTorrent filmHash.digits] ∧
      filmHash ≠ pilotHash := by
  decide +kernel

end GoStream.AutoRemove
