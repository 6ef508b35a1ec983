import GoStream.Engines.Recovery
import GoStream.Foundations.Labels

/-!
# Complete seasons
-/

namespace GoStream.Engines

open Foundations Regex Inodes AutoRemove

structure SeasonDetail where
  seasonNumber : Int64
  episodeCount : ℤ

def seasonEps (seasons : List SeasonDetail) : Dict Int64 ℤ :=
  Dict.ofItems ((seasons.filter fun sd => 0 < sd.seasonNumber.toInt && 0 < sd.episodeCount).map
    fun sd => (sd.seasonNumber, sd.episodeCount))

def seasonMark (sn : Int64) : Bytes := 95 :: 115 :: pad2 sn ++ [101]

def TVConfig.looksLike (c : TVConfig) (showName : Bytes) (sn : Int64) (key : Bytes) : Bool :=
  (c.lowering.normalized showName).isPrefixOf key && containsText key (seasonMark sn)

def TVConfig.scores (c : TVConfig) (registry : Dict Bytes TVEpisodeEntry) (showName : Bytes)
    (sn : Int64) : List ℤ :=
  (registry.items.filter fun x => c.looksLike showName sn x.1).map fun x => x.2.qualityScore

def averageScore (scores : List ℤ) : ℚ :=
  Float64.div (Float64.round scores.sum) (Float64.round scores.length)

def TVConfig.getCompleteSeasons (c : TVConfig) (registry : Dict Bytes TVEpisodeEntry)
    (showName : Bytes) (seasons : List SeasonDetail) : Dict Int64 ℚ :=
  Dict.ofItems ((seasonEps seasons).items.filterMap fun x : Int64 × ℤ =>
    if x.2 ≤ ((c.scores registry showName x.1).length : ℤ) then
      some (x.1, averageScore (c.scores registry showName x.1))
    else none)

theorem isSome_getCompleteSeasons {c : TVConfig} {registry : Dict Bytes TVEpisodeEntry}
    {showName : Bytes} {seasons : List SeasonDetail} {n : Int64} :
    ((c.getCompleteSeasons registry showName seasons).lookup n).isSome = true ↔
      ∃ expected, (seasonEps seasons).lookup n = some expected ∧
        expected ≤ ((c.scores registry showName n).length : ℤ) := by
  rw [AList.lookup_isSome, TVConfig.getCompleteSeasons, Dict.mem_ofItems]
  simp only [List.mem_map, List.mem_filterMap, Option.ite_none_right_eq_some, Option.some.injEq]
  constructor
  · rintro ⟨_, ⟨x, hx, hle, rfl⟩, rfl⟩
    exact ⟨x.2, Dict.mem_items.mp hx, hle⟩
  · rintro ⟨expected, hlookup, hle⟩
    exact ⟨_, ⟨(n, expected), Dict.mem_items.mpr hlookup, hle, rfl⟩, rfl⟩

theorem pos_of_lookup_seasonEps {seasons : List SeasonDetail} {n : Int64} {expected : ℤ}
    (h : (seasonEps seasons).lookup n = some expected) : 0 < n.toInt := by
  have hmem : n ∈ seasonEps seasons := by
    rw [← AList.lookup_isSome, h]
    rfl
  rw [seasonEps, Dict.mem_ofItems, List.mem_map] at hmem
  obtain ⟨_, hx, rfl⟩ := hmem
  obtain ⟨sd, hsd, rfl⟩ := List.mem_map.mp hx
  have hpos := (List.mem_filter.mp hsd).2
  simp only [Bool.and_eq_true, decide_eq_true_eq] at hpos
  exact hpos.1

theorem lookup_seasonEps_single {n : Int64} {count : ℤ} (hn : 0 < n.toInt) (hcount : 0 < count) :
    (seasonEps [⟨n, count⟩]).lookup n = some count := by
  simp [seasonEps, hn, hcount, Dict.ofItems, Dict.lookup_singleton]

section Keys

variable {L : Lowering} {name date : Bytes} {season episode n : Int64}

theorem season_of_numbers {v : Bytes}
    (h : 115 :: pad2 season ++ 101 :: pad2 episode = 115 :: (pad2 n ++ 101 :: v)) : season = n := by
  have hpad : ∀ m, (101 : UInt8) ∉ pad2 m := fun m => not_mem_of_all (all_isNumeral_pad2 m) rfl
  rw [List.cons_append, List.cons.injEq] at h
  have hsplit := congrArg (splitFirst 101) h.2
  rw [splitFirst_append (hpad season), splitFirst_append (hpad n)] at hsplit
  exact pad2_inj (Prod.mk.inj (Option.some.inj hsplit)).1

theorem season_of_infix (hyear : (yearOf date).all isDecimal = true)
    (h : seasonMark n <:+: L.episodeKey name date season episode) : season = n := by
  obtain ⟨u, v, huv⟩ := h
  have hmark : u ++ seasonMark n ++ v = u ++ 95 :: (115 :: (pad2 n ++ 101 :: v)) := by
    simp [seasonMark]
  have hlast : ∀ w, 115 :: pad2 season ++ 101 :: pad2 episode ≠
      w ++ 95 :: (115 :: (pad2 n ++ 101 :: v)) := fun w hw =>
    underscore_not_mem_numbers season episode (by simp [hw])
  rw [hmark, Lowering.episodeKey] at huv
  split_ifs at huv with hy
  · rw [List.append_assoc, List.cons_append] at huv
    rcases after_first_sep (L.not_mem_normalized name) huv.symm with hfirst | ⟨w, hw⟩
    · cases hdigits : yearOf date with
      | nil => exact absurd hdigits hy
      | cons d rest =>
        rw [hdigits] at hfirst hyear
        rw [List.cons_append, List.cons.injEq] at hfirst
        rw [hfirst.1] at hyear
        simp [isDecimal] at hyear
    · rcases after_first_sep (not_mem_of_all hyear rfl) hw with hnumbers | ⟨w', hw'⟩
      · exact season_of_numbers hnumbers
      · exact absurd hw' (hlast w')
  · rcases after_first_sep (L.not_mem_normalized name) huv.symm with hnumbers | ⟨w, hw⟩
    · exact season_of_numbers hnumbers
    · exact absurd hw (hlast w)

theorem infix_episodeKey : seasonMark season <:+: L.episodeKey name date season episode := by
  unfold Lowering.episodeKey seasonMark
  split_ifs
  · exact ⟨L.normalized name ++ 95 :: yearOf date, pad2 episode, by simp⟩
  · exact ⟨L.normalized name, pad2 episode, by simp⟩

theorem normalized_concat_prefix : L.normalized name ++ [95] <+: L.episodeKey name date season episode := by
  unfold Lowering.episodeKey
  split_ifs
  · exact ⟨yearOf date ++ 95 :: (115 :: pad2 season ++ 101 :: pad2 episode), by simp⟩
  · exact ⟨115 :: pad2 season ++ 101 :: pad2 episode, by simp⟩

theorem prefix_episodeKey_iff {p : Bytes} (hp : 95 ∉ p) :
    p <+: L.episodeKey name date season episode ↔ p <+: L.normalized name := by
  constructor
  · intro h
    rcases List.prefix_or_prefix_of_prefix h normalized_concat_prefix with h | h
    · rcases List.prefix_concat_iff.mp h with rfl | h
      · simp at hp
      · exact h
    · exact absurd (h.subset (by simp)) hp
  · intro h
    exact h.trans ((List.prefix_append _ _).trans normalized_concat_prefix)

theorem looksLike_episodeKey {c : TVConfig} {showName : Bytes}
    (hyear : (yearOf date).all isDecimal = true) :
    c.looksLike showName n (c.lowering.episodeKey name date season episode) = true ↔
      season = n ∧ c.lowering.normalized showName <+: c.lowering.normalized name := by
  rw [TVConfig.looksLike, Bool.and_eq_true, List.isPrefixOf_iff_prefix, containsText_iff,
    prefix_episodeKey_iff (c.lowering.not_mem_normalized showName), and_comm]
  apply and_congr_left
  intro _
  constructor
  · exact season_of_infix hyear
  · rintro rfl
    exact infix_episodeKey

end Keys

structure TVConfig.Library (c : TVConfig) where
  registry : Dict Bytes TVEpisodeEntry
  originated : c.Originated registry

def TVConfig.libraryAfter (c : TVConfig) (ops : List EngineOp) : c.Library :=
  ⟨(c.reach ops).registry, originated_reach ops⟩

namespace TVConfig.Library

variable {c : TVConfig} (lib : c.Library) (sh : TVShow) (n : Int64)

def Holds (key : Bytes) (episode : Int64) : Prop :=
  ∃ entry, lib.registry.lookup key = some entry ∧ c.StubOf sh n episode entry.filePath

def ownEpisodes : Set Int64 := {episode | ∃ key, lib.Holds sh n key episode}

structure OnlyOwn : Prop where
  own : ∀ name date episode entry, (yearOf date).all isDecimal = true →
    lib.registry.lookup (c.lowering.episodeKey name date n episode) = some entry →
    c.lowering.normalized sh.name <+: c.lowering.normalized name →
    ∃ e, c.StubOf sh n e entry.filePath
  once : ∀ key key' episode, lib.Holds sh n key episode → lib.Holds sh n key' episode → key = key'

def counted : Finset Bytes := (lib.registry.keys.filter (c.looksLike sh.name n)).toFinset

theorem card_counted : (lib.counted sh n).card = (c.scores lib.registry sh.name n).length := by
  have hnodup : (lib.registry.keys.filter (c.looksLike sh.name n)).Nodup :=
    lib.registry.keys_nodup.filter _
  rw [counted, List.toFinset_card_of_nodup hnodup, TVConfig.scores, ← Dict.items_keys,
    List.filter_map, List.length_map, List.length_map]
  rfl

variable {lib sh n}

theorem mem_counted {key : Bytes} : key ∈ lib.counted sh n ↔
    (lib.registry.lookup key).isSome = true ∧ c.looksLike sh.name n key = true := by
  rw [counted, List.mem_toFinset, List.mem_filter, AList.lookup_isSome]
  rfl

theorem holds_rightUnique : Relator.RightUnique (lib.Holds sh n) := by
  rintro key e e' ⟨entry, hk, hash, hpath⟩ ⟨entry', hk', hash', hpath'⟩
  obtain rfl := Option.some.inj (hk.symm.trans hk')
  exact (path_inj (hpath.symm.trans hpath')).2.2.2

theorem Holds.mem_counted {key : Bytes} {episode : Int64} (h : lib.Holds sh n key episode) :
    key ∈ lib.counted sh n := by
  obtain ⟨entry, hk, hstub⟩ := h
  refine Library.mem_counted.mpr ⟨by rw [hk]; rfl, ?_⟩
  rcases lib.originated.honest key entry hk sh n episode hstub with rfl | ⟨rfl, -⟩
  · exact (looksLike_episodeKey sh.year).mpr ⟨rfl, List.prefix_rfl⟩
  · exact (looksLike_episodeKey rfl).mpr ⟨rfl, List.prefix_rfl⟩

theorem labels_counted : labels (lib.Holds sh n) (lib.counted sh n) = lib.ownEpisodes sh n := by
  ext episode
  exact ⟨fun ⟨key, _, h⟩ => ⟨key, h⟩, fun ⟨key, h⟩ => ⟨key, h.mem_counted, h⟩⟩

theorem exists_episodeKey {key : Bytes} {entry : TVEpisodeEntry} (h : c.Origin key entry) :
    ∃ name date season episode, (yearOf date).all isDecimal = true ∧
      key = c.lowering.episodeKey name date season episode := by
  rcases h with ⟨sh, season, episode, hash, rfl, -⟩ | hfound
  · exact ⟨sh.name, sh.firstAirDate, season, episode, sh.year, rfl⟩
  · obtain ⟨x, -, rfl⟩ := Option.map_eq_some_iff.mp hfound
    exact ⟨x.showName, [], x.season, x.episode, rfl, rfl⟩

theorem onlyOwn_iff : lib.OnlyOwn sh n ↔
    (∀ key ∈ lib.counted sh n, ∃ episode, lib.Holds sh n key episode) ∧
      ∀ key ∈ lib.counted sh n, ∀ key' ∈ lib.counted sh n, ∀ episode,
        lib.Holds sh n key episode → lib.Holds sh n key' episode → key = key' := by
  constructor
  · intro h
    refine ⟨?_, fun key _ key' _ episode => h.once key key' episode⟩
    intro key hkey
    obtain ⟨hsome, hlooks⟩ := Library.mem_counted.mp hkey
    obtain ⟨entry, hk⟩ := Option.isSome_iff_exists.mp hsome
    obtain ⟨name, date, season, episode, hyear, rfl⟩ :=
      exists_episodeKey (lib.originated key entry hk)
    obtain ⟨rfl, hbegins⟩ := (looksLike_episodeKey hyear).mp hlooks
    obtain ⟨e, hstub⟩ := h.own name date episode entry hyear hk hbegins
    exact ⟨e, entry, hk, hstub⟩
  · rintro ⟨hall, honce⟩
    constructor
    · intro name date episode entry hyear hk hbegins
      obtain ⟨e, entry', hk', hstub⟩ := hall _ (Library.mem_counted.mpr
        ⟨by rw [hk]; rfl, (looksLike_episodeKey hyear).mpr ⟨rfl, hbegins⟩⟩)
      obtain rfl := Option.some.inj (hk.symm.trans hk')
      exact ⟨e, hstub⟩
    · intro key key' episode h h'
      exact honce key h.mem_counted key' h'.mem_counted episode h h'

theorem length_scores_le_iff : (c.scores lib.registry sh.name n).length ≤
    (lib.ownEpisodes sh n).ncard ↔ lib.OnlyOwn sh n := by
  rw [← card_counted, ← labels_counted, card_le_ncard_labels_iff holds_rightUnique, onlyOwn_iff]

end TVConfig.Library

def showLostGirl : TVShow := ⟨ascii "Lost Girl", ascii "2010-09-12", rfl, rfl⟩

def lostGirlLibrary : tvSample.Library :=
  tvSample.libraryAfter
    [.process (.fullpack showLostGirl (pilotStream 300000) (goodAnswers hashA))]

theorem items_lostGirlLibrary : lostGirlLibrary.registry.items =
    [(ascii "lostgirl_2010_s01e01", ⟨300000, hashA.digits, tvSample.path showLostGirl 1 1 hashA,
      ascii "fullpack", 0⟩)] := by
  decide +kernel

end GoStream.Engines
