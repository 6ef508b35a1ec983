import GoStream.Engines.Names
import GoStream.Foundations.FirstByKey
import GoStream.Foundations.Float64
import GoStream.Foundations.Run
import GoStream.Quality.Streaming

/-!
# Searches of the Prowlarr client
-/

namespace GoStream.Prowlarr

open Foundations Regex Engines Quality

structure ProwlarrResult where
  title : Bytes
  size : ℤ
  seeders : ℤ
  leechers : ℤ
  infoHash : Bytes
  resolution : ℤ
deriving DecidableEq

structure Stream where
  name : Bytes
  title : Bytes
  infoHash : Bytes
  sizeGB : ℚ
  bingeGroup : Bytes
deriving DecidableEq

def garbageRe : Regex :=
  oneOf [words ["camrip", "hdcam", "hdts", "telesync"], bounded (fold (ascii "ts")),
    fold (ascii "telecine"), bounded (fold (ascii "tc")), bounded (fold (ascii "scr")),
    words ["screener", "webscreener"]]

def res4kRe : Regex := words ["2160p", "4k", "uhd"]

def res1080Re : Regex := fold (ascii "1080p")

def res720Re : Regex := fold (ascii "720p")

def resolveResolution (resVal : ℤ) (title : Bytes) : Bytes :=
  if resVal = 2160 then ascii "4k"
  else if resVal = 1080 then ascii "1080p"
  else if resVal = 720 then ascii "720p"
  else if res4kRe.matchString title then ascii "4k"
  else if res1080Re.matchString title then ascii "1080p"
  else if res720Re.matchString title then ascii "720p"
  else []

def fixed2 (q : ℚ) : Bytes :=
  let n := (Float64.nearest (|q| * 100)).toNat
  (if q < 0 then [45] else []) ++ decimal (n / 100) ++ 46 :: decimal (n / 10 % 10) ++
    decimal (n % 10)

def toStream (res : ProwlarrResult) : Stream :=
  let resTag := resolveResolution res.resolution res.title
  let sizeGB := Float64.div (Float64.round res.size) (2 ^ 30)
  { name := ascii "Torrentio\n" ++ resTag
    -- the title, a person and an arrow down with counts, and a disk with the size
    title := res.title ++ 10 :: [0xF0, 0x9F, 0x91, 0xA4, 32] ++ itoa res.seeders ++
      [32, 0xE2, 0xAC, 0x87, 0xEF, 0xB8, 0x8F, 32] ++ itoa res.leechers ++
      [10, 0xF0, 0x9F, 0x92, 0xBE, 32] ++ fixed2 sizeGB ++ ascii "GB"
    infoHash := res.infoHash
    sizeGB := sizeGB
    bingeGroup := ascii "prowlarr-" ++ resTag }

def usable (res : ProwlarrResult) : Bool :=
  res.infoHash ≠ [] && !garbageRe.matchString res.title

def mapToStremioFormat (results : List ProwlarrResult) : List Stream :=
  (results.filter usable).map toStream

structure Search where
  imdbID : Bytes
  contentType : Bytes
  title : Bytes
  categories : List Bytes
deriving DecidableEq

structure Question where
  type : Bytes
  query : Bytes
  category : Bytes
deriving DecidableEq

def defaultMovieCategories : List Bytes := [ascii "2000"]

def Search.series (q : Search) : Bool := q.contentType = ascii "series"

def Search.asked (q : Search) : List Bytes :=
  if q.categories ≠ [] then q.categories
  else if q.series then [ascii "5000"]
  else defaultMovieCategories

def Search.queries (q : Search) : List Question :=
  match q.asked with
  | [] => []
  | first :: others =>
    if q.series then
      ⟨ascii "tvsearch", q.imdbID, first⟩ ::
        if q.title = [] then [] else [⟨ascii "tvsearch", q.title, others.headD first⟩]
    else
      ((first :: others).map fun cat => ⟨ascii "movie", q.imdbID, cat⟩) ++
        if q.title = [] then []
        else (first :: others).map fun cat => ⟨ascii "movie", q.title, cat⟩

variable (L : Lowering)

def resultKey (res : ProwlarrResult) : Option Bytes :=
  if L.lower res.infoHash = [] then none else some (L.lower res.infoHash)

def fetchFromProwlarr (answers : ℕ → List ProwlarrResult) (arrival : List ℕ) :
    List ProwlarrResult := firsts (resultKey L) [] (arrival.flatMap answers)

structure SearchCacheKey where
  imdbID : Bytes
  contentType : Bytes
  title : Bytes
  categories : Bytes
deriving DecidableEq

structure SearchCacheEntry where
  streams : List Stream
  expiresAt : ℤ

def Search.cacheKey (q : Search) : SearchCacheKey :=
  ⟨q.imdbID, q.contentType, q.title, List.intercalate (ascii ",") q.categories⟩

def searchCacheTTL : ℤ := 5 * 60 * 10 ^ 9

abbrev Client := Option (Dict SearchCacheKey SearchCacheEntry)

def newClient (enabled : Bool) : Client := if enabled then some ∅ else none

def cached (cache : Dict SearchCacheKey SearchCacheEntry) (q : Search) (now : ℤ) :
    Option (List Stream) :=
  ((cache.lookup q.cacheKey).filter fun e => now < e.expiresAt).map SearchCacheEntry.streams

def fetchTorrents (c : Client) (q : Search) (now : ℤ) (answers : ℕ → List ProwlarrResult)
    (arrival : List ℕ) : List Stream :=
  match c with
  | none => []
  | some cache =>
    match cached cache q now with
    | some streams => streams
    | none => mapToStremioFormat (fetchFromProwlarr L answers arrival)

def dropDown : List SearchCacheKey → Dict SearchCacheKey SearchCacheEntry →
    Dict SearchCacheKey SearchCacheEntry
  | [], cache => cache
  | k :: ks, cache =>
    let cache := cache.erase k
    if cache.keys.length ≤ 100 then cache else dropDown ks cache

def expired (cache : Dict SearchCacheKey SearchCacheEntry) (now : ℤ) : List SearchCacheKey :=
  (cache.items.filter fun e => e.2.expiresAt < now).map Prod.fst

def evict (order : MapOrder) (now : ℤ) (cache : Dict SearchCacheKey SearchCacheEntry) :
    Dict SearchCacheKey SearchCacheEntry :=
  if 128 < cache.keys.length then
    let cache := (expired cache now).foldl (fun d k => d.erase k) cache
    if 128 < cache.keys.length then dropDown (order.arrange cache.keys) cache else cache
  else cache

structure Store where
  search : Search
  answers : ℕ → List ProwlarrResult
  arrival : List ℕ
  now : ℤ
  later : ℤ
  order : MapOrder

def store (c : Client) (op : Store) : Client :=
  c.map fun cache => evict op.order op.later (AList.insert op.search.cacheKey
    ⟨mapToStremioFormat (fetchFromProwlarr L op.answers op.arrival), op.now + searchCacheTTL⟩ cache)

def hashes (streams : List Stream) : List Bytes := streams.map fun s => L.lower s.infoHash

variable {L}

theorem resultKey_eq_some {res : ProwlarrResult} {k : Bytes} :
    resultKey L res = some k ↔ k ≠ [] ∧ L.lower res.infoHash = k := by
  unfold resultKey
  split_ifs with h
  · constructor
    · intro heq
      cases heq
    · rintro ⟨hne, rfl⟩
      exact absurd h hne
  · rw [Option.some_inj]
    constructor
    · rintro rfl
      exact ⟨h, rfl⟩
    · exact fun hk => hk.2

theorem hashes_fresh (answers : ℕ → List ProwlarrResult) (arrival : List ℕ) :
    (hashes L (mapToStremioFormat (fetchFromProwlarr L answers arrival))).map some =
      (merged (resultKey L) usable answers arrival).map (resultKey L) := by
  rw [hashes, mapToStremioFormat, List.map_map, List.map_map]
  refine List.map_congr_left fun res hres => ?_
  obtain ⟨k, hk, -, -⟩ := mem_firsts.mp (List.mem_of_mem_filter hres)
  rw [hk, ← (resultKey_eq_some.mp hk).2]
  rfl

theorem nodup_hashes_fresh (answers : ℕ → List ProwlarrResult) (arrival : List ℕ) :
    (hashes L (mapToStremioFormat (fetchFromProwlarr L answers arrival))).Nodup := by
  refine List.Nodup.of_map some ?_
  rw [hashes_fresh]
  exact nodup_keys_merged

theorem mem_hashes_fresh {answers : ℕ → List ProwlarrResult} {arrival : List ℕ} {k : Bytes} :
    k ∈ hashes L (mapToStremioFormat (fetchFromProwlarr L answers arrival)) ↔
      some k ∈ (merged (resultKey L) usable answers arrival).map (resultKey L) := by
  rw [← hashes_fresh, List.mem_map_of_injective (Option.some_injective _)]

theorem usable_of_key {res : ProwlarrResult} {k : Bytes} (h : resultKey L res = some k) :
    usable res = !garbageRe.matchString res.title := by
  have hne : res.infoHash ≠ [] := by
    intro hnil
    obtain ⟨hk, hlower⟩ := resultKey_eq_some.mp h
    rw [hnil, L.lower_nil] at hlower
    exact hk hlower.symm
  simp [usable, hne]

def firstWith (L : Lowering) (k : Bytes) (answer : List ProwlarrResult) : Option ProwlarrResult :=
  answer.find? fun res => L.lower res.infoHash = k

def SameVerdicts (L : Lowering) (answers : ℕ → List ProwlarrResult) (n : ℕ) : Prop :=
  ∀ k ≠ [], ∀ i < n, ∀ j < n, ∀ a b, firstWith L k (answers i) = some a →
    firstWith L k (answers j) = some b →
      garbageRe.matchString a.title = garbageRe.matchString b.title

theorem find?_key {k : Bytes} (hk : k ≠ []) (answer : List ProwlarrResult) :
    answer.find? (fun res => resultKey L res = some k) = firstWith L k answer := by
  have hsame : (fun res => decide (resultKey L res = some k)) =
      fun res => decide (L.lower res.infoHash = k) := by
    funext res
    rw [decide_eq_decide, resultKey_eq_some, and_iff_right hk]
  rw [firstWith, hsame]

theorem agreeing_iff {answers : ℕ → List ProwlarrResult} {n : ℕ} :
    Agreeing (resultKey L) usable answers (List.range n) ↔ SameVerdicts L answers n := by
  have hverdict : ∀ {k : Bytes}, k ≠ [] → ∀ {answer : List ProwlarrResult} {a : ProwlarrResult},
      firstWith L k answer = some a → usable a = !garbageRe.matchString a.title := by
    intro k hk answer a ha
    have hlower : L.lower a.infoHash = k := by simpa using List.find?_some ha
    exact usable_of_key (resultKey_eq_some.mpr ⟨hk, hlower⟩)
  constructor
  · intro h k hk i hi j hj a b ha hb
    have heq := h k i (List.mem_range.mpr hi) j (List.mem_range.mpr hj) a b
      (by rw [find?_key hk, ha]) (by rw [find?_key hk, hb])
    rw [hverdict hk ha, hverdict hk hb] at heq
    exact Bool.not_inj heq
  · intro h k i hi j hj a b ha hb
    have hk : k ≠ [] := by
      have hkey : resultKey L a = some k := by simpa using List.find?_some ha
      exact (resultKey_eq_some.mp hkey).1
    rw [find?_key hk] at ha hb
    rw [hverdict hk ha, hverdict hk hb,
      h k hk i (List.mem_range.mp hi) j (List.mem_range.mp hj) a b ha hb]

theorem fresh_order_iff {answers : ℕ → List ProwlarrResult} {n : ℕ} :
    (∀ p p', p.Perm (List.range n) → p'.Perm (List.range n) → ∀ k,
      k ∈ hashes L (mapToStremioFormat (fetchFromProwlarr L answers p)) ↔
      k ∈ hashes L (mapToStremioFormat (fetchFromProwlarr L answers p'))) ↔
    SameVerdicts L answers n := by
  rw [← agreeing_iff, ← merged_keys_iff]
  simp only [mem_hashes_fresh]

def Tidy (L : Lowering) (cache : Dict SearchCacheKey SearchCacheEntry) : Prop :=
  ∀ k e, cache.lookup k = some e → (hashes L e.streams).Nodup

theorem Tidy.erase {cache : Dict SearchCacheKey SearchCacheEntry} (h : Tidy L cache)
    (k : SearchCacheKey) : Tidy L (cache.erase k) := by
  intro k' e he
  rw [Dict.lookup_erase] at he
  split_ifs at he
  exact h k' e he

theorem Tidy.dropDown (ks : List SearchCacheKey) {cache : Dict SearchCacheKey SearchCacheEntry}
    (h : Tidy L cache) : Tidy L (dropDown ks cache) := by
  induction ks generalizing cache with
  | nil => exact h
  | cons k ks ih =>
    rw [Prowlarr.dropDown]
    split_ifs
    · exact h.erase k
    · exact ih (h.erase k)

theorem Tidy.evict (order : MapOrder) (now : ℤ) {cache : Dict SearchCacheKey SearchCacheEntry}
    (h : Tidy L cache) : Tidy L (evict order now cache) := by
  have herase : ∀ (ks : List SearchCacheKey) {cache : Dict SearchCacheKey SearchCacheEntry},
      Tidy L cache → Tidy L (ks.foldl (fun d k => d.erase k) cache) := by
    intro ks
    induction ks with
    | nil => exact fun h => h
    | cons k ks ih => exact fun h => ih (h.erase k)
  simp only [Prowlarr.evict]
  split_ifs
  · exact (herase _ h).dropDown _
  · exact herase _ h
  · exact h

theorem tidy_store {c : Client} (h : ∀ cache, c = some cache → Tidy L cache) (op : Store) :
    ∀ cache, store L c op = some cache → Tidy L cache := by
  intro cache hcache
  obtain ⟨old, rfl, rfl⟩ := Option.map_eq_some_iff.mp hcache
  refine Tidy.evict _ _ ?_
  intro k e he
  rw [Dict.lookup_insert] at he
  split_ifs at he
  · obtain rfl := Option.some.inj he
    exact nodup_hashes_fresh _ _
  · exact h old rfl k e he

theorem tidy_run (enabled : Bool) (ops : List Store) :
    ∀ cache, run (store L) (newClient enabled) ops = some cache → Tidy L cache := by
  refine run_keeps (fun c : Client => ∀ cache, c = some cache → Tidy L cache)
    (fun c op h => tidy_store h op) ops ?_
  intro cache hcache
  cases enabled with
  | false => cases hcache
  | true =>
    obtain rfl := Option.some.inj hcache
    intro k e he
    cases he

theorem nodup_hashes {c : Client} (h : ∀ cache, c = some cache → Tidy L cache) (q : Search)
    (now : ℤ) (answers : ℕ → List ProwlarrResult) (arrival : List ℕ) :
    (hashes L (fetchTorrents L c q now answers arrival)).Nodup := by
  cases c with
  | none => exact List.nodup_nil
  | some cache =>
    rw [fetchTorrents]
    cases hhit : cached cache q now with
    | none => exact nodup_hashes_fresh answers arrival
    | some streams =>
      obtain ⟨e, he, rfl⟩ := Option.map_eq_some_iff.mp hhit
      exact h cache rfl _ e (Option.filter_eq_some_iff.mp he).1

/-- When the order of arrival does not matter. -/
theorem search_order_iff (L : Lowering) (enabled : Bool) (ops : List Store) (q : Search) (now : ℤ)
    (answers : ℕ → List ProwlarrResult) :
    (∀ arrival, arrival.Perm (List.range q.queries.length) →
      (hashes L (fetchTorrents L (run (store L) (newClient enabled) ops) q now answers
        arrival)).Nodup) ∧
    ((∀ p p', p.Perm (List.range q.queries.length) → p'.Perm (List.range q.queries.length) →
      ∀ k, k ∈ hashes L (fetchTorrents L (run (store L) (newClient enabled) ops) q now answers p) ↔
        k ∈ hashes L (fetchTorrents L (run (store L) (newClient enabled) ops) q now answers p')) ↔
      ((run (store L) (newClient enabled) ops).all fun cache => (cached cache q now).isSome) = true ∨
        SameVerdicts L answers q.queries.length) := by
  refine ⟨fun arrival _ => nodup_hashes (tidy_run enabled ops) q now answers arrival, ?_⟩
  generalize run (store L) (newClient enabled) ops = c
  cases c with
  | none => exact iff_of_true (fun _ _ _ _ _ => Iff.rfl) (.inl rfl)
  | some cache =>
    simp only [fetchTorrents, Option.all_some]
    cases cached cache q now with
    | some streams => exact iff_of_true (fun _ _ _ _ _ => Iff.rfl) (.inl rfl)
    | none => simpa using fresh_order_iff

def twoTitles : ℕ → List ProwlarrResult
  | 0 => [⟨ascii "Show TS", 1, 1, 1, ascii "ab", 0⟩]
  | _ => [⟨ascii "Show", 1, 1, 1, ascii "AB", 0⟩]

def showSearch : Search := ⟨ascii "tt1", ascii "series", ascii "Show", []⟩

theorem twoTitles_order_matters :
    showSearch.queries.length = 2 ∧
    hashes .ascii (fetchTorrents .ascii (newClient true) showSearch 0 twoTitles [0, 1]) = [] ∧
    hashes .ascii (fetchTorrents .ascii (newClient true) showSearch 0 twoTitles [1, 0]) =
      [ascii "ab"] := by
  decide

end GoStream.Prowlarr
