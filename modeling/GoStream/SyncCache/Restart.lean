import GoStream.SyncCache.Retries

/-!
# Saving and loading
-/

namespace GoStream.SyncCache

open Foundations Metadb

def NegativeCacheEntry.truncated (e : NegativeCacheEntry) : NegativeCacheEntry :=
  { e with timestamp := truncate e.timestamp }

def FullpackCacheEntry.truncated (e : FullpackCacheEntry) : FullpackCacheEntry :=
  { e with processedAt := truncate e.processedAt }

structure SyncCacheManager.Holds (m : SyncCacheManager) (neg : Dict Bytes NegativeCacheEntry)
    (full : Dict Bytes FullpackCacheEntry) : Prop where
  negative : ∀ k, m.negativeCache.lookup k = (neg.lookup k).map NegativeCacheEntry.truncated
  fullpack : ∀ k, m.fullpackCache.lookup k = (full.lookup k).map FullpackCacheEntry.truncated

section Restart

variable (T : Texts) (order : MapOrder)

def SyncCacheManager.restart (m : SyncCacheManager) (d : StateDir) : SyncCacheManager :=
  (SyncCacheManager.new m.db).loadCachesFromDisk T (m.syncToDisk T order .none d).2 false

structure KeepsNegative (db : Bool) (x : Bytes × NegativeCacheEntry) : Prop where
  key : x.2.hash = x.1
  time : InRange x.2.timestamp
  valid : db = false → T.utf8 x.1 = x.1

structure KeepsFullpack (db : Bool) (x : Bytes × FullpackCacheEntry) : Prop where
  key : x.2.hash = x.1
  time : db = true → InRange x.2.processedAt
  valid : db = false → T.utf8 x.1 = x.1 ∧ T.utf8 x.2.title = x.2.title
  zero : db = false → truncate x.2.processedAt = 0

end Restart

variable {T : Texts} {order : MapOrder} {m : SyncCacheManager} {d : StateDir}

theorem inRange_of_truncate_eq_zero {t : ℤ} (h : truncate t = 0) : InRange t := by
  simp only [truncate, InRange, second] at h ⊢
  omega

theorem getD_parse_format_eq_iff {t : ℤ} :
    (T.parse (T.format t)).getD 0 = truncate t ↔ InRange t := by
  rw [T.parse_format]
  split_ifs with h
  · simp [h]
  · simp only [Option.getD_none, h, iff_false]
    exact fun hzero => h (inRange_of_truncate_eq_zero hzero.symm)

theorem filterMap_negativeEntry_rows : (m.rows T order).filterMap CacheRow.negativeEntry =
    (order.arrange m.negativeCache.items).map fun x => (x.1, some (storedNegative T x)) := by
  have hfull : (order.arrange m.fullpackCache.items).filterMap
      (CacheRow.negativeEntry ∘ fun x => (storedFullpack T x).row) = [] :=
    List.filterMap_eq_nil_iff.mpr fun _ _ => rfl
  rw [SyncCacheManager.rows, List.filterMap_append, List.filterMap_map, List.filterMap_map, hfull,
    List.append_nil, ← List.filterMap_eq_map]
  rfl

theorem filterMap_fullpackEntry_rows : (m.rows T order).filterMap CacheRow.fullpackEntry =
    (order.arrange m.fullpackCache.items).map fun x => (x.1, some (storedFullpack T x)) := by
  have hneg : (order.arrange m.negativeCache.items).filterMap
      (CacheRow.fullpackEntry ∘ fun x => (storedNegative T x).row) = [] :=
    List.filterMap_eq_nil_iff.mpr fun _ _ => rfl
  rw [SyncCacheManager.rows, List.filterMap_append, List.filterMap_map, List.filterMap_map, hneg,
    List.nil_append, ← List.filterMap_eq_map]
  rfl

theorem loadAllCaches_rows {t : Table CacheRow CacheRow.Clash} (ht : t.rows = m.rows T order) :
    ∃ neg full, loadAllCaches t = some (neg, full) ∧
      (∀ k, neg.lookup k = (m.negativeCache.lookup k).map fun e => storedNegative T (k, e)) ∧
      ∀ k, full.lookup k = (m.fullpackCache.lookup k).map fun e => storedFullpack T (k, e) := by
  obtain ⟨neg, hneg, hlookup⟩ := Dict.exists_ofEntries?_eq
    (fun k e => storedNegative T (k, e)) m.negativeCache (order.perm _)
  obtain ⟨full, hfull, hlookup'⟩ := Dict.exists_ofEntries?_eq
    (fun k e => storedFullpack T (k, e)) m.fullpackCache (order.perm _)
  refine ⟨neg, full, ?_, hlookup, hlookup'⟩
  rw [loadAllCaches, ht, filterMap_negativeEntry_rows, filterMap_fullpackEntry_rows, hneg, hfull]
  rfl

def reloadedNegative (T : Texts) (k : Bytes) (e : NegativeCacheEntry) : NegativeCacheEntry :=
  ⟨k, (T.parse (T.format e.timestamp)).getD 0⟩

def reloadedFullpack (T : Texts) (k : Bytes) (e : FullpackCacheEntry) : FullpackCacheEntry :=
  ⟨k, e.title, (T.parse (T.format e.processedAt)).getD 0⟩

theorem restart_db (hdb : m.db = true) (hdirty : m.dirty = true) :
    (∀ k, (m.restart T order d).negativeCache.lookup k =
      (m.negativeCache.lookup k).map (reloadedNegative T k)) ∧
    ∀ k, (m.restart T order d).fullpackCache.lookup k =
      (m.fullpackCache.lookup k).map (reloadedFullpack T k) := by
  obtain ⟨t, hrows, hsync⟩ :=
    syncToDisk_db T order d hdirty hdb (rfl : Faults.none.transaction = false)
  obtain ⟨neg, full, hload, hneg, hfull⟩ := loadAllCaches_rows hrows
  have hrestart : m.restart T order d =
      { SyncCacheManager.new true with
        negativeCache := neg.mapValues fun e => ⟨e.hash, (T.parse e.timestamp).getD 0⟩
        fullpackCache := full.mapValues fun e =>
          ⟨e.hash, e.title, (T.parse e.timestamp).getD 0⟩ } := by
    rw [SyncCacheManager.restart, hsync, SyncCacheManager.loadCachesFromDisk]
    simp [SyncCacheManager.new, hdb, hload]
  rw [hrestart]
  constructor
  · intro k
    rw [Dict.lookup_mapValues, hneg, Option.map_map]
    rfl
  · intro k
    rw [Dict.lookup_mapValues, hfull, Option.map_map]
    rfl

theorem decodeNegative_member (x : Bytes × NegativeCacheEntry) :
    decodeNegative T ((storedNegative T x).member T).2 =
      if InRange x.2.timestamp then some ⟨T.utf8 x.1, truncate x.2.timestamp⟩ else none := by
  have hhash : matchField negativeTags (ascii "Hash") = some .hash := by decide
  have htime : matchField negativeTags (ascii "Timestamp") = some .timestamp := by decide
  simp only [decodeNegative, StoredNegative.member, storedNegative, List.foldlM_cons,
    List.foldlM_nil, hhash, htime, T.utf8_format, T.parse_format]
  split_ifs <;> rfl

theorem decodeFullpack_member (x : Bytes × FullpackCacheEntry) :
    decodeFullpack T ((storedFullpack T x).member T).2 =
      some ⟨T.utf8 x.1, T.utf8 x.2.title, 0⟩ := by
  have hhash : matchField fullpackTags (ascii "Hash") = some .hash := by decide
  have htitle : matchField fullpackTags (ascii "Title") = some .title := by decide
  have htime : matchField fullpackTags (ascii "Timestamp") = none := by decide
  simp only [decodeFullpack, StoredFullpack.member, storedFullpack, List.foldlM_cons,
    List.foldlM_nil, hhash, htitle, htime]
  rfl

theorem restart_json (hdb : m.db = false) (hdirty : m.dirty = true) :
    (m.restart T order d).negativeCache =
      (Dict.ofEntries? ((order.arrange m.negativeCache.items).map fun x =>
        (T.utf8 x.1, decodeNegative T ((storedNegative T x).member T).2))).getD ∅ ∧
    (m.restart T order d).fullpackCache =
      (Dict.ofEntries? ((order.arrange m.fullpackCache.items).map fun x =>
        (T.utf8 x.1, decodeFullpack T ((storedFullpack T x).member T).2))).getD ∅ := by
  rw [SyncCacheManager.restart, syncToDisk_json d hdirty hdb rfl rfl, hdb]
  simp only [SyncCacheManager.loadCachesFromDisk, SyncCacheManager.new, Bool.false_eq_true,
    if_false, SyncCacheManager.loadFromJSON, readDocument, Option.bind_some,
    SyncCacheManager.negativeDocument, SyncCacheManager.fullpackDocument, List.map_map]
  exact ⟨rfl, rfl⟩

theorem restart_negative_iff (hdirty : m.dirty = true) :
    (∀ k, (m.restart T order d).negativeCache.lookup k =
      (m.negativeCache.lookup k).map NegativeCacheEntry.truncated) ↔
    ∀ x ∈ m.negativeCache.items, KeepsNegative T m.db x := by
  cases hdb : m.db with
  | true =>
    simp only [(restart_db hdb hdirty).1]
    apply (Dict.lookup_map_eq_iff (reloadedNegative T) (fun _ => NegativeCacheEntry.truncated)
      m.negativeCache).trans
    refine forall₂_congr fun x _ => ?_
    rw [reloadedNegative, NegativeCacheEntry.truncated, NegativeCacheEntry.mk.injEq,
      getD_parse_format_eq_iff]
    constructor
    · rintro ⟨hkey, htime⟩
      exact ⟨hkey.symm, htime, by simp⟩
    · rintro ⟨hkey, htime, -⟩
      exact ⟨hkey.symm, htime⟩
  | false =>
    rw [(restart_json hdb hdirty).1]
    apply (Dict.lookup_ofEntries?_map_iff T.utf8_idem
      (fun x => decodeNegative T ((storedNegative T x).member T).2)
      (fun _ => NegativeCacheEntry.truncated) m.negativeCache (order.perm _)).trans
    refine forall₂_congr fun x _ => ?_
    rw [decodeNegative_member]
    constructor
    · rintro ⟨hvalid, hentry⟩
      split_ifs at hentry with htime
      rw [hvalid, NegativeCacheEntry.truncated, Option.some.injEq,
        NegativeCacheEntry.mk.injEq] at hentry
      exact ⟨hentry.1.symm, htime, fun _ => hvalid⟩
    · rintro ⟨hkey, htime, hvalid⟩
      rw [if_pos htime, hvalid rfl, NegativeCacheEntry.truncated, hkey]
      exact ⟨rfl, rfl⟩

theorem restart_fullpack_iff (hdirty : m.dirty = true) :
    (∀ k, (m.restart T order d).fullpackCache.lookup k =
      (m.fullpackCache.lookup k).map FullpackCacheEntry.truncated) ↔
    ∀ x ∈ m.fullpackCache.items, KeepsFullpack T m.db x := by
  cases hdb : m.db with
  | true =>
    simp only [(restart_db hdb hdirty).2]
    apply (Dict.lookup_map_eq_iff (reloadedFullpack T) (fun _ => FullpackCacheEntry.truncated)
      m.fullpackCache).trans
    refine forall₂_congr fun x _ => ?_
    rw [reloadedFullpack, FullpackCacheEntry.truncated, FullpackCacheEntry.mk.injEq,
      getD_parse_format_eq_iff]
    constructor
    · rintro ⟨hkey, -, htime⟩
      exact ⟨hkey.symm, fun _ => htime, by simp, by simp⟩
    · rintro ⟨hkey, htime, -, -⟩
      exact ⟨hkey.symm, rfl, htime rfl⟩
  | false =>
    rw [(restart_json hdb hdirty).2]
    apply (Dict.lookup_ofEntries?_map_iff T.utf8_idem
      (fun x => decodeFullpack T ((storedFullpack T x).member T).2)
      (fun _ => FullpackCacheEntry.truncated) m.fullpackCache (order.perm _)).trans
    refine forall₂_congr fun x _ => ?_
    rw [decodeFullpack_member, Option.some.injEq, FullpackCacheEntry.truncated,
      FullpackCacheEntry.mk.injEq]
    constructor
    · rintro ⟨hvalid, hkey, htitle, hzero⟩
      exact ⟨(hvalid.symm.trans hkey).symm, by simp, fun _ => ⟨hvalid, htitle⟩, fun _ => hzero.symm⟩
    · rintro ⟨hkey, -, hvalid, hzero⟩
      exact ⟨(hvalid rfl).1, (hvalid rfl).1.trans hkey.symm, (hvalid rfl).2, (hzero rfl).symm⟩

/-- When saved caches come back. -/
theorem restart_holds_iff (T : Texts) (order : MapOrder) (db : Bool)
    (neg : Dict Bytes NegativeCacheEntry) (full : Dict Bytes FullpackCacheEntry) (d : StateDir) :
    (SyncCacheManager.restart T order ⟨db, neg, full, true⟩ d).Holds neg full ↔
      (∀ x ∈ neg.items, KeepsNegative T db x) ∧ ∀ x ∈ full.items, KeepsFullpack T db x := by
  rw [← restart_negative_iff (m := ⟨db, neg, full, true⟩) rfl,
    ← restart_fullpack_iff (m := ⟨db, neg, full, true⟩) rfl]
  exact ⟨fun h => ⟨h.negative, h.fullpack⟩, fun h => ⟨h.1, h.2⟩⟩

def processedPack : Dict Bytes FullpackCacheEntry :=
  AList.singleton heldHash ⟨heldHash, ascii "Show", 5 * second⟩

theorem pack_time_lost_in_json :
    (SyncCacheManager.restart .seconds .listed ⟨false, ∅, processedPack, true⟩
      ⟨.empty, none, none⟩).fullpackCache.items = [(heldHash, ⟨heldHash, ascii "Show", 0⟩)] ∧
    (SyncCacheManager.restart .seconds .listed ⟨true, ∅, processedPack, true⟩
      ⟨.empty, none, none⟩).fullpackCache.items =
        [(heldHash, ⟨heldHash, ascii "Show", 5 * second⟩)] := by
  decide +kernel

end GoStream.SyncCache
