import GoStream.Foundations.Run
import GoStream.Metadb.Tables

/-!
# The sync caches
-/

namespace GoStream.SyncCache

open Foundations Metadb

def second : ℤ := 1000000000

def truncate (t : ℤ) : ℤ := t / second * second

def InRange (t : ℤ) : Prop := -31622400 * second ≤ t ∧ t < 315537897600 * second

instance (t : ℤ) : Decidable (InRange t) := inferInstanceAs (Decidable (_ ∧ _))

structure Texts where
  format : ℤ → Bytes
  parse : Bytes → Option ℤ
  parse_format : ∀ t, parse (format t) = if InRange t then some (truncate t) else none
  utf8 : Bytes → Bytes
  utf8_idem : ∀ s, utf8 (utf8 s) = utf8 s
  utf8_format : ∀ t, utf8 (format t) = format t

def Texts.seconds : Texts where
  format := fun t => if InRange t then itoa (t / second) else ascii "-"
  parse := fun s => (parseInt s).map fun n => n.toInt * second
  parse_format := by
    intro t
    by_cases h : InRange t
    · have hlo : -2 ^ 63 ≤ t / second := by
        have hrange := h.1
        simp only [second] at hrange ⊢
        omega
      have hhi : t / second < 2 ^ 63 := by
        have hrange := h.2
        simp only [second] at hrange ⊢
        omega
      have hint : (Int64.ofInt (t / second)).toInt = t / second := Int64.toInt_ofInt_of_le hlo hhi
      rw [if_pos h, if_pos h, ← hint, parseInt_itoa, Option.map_some, hint]
      rfl
    · rw [if_neg h, if_neg h]
      rfl
  utf8 := id
  utf8_idem := fun _ => rfl
  utf8_format := fun _ => rfl

structure NegativeCacheEntry where
  hash : Bytes
  timestamp : ℤ
  deriving DecidableEq

structure FullpackCacheEntry where
  hash : Bytes
  title : Bytes
  processedAt : ℤ
  deriving DecidableEq

structure SyncCacheManager where
  db : Bool
  negativeCache : Dict Bytes NegativeCacheEntry
  fullpackCache : Dict Bytes FullpackCacheEntry
  dirty : Bool

def SyncCacheManager.new (db : Bool) : SyncCacheManager := ⟨db, ∅, ∅, false⟩

abbrev Document := List (Bytes × List (Bytes × Bytes))

structure StateDir where
  syncCaches : Table CacheRow CacheRow.Clash
  noMkvHashes : Option Document
  tvFullpacks : Option Document

structure StoredNegative where
  hash : Bytes
  timestamp : Bytes

structure StoredFullpack where
  hash : Bytes
  title : Bytes
  timestamp : Bytes

def StoredNegative.row (e : StoredNegative) : CacheRow := ⟨e.hash, .negative, some [], e.timestamp⟩

def StoredFullpack.row (e : StoredFullpack) : CacheRow :=
  ⟨e.hash, .fullpack, some e.title, e.timestamp⟩

section Saving

variable (T : Texts)

def storedNegative (x : Bytes × NegativeCacheEntry) : StoredNegative :=
  ⟨x.1, T.format x.2.timestamp⟩

def storedFullpack (x : Bytes × FullpackCacheEntry) : StoredFullpack :=
  ⟨x.1, x.2.title, T.format x.2.processedAt⟩

def StoredNegative.member (e : StoredNegative) : Bytes × List (Bytes × Bytes) :=
  (T.utf8 e.hash, [(ascii "Hash", T.utf8 e.hash), (ascii "Timestamp", T.utf8 e.timestamp)])

def StoredFullpack.member (e : StoredFullpack) : Bytes × List (Bytes × Bytes) :=
  (T.utf8 e.hash, [(ascii "Hash", T.utf8 e.hash), (ascii "Title", T.utf8 e.title),
    (ascii "Timestamp", T.utf8 e.timestamp)])

def SyncCacheManager.rows (order : MapOrder) (m : SyncCacheManager) : List CacheRow :=
  (order.arrange m.negativeCache.items).map (fun x => (storedNegative T x).row) ++
    (order.arrange m.fullpackCache.items).map fun x => (storedFullpack T x).row

def SyncCacheManager.negativeDocument (order : MapOrder) (m : SyncCacheManager) : Document :=
  (order.arrange m.negativeCache.items).map fun x => (storedNegative T x).member T

def SyncCacheManager.fullpackDocument (order : MapOrder) (m : SyncCacheManager) : Document :=
  (order.arrange m.fullpackCache.items).map fun x => (storedFullpack T x).member T

structure Faults where
  transaction : Bool
  negativeFile : Bool
  fullpackFile : Bool

def Faults.none : Faults := ⟨false, false, false⟩

def saveAllCaches (t : Table CacheRow CacheRow.Clash) (rows : List CacheRow) (fails : Bool) :
    Option (Table CacheRow CacheRow.Clash) :=
  if fails then none else (t.deleteWhere fun _ => true).insertAll? rows

def SyncCacheManager.syncToDisk (order : MapOrder) (faults : Faults) (m : SyncCacheManager)
    (d : StateDir) : SyncCacheManager × StateDir :=
  if !m.dirty then (m, d)
  else if m.db then
    match saveAllCaches d.syncCaches (m.rows T order) faults.transaction with
    | none => ({ m with dirty := false }, d)
    | some t => ({ m with dirty := false }, { d with syncCaches := t })
  else if faults.negativeFile then ({ m with dirty := false }, d)
  else if faults.fullpackFile then
    ({ m with dirty := false }, { d with noMkvHashes := some (m.negativeDocument T order) })
  else
    ({ m with dirty := false },
      { d with
        noMkvHashes := some (m.negativeDocument T order)
        tvFullpacks := some (m.fullpackDocument T order) })

end Saving

def sub (now t : ℤ) : ℤ := max (-2 ^ 63) (min (2 ^ 63 - 1) (now - t))

def SyncCacheManager.clearNegativeCache (m : SyncCacheManager) (hash : Bytes) : SyncCacheManager :=
  if (m.negativeCache.lookup hash).isSome then
    { m with negativeCache := AList.erase hash m.negativeCache, dirty := true }
  else m

def SyncCacheManager.clearFullpackCache (m : SyncCacheManager) (hash : Bytes) : SyncCacheManager :=
  if (m.fullpackCache.lookup hash).isSome then
    { m with fullpackCache := AList.erase hash m.fullpackCache, dirty := true }
  else m

def removeStale {α : Type} (stale : α → Bool) (d : Dict Bytes α) : Dict Bytes α :=
  d.items.foldl (fun d x => if stale x.2 then AList.erase x.1 d else d) d

def NegativeCacheEntry.stale (now ttl : ℤ) (e : NegativeCacheEntry) : Bool :=
  ttl < sub now e.timestamp

def FullpackCacheEntry.stale (now ttl : ℤ) (e : FullpackCacheEntry) : Bool :=
  ttl < sub now e.processedAt

def SyncCacheManager.cleanupStaleEntries (m : SyncCacheManager) (now negativeTTL fullpackTTL : ℤ) :
    SyncCacheManager :=
  let removed := m.negativeCache.items.countP (fun x => x.2.stale now negativeTTL) +
    m.fullpackCache.items.countP fun x => x.2.stale now fullpackTTL
  { m with
    negativeCache := removeStale (NegativeCacheEntry.stale now negativeTTL) m.negativeCache
    fullpackCache := removeStale (FullpackCacheEntry.stale now fullpackTTL) m.fullpackCache
    dirty := m.dirty || 0 < removed }

section Loading

variable (T : Texts)

def CacheRow.negativeEntry (r : CacheRow) : Option (Bytes × Option StoredNegative) :=
  if r.cacheType = .negative then some (r.hash, r.title.map fun _ => ⟨r.hash, r.timestamp⟩)
  else none

def CacheRow.fullpackEntry (r : CacheRow) : Option (Bytes × Option StoredFullpack) :=
  if r.cacheType = .fullpack then
    some (r.hash, r.title.map fun title => ⟨r.hash, title, r.timestamp⟩)
  else none

def loadAllCaches (t : Table CacheRow CacheRow.Clash) :
    Option (Dict Bytes StoredNegative × Dict Bytes StoredFullpack) := do
  let neg ← Dict.ofEntries? (t.rows.filterMap CacheRow.negativeEntry)
  let full ← Dict.ofEntries? (t.rows.filterMap CacheRow.fullpackEntry)
  some (neg, full)

def matchField {φ : Type} (tags : List (Bytes × φ)) (name : Bytes) : Option φ :=
  ((tags.find? fun f => f.1 = name).or
    (tags.find? fun f => asciiLower f.1 = asciiLower name)).map Prod.snd

inductive NegativeField
  | hash
  | timestamp
  deriving DecidableEq

def negativeTags : List (Bytes × NegativeField) :=
  [(ascii "hash", .hash), (ascii "timestamp", .timestamp)]

def decodeNegative (members : List (Bytes × Bytes)) : Option NegativeCacheEntry :=
  members.foldlM (fun e f =>
    match matchField negativeTags f.1 with
    | some .hash => some { e with hash := f.2 }
    | some .timestamp => (T.parse f.2).map fun t => { e with timestamp := t }
    | none => some e) ⟨[], 0⟩

inductive FullpackField
  | hash
  | title
  | processedAt
  deriving DecidableEq

def fullpackTags : List (Bytes × FullpackField) :=
  [(ascii "hash", .hash), (ascii "title", .title), (ascii "processed_at", .processedAt)]

def decodeFullpack (members : List (Bytes × Bytes)) : Option FullpackCacheEntry :=
  members.foldlM (fun e f =>
    match matchField fullpackTags f.1 with
    | some .hash => some { e with hash := f.2 }
    | some .title => some { e with title := f.2 }
    | some .processedAt => (T.parse f.2).map fun t => { e with processedAt := t }
    | none => some e) ⟨[], [], 0⟩

def readDocument {α : Type} (decode : List (Bytes × Bytes) → Option α) (file : Option Document) :
    Dict Bytes α :=
  (file.bind fun doc => Dict.ofEntries? (doc.map fun x => (x.1, decode x.2))).getD ∅

def SyncCacheManager.loadFromJSON (m : SyncCacheManager) (d : StateDir) : SyncCacheManager :=
  { m with
    negativeCache := readDocument (decodeNegative T) d.noMkvHashes
    fullpackCache := readDocument (decodeFullpack T) d.tvFullpacks }

def SyncCacheManager.loadCachesFromDisk (m : SyncCacheManager) (d : StateDir) (fails : Bool) :
    SyncCacheManager :=
  if m.db then
    match if fails then none else loadAllCaches d.syncCaches with
    | none => m.loadFromJSON T d
    | some (neg, full) =>
      { m with
        negativeCache := neg.mapValues fun e => ⟨e.hash, (T.parse e.timestamp).getD 0⟩
        fullpackCache := full.mapValues fun e => ⟨e.hash, e.title, (T.parse e.timestamp).getD 0⟩ }
  else m.loadFromJSON T d

end Loading

end GoStream.SyncCache
