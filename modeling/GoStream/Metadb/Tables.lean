import GoStream.Foundations.Maps
import GoStream.Foundations.Table
import GoStream.Foundations.Text

/-!
# The tables of the state database
-/

namespace GoStream.Metadb

open Foundations

def SameValue (a b : Option Bytes) : Prop := a.isSome ∧ a = b

instance : DecidableRel SameValue := fun a b => inferInstanceAs (Decidable (a.isSome ∧ a = b))

inductive InodeType
  | file
  | dir
  deriving DecidableEq

structure InodeRow where
  type : InodeType
  infohash : Option Bytes
  fileIdx : Option Int64
  fullPath : Option Bytes
  relPath : Option Bytes
  basename : Option Bytes
  inodeValue : Int64
  deriving DecidableEq

def InodeRow.Clash (a b : InodeRow) : Prop :=
  (a.type = b.type ∧ SameValue a.fullPath b.fullPath) ∨
    SameValue a.fullPath b.fullPath ∨ SameValue a.relPath b.relPath

instance : DecidableRel InodeRow.Clash := fun _ _ => inferInstanceAs (Decidable (_ ∨ _))

inductive CacheType
  | negative
  | fullpack
  deriving DecidableEq

structure CacheRow where
  hash : Bytes
  cacheType : CacheType
  title : Option Bytes
  timestamp : Bytes
  deriving DecidableEq

def CacheRow.Clash (a b : CacheRow) : Prop := a.hash = b.hash ∧ a.cacheType = b.cacheType

instance : DecidableRel CacheRow.Clash := fun _ _ => inferInstanceAs (Decidable (_ ∧ _))

structure EpisodeRow where
  episodeKey : Bytes
  qualityScore : ℤ
  hash : Bytes
  filePath : Bytes
  source : Bytes
  created : Int64
  deriving DecidableEq

def EpisodeRow.Clash (a b : EpisodeRow) : Prop := a.episodeKey = b.episodeKey

instance : DecidableRel EpisodeRow.Clash := fun _ _ => inferInstanceAs (Decidable (_ = _))

inductive ContentType
  | tv
  | movie
  deriving DecidableEq

inductive AlternativeStatus
  | active
  | testedNoBetter
  | verifiedHealthy
  | verifiedSlow
  | dead
  deriving DecidableEq

structure TorrentAlternative where
  contentID : Bytes
  contentType : ContentType
  rank : ℤ
  hash : Bytes
  title : Bytes
  size : Int64
  seeders : ℤ
  qualityScore : ℤ
  status : AlternativeStatus
  lastHealthCheck : Int64
  avgSpeedKBps : Int64
  replacementCount : ℤ
  deriving DecidableEq

def TorrentAlternative.Clash (a b : TorrentAlternative) : Prop :=
  a.contentID = b.contentID ∧ a.hash = b.hash

instance : DecidableRel TorrentAlternative.Clash := fun _ _ => inferInstanceAs (Decidable (_ ∧ _))

structure DB where
  inodes : Table InodeRow InodeRow.Clash
  syncCaches : Table CacheRow CacheRow.Clash
  tvEpisodes : Table EpisodeRow EpisodeRow.Clash
  torrentAlternatives : Table TorrentAlternative TorrentAlternative.Clash

def DB.new : DB := ⟨.empty, .empty, .empty, .empty⟩

def pathBase (p : Bytes) : Bytes := afterLast 47 p

structure InodeEntry where
  type : InodeType
  infohash : Bytes
  fileIdx : Int64
  fullPath : Bytes
  relPath : Bytes
  basename : Bytes
  inodeValue : UInt64
  deriving DecidableEq

def InodeRow.scan (r : InodeRow) : Option InodeEntry :=
  r.fullPath.map fun fullPath =>
    { type := r.type
      infohash := r.infohash.getD []
      fileIdx := r.fileIdx.getD 0
      fullPath := fullPath
      relPath := r.relPath.getD []
      basename := r.basename.getD []
      inodeValue := r.inodeValue.toUInt64 }

def DB.loadAll (order : MapOrder) (d : DB) : Option (List InodeEntry) :=
  (order.arrange d.inodes.rows).mapM InodeRow.scan

theorem DB.loadAll_eq (order : MapOrder) {d : DB} (h : ∀ r ∈ d.inodes.rows, r.fullPath.isSome) :
    ∃ es, d.loadAll order = some es ∧ ∀ e, e ∈ es ↔ ∃ r ∈ d.inodes.rows, r.scan = some e := by
  have hall : ∀ l : List InodeRow, (∀ r ∈ l, r.fullPath.isSome) →
      l.mapM InodeRow.scan = some (l.filterMap InodeRow.scan) := by
    intro l hl
    induction l with
    | nil => rfl
    | cons r l ih =>
      obtain ⟨p, hp⟩ := Option.isSome_iff_exists.mp (hl r (by simp))
      simp [InodeRow.scan, hp, ih fun r hr => hl r (by simp [hr])]
  refine ⟨_, hall _ fun r hr => h r (order.mem_arrange.mp hr), fun e => ?_⟩
  simp only [List.mem_filterMap, order.mem_arrange]

end GoStream.Metadb
