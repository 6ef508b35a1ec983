import GoStream.Foundations.SliceSort
import GoStream.Metadb.Tables

/-!
# The alternatives of a content item
-/

namespace GoStream.Metadb

open Foundations

abbrev Alternatives := Table TorrentAlternative TorrentAlternative.Clash

structure HealthColumns where
  status : AlternativeStatus
  avgSpeedKBps : Int64
  seeders : ℤ
  lastHealthCheck : Int64
  replacementCount : ℤ

namespace TorrentAlternative

variable (a : TorrentAlternative)

def columns : HealthColumns :=
  ⟨a.status, a.avgSpeedKBps, a.seeders, a.lastHealthCheck, a.replacementCount⟩

def withColumns (c : HealthColumns) : TorrentAlternative :=
  { a with
    status := c.status
    avgSpeedKBps := c.avgSpeedKBps
    seeders := c.seeders
    lastHealthCheck := c.lastHealthCheck
    replacementCount := c.replacementCount }

def isRow (contentID hash : Bytes) : Bool := a.contentID = contentID && a.hash = hash

def update (contentID hash : Bytes) (f : HealthColumns → HealthColumns) : TorrentAlternative :=
  if a.isRow contentID hash then a.withColumns (f a.columns) else a

variable {a}

theorem update_key (contentID hash : Bytes) (f : HealthColumns → HealthColumns) :
    (a.update contentID hash f).contentID = a.contentID ∧
      (a.update contentID hash f).hash = a.hash ∧ (a.update contentID hash f).rank = a.rank := by
  unfold update
  split_ifs
  · exact ⟨rfl, rfl, rfl⟩
  · exact ⟨rfl, rfl, rfl⟩

theorem update_update (contentID hash : Bytes) (f g : HealthColumns → HealthColumns) :
    (a.update contentID hash f).update contentID hash g = a.update contentID hash (g ∘ f) := by
  unfold update
  split_ifs with h h'
  · rfl
  · exact absurd h h'
  · rfl

end TorrentAlternative

namespace Alternatives

variable (t : Alternatives)

def update (contentID hash : Bytes) (f : HealthColumns → HealthColumns) : Alternatives :=
  t.mapRows (fun a => a.update contentID hash f) (by
    intro a b h
    have ha := a.update_key contentID hash f
    have hb := b.update_key contentID hash f
    rwa [TorrentAlternative.Clash, ha.1, ha.2.1, hb.1, hb.2.1] at h)

def updateAlternativeStatus (contentID hash : Bytes) (status : AlternativeStatus) : Alternatives :=
  update t contentID hash fun c => { c with status := status }

def updateAlternativeHealth (contentID hash : Bytes) (status : AlternativeStatus)
    (speedKBps : Int64) (seeders : ℤ) (nowUnix : Int64) : Alternatives :=
  update t contentID hash fun c =>
    { c with
      status := status
      avgSpeedKBps := speedKBps
      seeders := seeders
      lastHealthCheck := nowUnix }

def incrementReplacementCount (contentID hash : Bytes) : Alternatives :=
  update t contentID hash fun c => { c with replacementCount := c.replacementCount + 1 }

def saveAlternativesForContent (contentID : Bytes) (alts : List TorrentAlternative) :
    Alternatives :=
  ((t.deleteWhere fun a => a.contentID = contentID).insertAll? alts).getD t

variable (S : SliceSort)

def getNextBestAlternative (contentID currentHash : Bytes) : Option TorrentAlternative :=
  (S.sort (fun a b => a.rank < b.rank) (t.rows.filter fun a =>
    a.contentID = contentID && a.hash ≠ currentHash && a.status = .active)).head?

def getUnhealthyAlternatives : List TorrentAlternative :=
  S.sort (fun a b => a.lastHealthCheck < b.lastHealthCheck) (t.rows.filter fun a =>
    a.status = .dead || a.status = .verifiedSlow)

variable {t S}

theorem update_update (t : Alternatives) (contentID hash : Bytes)
    (f g : HealthColumns → HealthColumns) :
    update (update t contentID hash f) contentID hash g = update t contentID hash (g ∘ f) := by
  simp only [update, Table.mapRows, List.map_map, Function.comp_def,
    TorrentAlternative.update_update]

theorem find?_update (t : Alternatives) (contentID hash : Bytes)
    (f : HealthColumns → HealthColumns) :
    (update t contentID hash f).rows.find? (fun a => a.isRow contentID hash) =
      (t.rows.find? fun a => a.isRow contentID hash).map fun a => a.withColumns (f a.columns) := by
  have hkey : (fun a : TorrentAlternative => a.isRow contentID hash) ∘
      (fun a : TorrentAlternative => a.update contentID hash f) = fun a => a.isRow contentID hash := by
    funext a
    obtain ⟨hid, hhash, -⟩ := a.update_key contentID hash f
    rw [Function.comp_apply, TorrentAlternative.isRow, hid, hhash, TorrentAlternative.isRow]
  have hrows : (update t contentID hash f).rows =
      t.rows.map fun a => a.update contentID hash f := rfl
  rw [hrows, List.find?_map, hkey]
  cases hrow : t.rows.find? fun a => a.isRow contentID hash with
  | none => rfl
  | some a =>
    have ha := List.find?_some hrow
    rw [Option.map_some, Option.map_some, TorrentAlternative.update, if_pos ha]

theorem of_mem_update {contentID hash : Bytes} {f : HealthColumns → HealthColumns}
    {r : TorrentAlternative} (h : r ∈ (update t contentID hash f).rows) :
    (∃ a ∈ t.rows, r.contentID = contentID ∧ r.hash = hash ∧ r = a.withColumns (f a.columns)) ∨
      r ∈ t.rows ∧ ¬ (r.contentID = contentID ∧ r.hash = hash) := by
  obtain ⟨a, ha, rfl⟩ := List.mem_map.mp h
  rw [TorrentAlternative.update]
  split_ifs with hrow
  · rw [TorrentAlternative.isRow, Bool.and_eq_true, decide_eq_true_eq, decide_eq_true_eq] at hrow
    exact .inl ⟨a, ha, hrow.1, hrow.2, rfl⟩
  · refine .inr ⟨ha, fun hkey => hrow ?_⟩
    rw [TorrentAlternative.isRow, Bool.and_eq_true, decide_eq_true_eq, decide_eq_true_eq]
    exact hkey

theorem exists_update {a : TorrentAlternative} (ha : a ∈ t.rows) (contentID hash : Bytes)
    (f : HealthColumns → HealthColumns) : ∃ b ∈ (update t contentID hash f).rows,
      b.contentID = a.contentID ∧ b.hash = a.hash ∧ b.rank = a.rank :=
  ⟨_, List.mem_map_of_mem ha, a.update_key contentID hash f⟩

theorem of_getNextBestAlternative {contentID currentHash : Bytes} {a : TorrentAlternative}
    (h : getNextBestAlternative t S contentID currentHash = some a) :
    a ∈ t.rows ∧ a.contentID = contentID ∧ a.hash ≠ currentHash ∧ a.status = .active := by
  have hmem := (S.mem_sort _).mp (List.mem_of_mem_head? h)
  simpa [and_assoc] using hmem

theorem mem_getUnhealthyAlternatives {a : TorrentAlternative} :
    a ∈ getUnhealthyAlternatives t S ↔
      a ∈ t.rows ∧ (a.status = .dead ∨ a.status = .verifiedSlow) := by
  rw [getUnhealthyAlternatives, S.mem_sort]
  simp

theorem pairwise_getUnhealthyAlternatives :
    (getUnhealthyAlternatives t S).Pairwise fun a b => ¬ a.Clash b := by
  apply (S.perm _ _).symm.pairwise (t.unique.filter _)
  exact fun h hba => h ⟨hba.1.symm, hba.2.symm⟩

theorem of_mem_saveAlternativesForContent {contentID : Bytes} {alts : List TorrentAlternative}
    {a : TorrentAlternative} (h : a ∈ (saveAlternativesForContent t contentID alts).rows) :
    a ∈ t.rows ∨ a ∈ alts := by
  unfold saveAlternativesForContent at h
  cases hins : (t.deleteWhere fun a => a.contentID = contentID).insertAll? alts with
  | none =>
    rw [hins] at h
    exact .inl h
  | some t' =>
    rw [hins] at h
    rcases Table.mem_of_mem_insertAll? hins h with h | h
    · exact .inl (List.mem_of_mem_filter h)
    · exact .inr h

end Alternatives

end GoStream.Metadb
