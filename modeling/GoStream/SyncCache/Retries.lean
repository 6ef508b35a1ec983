import GoStream.SyncCache.Manager

/-!
# Saves that fail
-/

namespace GoStream.SyncCache

open Foundations Metadb

structure System where
  manager : SyncCacheManager
  dir : StateDir

inductive Op
  | clearNegativeCache (hash : Bytes)
  | clearFullpackCache (hash : Bytes)
  | cleanupStaleEntries (now negativeTTL fullpackTTL : ℤ)
  | syncToDisk (order : MapOrder) (faults : Faults)

section Steps

variable (T : Texts)

def System.step (s : System) : Op → System
  | .clearNegativeCache hash => { s with manager := s.manager.clearNegativeCache hash }
  | .clearFullpackCache hash => { s with manager := s.manager.clearFullpackCache hash }
  | .cleanupStaleEntries now negativeTTL fullpackTTL =>
    { s with manager := s.manager.cleanupStaleEntries now negativeTTL fullpackTTL }
  | .syncToDisk order faults =>
    let r := s.manager.syncToDisk T order faults s.dir
    ⟨r.1, r.2⟩

def System.NegativeSaved (s : System) : Prop :=
  if s.manager.db then
    ∀ r : CacheRow, r.cacheType = .negative → (r ∈ s.dir.syncCaches.rows ↔
      ∃ x ∈ s.manager.negativeCache.items, (storedNegative T x).row = r)
  else
    ∀ y, y ∈ s.dir.noMkvHashes.getD [] ↔
      ∃ x ∈ s.manager.negativeCache.items, (storedNegative T x).member T = y

def System.FullpackSaved (s : System) : Prop :=
  if s.manager.db then
    ∀ r : CacheRow, r.cacheType = .fullpack → (r ∈ s.dir.syncCaches.rows ↔
      ∃ x ∈ s.manager.fullpackCache.items, (storedFullpack T x).row = r)
  else
    ∀ y, y ∈ s.dir.tvFullpacks.getD [] ↔
      ∃ x ∈ s.manager.fullpackCache.items, (storedFullpack T x).member T = y

def System.Saved (s : System) : Prop := s.NegativeSaved T ∧ s.FullpackSaved T

def System.Marked (s : System) : Prop := s.manager.dirty = true ∨ s.Saved T

def Faults.losesNegative (faults : Faults) (db : Bool) : Bool :=
  if db then faults.transaction else faults.negativeFile

def Faults.losesFullpack (faults : Faults) (db : Bool) : Bool :=
  if db then faults.transaction else faults.negativeFile || faults.fullpackFile

def System.Harmless (s : System) : Op → Prop
  | .syncToDisk _ faults => s.manager.dirty = true →
      (faults.losesNegative s.manager.db = true → s.NegativeSaved T) ∧
        (faults.losesFullpack s.manager.db = true → s.FullpackSaved T)
  | _ => True

end Steps

variable {T : Texts} {s : System} {m : SyncCacheManager} {d : StateDir} {order : MapOrder}
variable {faults : Faults}

theorem mem_rows {r : CacheRow} : r ∈ m.rows T order ↔
    (∃ x ∈ m.negativeCache.items, (storedNegative T x).row = r) ∨
      ∃ x ∈ m.fullpackCache.items, (storedFullpack T x).row = r := by
  simp only [SyncCacheManager.rows, List.mem_append, List.mem_map, order.mem_arrange]

theorem pairwise_hash_ne {α : Type} (d : Dict Bytes α) (order : MapOrder) :
    (order.arrange d.items).Pairwise fun x y => x.1 ≠ y.1 :=
  List.pairwise_map.mp (Dict.nodup_keys_of_perm (order.perm d.items))

theorem rows_pairwise (m : SyncCacheManager) (order : MapOrder) :
    (m.rows T order).Pairwise fun a b => ¬ CacheRow.Clash a b := by
  rw [SyncCacheManager.rows, List.pairwise_append, List.pairwise_map, List.pairwise_map]
  constructor
  · exact (pairwise_hash_ne _ order).imp fun hne hclash => hne hclash.1
  constructor
  · exact (pairwise_hash_ne _ order).imp fun hne hclash => hne hclash.1
  · intro a ha b hb hclash
    obtain ⟨x, -, rfl⟩ := List.mem_map.mp ha
    obtain ⟨y, -, rfl⟩ := List.mem_map.mp hb
    cases hclash.2

theorem saveAllCaches_rows (t : Table CacheRow CacheRow.Clash) (m : SyncCacheManager)
    (order : MapOrder) :
    ∃ t', saveAllCaches t (m.rows T order) false = some t' ∧ t'.rows = m.rows T order := by
  have hempty : (t.deleteWhere fun _ => true).rows = [] := by simp [Table.deleteWhere]
  have hpairwise : ((t.deleteWhere fun _ => true).rows ++ m.rows T order).Pairwise
      fun a b => ¬ CacheRow.Clash a b := by
    rw [hempty]
    exact rows_pairwise m order
  obtain ⟨t', ht', hrows⟩ := Table.insertAll?_of_pairwise hpairwise
  rw [hempty] at hrows
  exact ⟨t', ht', hrows⟩

theorem syncToDisk_db (T : Texts) (order : MapOrder) (d : StateDir) (hdirty : m.dirty = true)
    (hdb : m.db = true) (hok : faults.transaction = false) :
    ∃ t : Table CacheRow CacheRow.Clash, t.rows = m.rows T order ∧
      m.syncToDisk T order faults d = ({ m with dirty := false }, { d with syncCaches := t }) := by
  obtain ⟨t, ht, hrows⟩ := saveAllCaches_rows (T := T) d.syncCaches m order
  exact ⟨t, hrows, by simp [SyncCacheManager.syncToDisk, hdirty, hdb, hok, ht]⟩

theorem syncToDisk_json (d : StateDir) (hdirty : m.dirty = true) (hdb : m.db = false)
    (hneg : faults.negativeFile = false) (hfull : faults.fullpackFile = false) :
    m.syncToDisk T order faults d = ({ m with dirty := false },
      { d with
        noMkvHashes := some (m.negativeDocument T order)
        tvFullpacks := some (m.fullpackDocument T order) }) := by
  simp [SyncCacheManager.syncToDisk, hdirty, hdb, hneg, hfull]

theorem negativeSaved_of_rows {t : Table CacheRow CacheRow.Clash} (hdb : m.db = true)
    (ht : t.rows = m.rows T order) (hdir : d.syncCaches = t) :
    System.NegativeSaved T ⟨m, d⟩ := by
  rw [System.NegativeSaved, if_pos hdb]
  intro r htype
  rw [hdir, ht, mem_rows, or_iff_left]
  rintro ⟨x, -, rfl⟩
  cases htype

theorem fullpackSaved_of_rows {t : Table CacheRow CacheRow.Clash} (hdb : m.db = true)
    (ht : t.rows = m.rows T order) (hdir : d.syncCaches = t) :
    System.FullpackSaved T ⟨m, d⟩ := by
  rw [System.FullpackSaved, if_pos hdb]
  intro r htype
  rw [hdir, ht, mem_rows, or_iff_right]
  rintro ⟨x, -, rfl⟩
  cases htype

theorem negativeSaved_of_document (hdb : m.db = false)
    (hdir : d.noMkvHashes = some (m.negativeDocument T order)) :
    System.NegativeSaved T ⟨m, d⟩ := by
  rw [System.NegativeSaved, if_neg (by simp [hdb])]
  intro y
  simp only [hdir, Option.getD_some, SyncCacheManager.negativeDocument, List.mem_map,
    order.mem_arrange]

theorem fullpackSaved_of_document (hdb : m.db = false)
    (hdir : d.tvFullpacks = some (m.fullpackDocument T order)) :
    System.FullpackSaved T ⟨m, d⟩ := by
  rw [System.FullpackSaved, if_neg (by simp [hdb])]
  intro y
  simp only [hdir, Option.getD_some, SyncCacheManager.fullpackDocument, List.mem_map,
    order.mem_arrange]

theorem syncToDisk_effect (T : Texts) (order : MapOrder) (faults : Faults) (d : StateDir)
    (hdirty : m.dirty = true) :
    (m.syncToDisk T order faults d).1 = { m with dirty := false } ∧
    (System.NegativeSaved T ⟨{ m with dirty := false }, (m.syncToDisk T order faults d).2⟩ ↔
      (faults.losesNegative m.db = true → System.NegativeSaved T ⟨m, d⟩)) ∧
    (System.FullpackSaved T ⟨{ m with dirty := false }, (m.syncToDisk T order faults d).2⟩ ↔
      (faults.losesFullpack m.db = true → System.FullpackSaved T ⟨m, d⟩)) := by
  by_cases hdb : m.db = true
  · simp only [Faults.losesNegative, Faults.losesFullpack, if_pos hdb]
    cases hfail : faults.transaction with
    | true =>
      have hsync : m.syncToDisk T order faults d = ({ m with dirty := false }, d) := by
        simp [SyncCacheManager.syncToDisk, hdirty, hdb, hfail, saveAllCaches]
      simp only [hsync, forall_const]
      exact ⟨trivial, Iff.rfl, Iff.rfl⟩
    | false =>
      obtain ⟨t, hrows, hsync⟩ := syncToDisk_db T order d hdirty hdb hfail
      simp only [hsync, Bool.false_eq_true, false_imp_iff, iff_true]
      exact ⟨trivial, negativeSaved_of_rows hdb hrows rfl, fullpackSaved_of_rows hdb hrows rfl⟩
  · simp only [Faults.losesNegative, Faults.losesFullpack, if_neg hdb]
    rw [Bool.not_eq_true] at hdb
    cases hneg : faults.negativeFile with
    | true =>
      have hsync : m.syncToDisk T order faults d = ({ m with dirty := false }, d) := by
        simp [SyncCacheManager.syncToDisk, hdirty, hdb, hneg]
      simp only [hsync, Bool.true_or, forall_const]
      exact ⟨trivial, Iff.rfl, Iff.rfl⟩
    | false =>
      cases hfull : faults.fullpackFile with
      | true =>
        -- the first file is new, the second one is not
        have hsync : m.syncToDisk T order faults d =
            ({ m with dirty := false },
              { d with noMkvHashes := some (m.negativeDocument T order) }) := by
          simp [SyncCacheManager.syncToDisk, hdirty, hdb, hneg, hfull]
        simp only [hsync, Bool.false_eq_true, false_imp_iff, iff_true, Bool.false_or, forall_const]
        exact ⟨trivial, negativeSaved_of_document hdb rfl, Iff.rfl⟩
      | false =>
        simp only [syncToDisk_json d hdirty hdb hneg hfull, Bool.false_eq_true, false_imp_iff,
          iff_true, Bool.false_or]
        exact ⟨trivial, negativeSaved_of_document hdb rfl, fullpackSaved_of_document hdb rfl⟩

theorem syncToDisk_clean (hclean : m.dirty = false) : m.syncToDisk T order faults d = (m, d) := by
  simp [SyncCacheManager.syncToDisk, hclean]

theorem removeStale_eq_self {α : Type} (stale : α → Bool) {d : Dict Bytes α}
    (h : d.items.countP (fun x => stale x.2) = 0) : removeStale stale d = d := by
  have hfresh : ∀ x ∈ d.items, stale x.2 = false := by
    simpa [List.countP_eq_zero] using h
  unfold removeStale
  generalize d.items = l at hfresh
  induction l with
  | nil => rfl
  | cons x l ih =>
    rw [List.foldl_cons, if_neg (by simp [hfresh x (by simp)])]
    exact ih fun y hy => hfresh y (by simp [hy])

theorem cleanup_dirty_or_eq (m : SyncCacheManager) (now negativeTTL fullpackTTL : ℤ) :
    (m.cleanupStaleEntries now negativeTTL fullpackTTL).dirty = true ∨
      m.cleanupStaleEntries now negativeTTL fullpackTTL = m := by
  by_cases h : (m.cleanupStaleEntries now negativeTTL fullpackTTL).dirty = true
  · exact .inl h
  · have hclean := h
    simp only [SyncCacheManager.cleanupStaleEntries, Bool.or_eq_true, decide_eq_true_eq, not_or,
      Nat.not_lt, Nat.le_zero, Nat.add_eq_zero_iff, Bool.not_eq_true] at hclean
    obtain ⟨hdirty, hneg, hfull⟩ := hclean
    right
    unfold SyncCacheManager.cleanupStaleEntries
    rw [removeStale_eq_self _ hneg, removeStale_eq_self _ hfull, hneg, hfull]
    simp

theorem step_marked_iff (s : System) (op : Op) (hs : s.Marked T) :
    (s.step T op).Marked T ↔ s.Harmless T op := by
  cases op with
  | clearNegativeCache hash =>
    apply iff_of_true _ trivial
    unfold System.step SyncCacheManager.clearNegativeCache
    dsimp only
    split_ifs
    · exact .inl rfl
    · exact hs
  | clearFullpackCache hash =>
    apply iff_of_true _ trivial
    unfold System.step SyncCacheManager.clearFullpackCache
    dsimp only
    split_ifs
    · exact .inl rfl
    · exact hs
  | cleanupStaleEntries now negativeTTL fullpackTTL =>
    apply iff_of_true _ trivial
    rcases cleanup_dirty_or_eq s.manager now negativeTTL fullpackTTL with hdirty | heq
    · exact .inl hdirty
    · unfold System.step
      dsimp only
      rw [heq]
      exact hs
  | syncToDisk order faults =>
    cases hdirty : s.manager.dirty with
    | false =>
      have hstep : s.step T (.syncToDisk order faults) = s := by
        simp [System.step, syncToDisk_clean hdirty]
      rw [hstep]
      exact iff_of_true hs (by simp [System.Harmless, hdirty])
    | true =>
      obtain ⟨hmanager, hneg, hfull⟩ := syncToDisk_effect T order faults s.dir hdirty
      have hclean : (s.step T (.syncToDisk order faults)).manager.dirty ≠ true := by
        simp [System.step, hmanager]
      rw [System.Marked, or_iff_right hclean, System.Saved, System.Harmless, System.step, hmanager,
        hneg, hfull]
      simp [hdirty]

theorem saved_after_sync_iff (s : System) (order : MapOrder) :
    (s.step T (.syncToDisk order .none)).Saved T ↔ s.Marked T := by
  cases hdirty : s.manager.dirty with
  | false =>
    have hstep : s.step T (.syncToDisk order .none) = s := by
      simp [System.step, syncToDisk_clean hdirty]
    simp [hstep, System.Marked, hdirty]
  | true =>
    obtain ⟨hmanager, hneg, hfull⟩ := syncToDisk_effect T order .none s.dir hdirty
    apply iff_of_true _ (.inl hdirty)
    rw [System.Saved, System.step, hmanager, hneg, hfull]
    simp [Faults.losesNegative, Faults.losesFullpack, Faults.none]

/-- When a save that succeeds has stored the memory. -/
theorem saved_after_sync_run_iff (T : Texts) (s : System) (hs : s.Marked T) (ops : List Op) :
    (∀ pre, pre <+: ops → ∀ order : MapOrder,
      ((run (System.step T) s pre).step T (.syncToDisk order .none)).Saved T) ↔
    Meets (System.Harmless T) (System.step T) s ops := by
  rw [← good_iff_meets (System.Marked T) (fun s op hs => step_marked_iff s op hs) hs ops]
  constructor
  · intro h pre hpre
    exact (saved_after_sync_iff _ .listed).mp (h pre hpre .listed)
  · intro h pre hpre order
    exact (saved_after_sync_iff _ order).mpr (h pre hpre)

def heldHash : Bytes := ascii "0123456789abcdef"

def unsaved (db : Bool) : System where
  manager := ⟨db, AList.singleton heldHash ⟨heldHash, 5 * second⟩, ∅, true⟩
  dir := ⟨.empty, none, none⟩

def allFail : Faults := ⟨true, true, true⟩

theorem saved_after_sync_run_clean_fault :
    (unsaved true).manager.dirty = true ∧
    ∀ pre, pre <+: [Op.syncToDisk .listed .none, .clearNegativeCache heldHash,
        .syncToDisk .listed .none, .syncToDisk .listed allFail] →
      ∀ order : MapOrder, ((run (System.step .seconds) (unsaved true) pre).step .seconds
        (.syncToDisk order .none)).Saved .seconds := by
  refine ⟨rfl, ?_⟩
  rw [saved_after_sync_run_iff .seconds _ (.inl rfl)]
  have hnone : ∀ s : System, s.Harmless .seconds (.syncToDisk .listed .none) := by
    intro s _
    simp [Faults.losesNegative, Faults.losesFullpack, Faults.none]
  refine ⟨hnone _, trivial, hnone _, ?_, trivial⟩
  intro hdirty
  exact absurd hdirty (by decide +kernel)

def afterFault (db : Bool) : System :=
  run (System.step .seconds) (unsaved db)
    [.syncToDisk .listed .none, .clearNegativeCache heldHash, .syncToDisk .listed allFail,
      .syncToDisk .listed .none]

theorem cleared_hash_still_stored :
    (afterFault true).manager.negativeCache.items = [] ∧
    (afterFault true).dir.syncCaches.rows.map CacheRow.hash = [heldHash] ∧
    (afterFault false).manager.negativeCache.items = [] ∧
    (afterFault false).dir.noMkvHashes.map (List.map Prod.fst) = some [heldHash] := by
  decide +kernel

end GoStream.SyncCache
