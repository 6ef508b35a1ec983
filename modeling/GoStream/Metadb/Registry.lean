import GoStream.Metadb.Migration

/-!
# The episode registry and its two back ends
-/

namespace GoStream.Metadb

open Foundations

namespace Registry

inductive Save
  | saved
  | notOpened
  | cut

def Save.result {α : Type} (content : α) (old : Stored α) : Save → Stored α
  | .saved => .parsed content
  | .notOpened => old
  | .cut => .unparsable

structure Surroundings where
  order : MapOrder
  fileExists : Bytes → Bool
  queryFails : Bool
  deleteFails : Bytes → Bool
  save : Save

structure Surroundings.Calm (env : Surroundings) : Prop where
  query : env.queryFails = false
  delete : ∀ key, env.deleteFails key = false
  save : env.save = .saved

abbrev Episodes := Table EpisodeRow EpisodeRow.Clash

inductive Store
  | db (table : Episodes) (file : Stored (Dict Bytes EpisodeEntryJSON))
  | json (file : Stored (Dict Bytes EpisodeEntryJSON))

end Registry

def EpisodeRow.entry (r : EpisodeRow) : EpisodeEntryJSON :=
  ⟨r.qualityScore, r.hash, r.filePath, r.source, r.created⟩

namespace Registry

section Model

variable (env : Surroundings)

def deleteEpisode (table : Episodes) (key : Bytes) : Episodes :=
  if env.deleteFails key then table else table.deleteWhere fun r => r.episodeKey = key

def deleteEpisodes (table : Episodes) (p : EpisodeRow → Bool) : Episodes :=
  if env.queryFails then table
  else
    ((env.order.arrange (table.rows.filter p)).map EpisodeRow.episodeKey).foldl (deleteEpisode env)
      table

def syncRegistryWithDB (table : Episodes) (file : Stored (Dict Bytes EpisodeEntryJSON)) : Episodes :=
  if !file.fileExists then table else deleteEpisodes env table fun r => !env.fileExists r.filePath

def syncRegistryWithJSON : Stored (Dict Bytes EpisodeEntryJSON) → Stored (Dict Bytes EpisodeEntryJSON)
  | .parsed registry =>
    let entries := env.order.arrange registry.items
    let newRegistry := Dict.ofItems (entries.filter fun e => env.fileExists e.2.filePath)
    let removed := entries.countP fun e => !env.fileExists e.2.filePath
    if removed = 0 then .parsed registry else env.save.result newRegistry (.parsed registry)
  | file => file

def removeFromRegistryDB (table : Episodes) (filePath : Bytes) : Episodes :=
  deleteEpisodes env table fun r => r.filePath = filePath

def removeFromRegistryJSON (filePath : Bytes) :
    Stored (Dict Bytes EpisodeEntryJSON) → Stored (Dict Bytes EpisodeEntryJSON)
  | .parsed registry =>
    match (env.order.arrange registry.items).find? fun e => e.2.filePath = filePath with
    | some e => env.save.result (AList.erase e.1 registry) (.parsed registry)
    | none => .parsed registry
  | file => file

def Store.syncRegistryWithDisk : Store → Store
  | .db table file => .db (syncRegistryWithDB env table file) file
  | .json file => .json (syncRegistryWithJSON env file)

def Store.removeFromRegistry (filePath : Bytes) : Store → Store
  | .db table file => .db (removeFromRegistryDB env table filePath) file
  | .json file => .json (removeFromRegistryJSON env filePath file)

end Model

def Store.entries : Store → Bytes → Option EpisodeEntryJSON
  | .db table _, key => (table.rows.find? fun r => r.episodeKey = key).map EpisodeRow.entry
  | .json (.parsed registry), key => registry.lookup key
  | .json _, _ => none

def withoutPath (filePath : Bytes) (entries : Bytes → Option EpisodeEntryJSON) :
    Bytes → Option EpisodeEntryJSON :=
  fun key => (entries key).filter fun e => e.filePath ≠ filePath

def onDisk (fileExists : Bytes → Bool) (entries : Bytes → Option EpisodeEntryJSON) :
    Bytes → Option EpisodeEntryJSON :=
  fun key => (entries key).filter fun e => fileExists e.filePath

def Store.OneKey (filePath : Bytes) : Store → Prop
  | .db _ _ => True
  | .json file => ∀ key key' e e', (Store.json file).entries key = some e →
      (Store.json file).entries key' = some e' → e.filePath = filePath → e'.filePath = filePath →
        key = key'

def Store.Checked (fileExists : Bytes → Bool) : Store → Prop
  | .db table file => file.fileExists = true ∨ ∀ r ∈ table.rows, fileExists r.filePath = true
  | .json _ => True

variable {env env' : Surroundings} {table : Episodes} {file : Stored (Dict Bytes EpisodeEntryJSON)}
  {filePath key : Bytes}

theorem Episodes.eq_of_key {r r' : EpisodeRow} (hr : r ∈ table.rows) (hr' : r' ∈ table.rows)
    (hkey : r.episodeKey = r'.episodeKey) : r = r' :=
  table.eq_of_clash (fun _ _ h => Eq.symm h) hr hr' hkey

theorem entries_db_eq_some {e : EpisodeEntryJSON} : (Store.db table file).entries key = some e ↔
    ∃ r ∈ table.rows, r.episodeKey = key ∧ r.entry = e := by
  rw [Store.entries, Option.map_eq_some_iff]
  constructor
  · rintro ⟨r, hr, rfl⟩
    exact ⟨r, List.mem_of_find?_eq_some hr, by simpa using List.find?_some hr, rfl⟩
  · rintro ⟨r, hr, rfl, rfl⟩
    obtain ⟨r', hr'⟩ : ∃ r', (table.rows.find? fun x => x.episodeKey = r.episodeKey) = some r' := by
      rw [← Option.isSome_iff_exists, List.find?_isSome]
      exact ⟨r, hr, by simp⟩
    have hkey : r'.episodeKey = r.episodeKey := by simpa using List.find?_some hr'
    have hsame : r' = r := Episodes.eq_of_key (List.mem_of_find?_eq_some hr') hr hkey
    exact ⟨r, hsame ▸ hr', rfl⟩

theorem rows_foldl_deleteEpisode (henv : env.Calm) (keys : List Bytes) (table : Episodes)
    (r : EpisodeRow) : r ∈ (keys.foldl (deleteEpisode env) table).rows ↔
      r ∈ table.rows ∧ r.episodeKey ∉ keys := by
  induction keys generalizing table with
  | nil => simp
  | cons key keys ih =>
    rw [List.foldl_cons, ih, deleteEpisode, henv.delete, if_neg Bool.false_ne_true, Table.deleteWhere]
    simp [and_assoc]

theorem entries_deleteEpisodes (henv : env.Calm) (p : EpisodeEntryJSON → Bool) :
    (Store.db (deleteEpisodes env table fun r => p r.entry) file).entries key =
      ((Store.db table file).entries key).filter fun e => !p e := by
  apply Option.ext
  intro e
  have hmem : ∀ r, r ∈ (deleteEpisodes env table fun r => p r.entry).rows ↔
      r ∈ table.rows ∧ p r.entry = false := by
    intro r
    rw [deleteEpisodes, henv.query, if_neg Bool.false_ne_true, rows_foldl_deleteEpisode henv]
    refine and_congr_right fun hr => ?_
    simp only [List.mem_map, env.order.mem_arrange, List.mem_filter, not_exists, not_and]
    constructor
    · intro h
      by_contra hp
      exact h r ⟨hr, by simpa using hp⟩ rfl
    · rintro hp r' ⟨hr', hp'⟩ hkey
      rw [Episodes.eq_of_key hr' hr hkey, hp] at hp'
      cases hp'
  rw [Option.filter_eq_some_iff, entries_db_eq_some, entries_db_eq_some]
  constructor
  · rintro ⟨r, hr, hkey, rfl⟩
    obtain ⟨hrow, hp⟩ := (hmem r).mp hr
    exact ⟨⟨r, hrow, hkey, rfl⟩, by simp [hp]⟩
  · rintro ⟨⟨r, hrow, hkey, rfl⟩, hp⟩
    exact ⟨r, (hmem r).mpr ⟨hrow, by simpa using hp⟩, hkey, rfl⟩

theorem entries_removeFromRegistryDB (henv : env.Calm) :
    (Store.db (removeFromRegistryDB env table filePath) file).entries =
      withoutPath filePath (Store.db table file).entries := by
  funext key
  have h := @entries_deleteEpisodes env table file key henv fun e => decide (e.filePath = filePath)
  rw [withoutPath, removeFromRegistryDB]
  simp only [ne_eq, decide_not]
  exact h

theorem entries_syncRegistryWithDB_iff (henv : env.Calm) :
    (Store.db (syncRegistryWithDB env table file) file).entries =
      onDisk env.fileExists (Store.db table file).entries ↔
        (Store.db table file).Checked env.fileExists := by
  unfold syncRegistryWithDB Store.Checked
  cases hfile : file.fileExists with
  | true =>
    refine iff_of_true (funext fun key => ?_) (.inl hfile)
    have h := @entries_deleteEpisodes env table file key henv fun e => !env.fileExists e.filePath
    simp only [Bool.not_not] at h
    exact h
  | false =>
    rw [Bool.not_false, if_pos rfl, funext_iff]
    constructor
    · intro h
      refine .inr fun r hr => ?_
      have hentry : (Store.db table file).entries r.episodeKey = some r.entry :=
        entries_db_eq_some.mpr ⟨r, hr, rfl, rfl⟩
      have hkept := h r.episodeKey
      rw [onDisk, hentry, eq_comm, Option.filter_eq_some_iff] at hkept
      exact hkept.2
    · rintro (htrue | hall) key
      · rw [hfile] at htrue
        cases htrue
      · refine (filter_eq_self_of_forall ?_).symm
        intro e he
        obtain ⟨r, hr, -, rfl⟩ := entries_db_eq_some.mp he
        exact hall r hr

variable {registry : Dict Bytes EpisodeEntryJSON}

theorem entries_syncRegistryWithJSON (henv : env.Calm) :
    (Store.json (syncRegistryWithJSON env file)).entries =
      onDisk env.fileExists (Store.json file).entries := by
  cases file with
  | absent | unreadable | unparsable => rfl
  | parsed registry =>
    funext key
    unfold syncRegistryWithJSON
    dsimp only
    split_ifs with hremoved
    · -- nothing is removed, and nothing is written
      rw [List.countP_eq_zero] at hremoved
      refine (filter_eq_self_of_forall ?_).symm
      intro e he
      have hin : (key, e) ∈ env.order.arrange registry.items :=
        env.order.mem_arrange.mpr (Dict.mem_items.mpr he)
      simpa using hremoved (key, e) hin
    · rw [henv.save]
      change (Dict.ofItems _).lookup key = onDisk env.fileExists (fun key => registry.lookup key) key
      refine Dict.lookupInsert.get_of_graph ?_ (AList.lookup_empty key)
      intro k e
      rw [List.mem_filter, env.order.mem_arrange, Dict.mem_items, onDisk, Option.filter_eq_some_iff]

theorem entries_removeFromRegistryJSON_iff (henv : env.Calm) :
    (Store.json (removeFromRegistryJSON env filePath file)).entries =
      withoutPath filePath (Store.json file).entries ↔ (Store.json file).OneKey filePath := by
  have hnone : (∀ key, (Store.json file).entries key = none) → (Store.json file).OneKey filePath := by
    intro h key key' e e' he
    rw [h key] at he
    cases he
  cases file with
  | absent | unreadable | unparsable => exact iff_of_true rfl (hnone fun _ => rfl)
  | parsed registry =>
    unfold removeFromRegistryJSON
    dsimp only
    cases hfind : (env.order.arrange registry.items).find? fun e => e.2.filePath = filePath with
    | none =>
      have hother : ∀ key e, registry.lookup key = some e → e.filePath ≠ filePath := by
        intro key e he
        have hin : (key, e) ∈ env.order.arrange registry.items :=
          env.order.mem_arrange.mpr (Dict.mem_items.mpr he)
        simpa using List.find?_eq_none.mp hfind (key, e) hin
      refine iff_of_true (funext fun key => ?_) ?_
      · refine (filter_eq_self_of_forall ?_).symm
        exact fun e he => by simpa using hother key e he
      · intro key key' e e' he _ hpath
        exact absurd hpath (hother key e he)
    | some x =>
      obtain ⟨k, first⟩ := x
      have hlookup : registry.lookup k = some first :=
        Dict.mem_items.mp (env.order.mem_arrange.mp (List.mem_of_find?_eq_some hfind))
      have hfirst : first.filePath = filePath := by simpa using List.find?_some hfind
      dsimp only
      rw [henv.save, funext_iff]
      have hkeep : ∀ key, (Store.json (Save.saved.result (AList.erase k registry)
          (.parsed registry))).entries key = if key = k then none else registry.lookup key :=
        fun key => Dict.lookup_erase registry k key
      have hafter : ∀ key, withoutPath filePath (Store.json (.parsed registry)).entries key =
          (registry.lookup key).filter fun e => e.filePath ≠ filePath := fun _ => rfl
      constructor
      · intro h
        -- the entry that the loop finds is the only one
        have honly : ∀ key e, registry.lookup key = some e → e.filePath = filePath → key = k := by
          intro key e he hpath
          by_contra hne
          have hkey := h key
          rw [hkeep, if_neg hne, hafter, he, eq_comm, Option.filter_eq_some_iff] at hkey
          simp [hpath] at hkey
        intro key key' e e' he he' hpath hpath'
        rw [honly key e he hpath, honly key' e' he' hpath']
      · intro hone key
        rw [hkeep, hafter]
        split_ifs with hk
        · rw [hk, hlookup, eq_comm, Option.filter_eq_none_iff]
          intro e he
          rw [← Option.some.inj he]
          simpa using hfirst
        · refine (filter_eq_self_of_forall ?_).symm
          intro e he
          simp only [ne_eq, decide_not, Bool.not_eq_true', decide_eq_false_iff_not]
          exact fun hpath => hk (hone key k e first he hlookup hpath hfirst)

/-- When removing and syncing are exact. -/
theorem registry_exact_iff (henv : env.Calm) (henv' : env'.Calm)
    (hexists : env'.fileExists = env.fileExists) (filePath : Bytes) :
    (∀ s : Store,
      ((s.removeFromRegistry env filePath).entries = withoutPath filePath s.entries ↔
        s.OneKey filePath) ∧
      ((s.syncRegistryWithDisk env).entries = onDisk env.fileExists s.entries ↔
        s.Checked env.fileExists)) ∧
    ∀ table file file', (Store.json file').entries = (Store.db table file).entries →
      (((Store.db table file).removeFromRegistry env filePath).entries =
        ((Store.json file').removeFromRegistry env' filePath).entries ↔
          (Store.json file').OneKey filePath) ∧
      (((Store.db table file).syncRegistryWithDisk env).entries =
        ((Store.json file').syncRegistryWithDisk env').entries ↔
          (Store.db table file).Checked env.fileExists) := by
  refine ⟨fun s => ?_, fun table file file' hsame => ⟨?_, ?_⟩⟩
  · cases s with
    | db table file =>
      exact ⟨iff_of_true (entries_removeFromRegistryDB henv) trivial,
        entries_syncRegistryWithDB_iff henv⟩
    | json file =>
      exact ⟨entries_removeFromRegistryJSON_iff henv,
        iff_of_true (entries_syncRegistryWithJSON henv) trivial⟩
  · rw [← entries_removeFromRegistryJSON_iff henv', hsame, Store.removeFromRegistry,
      entries_removeFromRegistryDB henv, eq_comm]
    rfl
  · rw [← entries_syncRegistryWithDB_iff henv, Store.syncRegistryWithDisk,
      Store.syncRegistryWithDisk, entries_syncRegistryWithJSON henv', hsame, hexists]

def Surroundings.noFiles : Surroundings := ⟨.listed, fun _ => false, false, fun _ => false, .saved⟩

def entryAt (filePath : Bytes) : EpisodeEntryJSON := ⟨1, [], filePath, [], 0⟩

theorem registry_exact_iff_noFiles :
    ((Store.json (.parsed (AList.insert [1] (entryAt [2]) ∅))).syncRegistryWithDisk .noFiles).entries
      [1] = none := by
  have henv : Surroundings.noFiles.Calm := ⟨rfl, fun _ => rfl, rfl⟩
  have h := ((registry_exact_iff henv henv rfl [2]).1
    (.json (.parsed (AList.insert [1] (entryAt [2]) ∅)))).2.mpr trivial
  rw [h]
  rfl

theorem entries_left_behind :
    let path : Bytes := [7]
    let registry := AList.insert [1] (entryAt path) (AList.insert [2] (entryAt path) ∅)
    let table : Episodes :=
      (Table.empty.insertOrReplace ⟨[1], 1, [], path, [], 0⟩).insertOrReplace ⟨[2], 1, [], path, [], 0⟩
    let removed := (Store.json (.parsed registry)).removeFromRegistry .noFiles path
    let synced := (Store.db table .absent).syncRegistryWithDisk .noFiles
    ((removed.entries [1]).isSome || (removed.entries [2]).isSome) = true ∧
      (synced.entries [1]).isSome = true ∧ (synced.entries [2]).isSome = true := by
  decide

end Registry

end GoStream.Metadb
