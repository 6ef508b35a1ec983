import GoStream.Foundations.Run
import GoStream.Inodes.Storage

/-!
# Saving the inode map while it changes
-/

namespace GoStream.Inodes

open Foundations Metadb

variable {H : Hashing}

structure Content where
  names : List (Dict Bytes Bytes)
  files : List (Dict Bytes UInt64)
  dirs : List (Dict Bytes UInt64)

def InodeMap.content (m : InodeMap H) : Content where
  names := (List.finRange 32).map m.nameMap.parts
  files := (List.finRange 32).map m.fileMap.parts
  dirs := (List.finRange 32).map m.dirMap

namespace Content

def keyToPath (o : SaveOrders) (c : Content) : Dict Bytes Bytes :=
  (o.names.arrange (c.names.flatMap Dict.items)).foldl (fun d x => AList.insert x.2 x.1 d) ∅

def entries (o : SaveOrders) (c : Content) : List SaveEntry :=
  (c.files.zip c.dirs).flatMap fun shard =>
    (o.files.arrange shard.1.items).map (fun x => .file x.1 x.2) ++
      (o.dirs.arrange shard.2.items).map (fun x => .dir x.1 x.2)

def numbers (order : MapOrder) (shards : List (Dict Bytes UInt64)) : Dict Bytes Bytes :=
  Dict.ofItems ((shards.flatMap fun d => order.arrange d.items).map
    fun x => (x.1, decimal x.2.toNat))

def json (o : SaveOrders) (c : Content) : InodeMapDataV2 where
  files := numbers o.files c.files
  dirs := numbers o.dirs c.dirs
  filenameIndex := Dict.ofItems (c.names.flatMap fun d => o.names.arrange d.items)

end Content

inductive Persisted
  | rows (inodes : Table InodeRow InodeRow.Clash)
  | file (data : InodeMapDataV2)

def written (db : Bool) (o : SaveOrders) (c : Content) : Persisted :=
  if db then
    .rows (Table.empty.insertAll ((c.entries o).map (InodeMap.saveRow (c.keyToPath o))))
  else .file (c.json o)

inductive Pending
  | addKey (fullPath key : Bytes) (inode : UInt64)
  | addFast (fullPath : Bytes) (inode : UInt64)
  | removeKey (fullPath key : Bytes)
  | removeFast (fullPath : Bytes) (targetInode : UInt64)
  | setDirty

def Pending.step (m : InodeMap H) : Pending → InodeMap H × Option Pending
  | .addKey fullPath key inode =>
    ({ m with fileMap := m.fileMap.insert key inode }, some (.addFast fullPath inode))
  | .addFast fullPath inode =>
    ({ m with fastFileMap := m.fastFileMap.insert (filepathBase fullPath) inode }, some .setDirty)
  | .removeKey fullPath key =>
    ({ m with fileMap := m.fileMap.erase key },
      some (.removeFast fullPath ((m.fileMap.lookup key).getD 0)))
  | .removeFast fullPath targetInode =>
    ({ m with
      fastFileMap :=
        if m.fastFileMap.lookup (filepathBase fullPath) = some targetInode then
          m.fastFileMap.erase (filepathBase fullPath)
        else m.fastFileMap },
      some .setDirty)
  | .setDirty => ({ m with dirty := true }, none)

inductive SavePoint
  | reading (c : Content)
  | written

structure Saver (H : Hashing) where
  maps : InodeMap H
  disk : Option Persisted
  pending : List Pending
  save : Option SavePoint

inductive SaveOp
  | addFile (fullPath infohash : Bytes) (index : Int64)
  | addDir (relativePath : Bytes)
  | removeFile (fullPath : Bytes)
  | advance (k : ℕ)
  | save
  | saveStep (o : SaveOrders) (ok : Bool)

namespace Saver

def addFile (s : Saver H) (fullPath infohash : Bytes) (index : Int64) : Saver H :=
  if infohash = [] then s
  else
    let key := H.fileKey infohash index
    if s.maps.nameMap.lookup fullPath = some key then s
    else
      { s with
        maps := { s.maps with nameMap := s.maps.nameMap.insert fullPath key }
        pending := s.pending ++ [.addKey fullPath key (H.generateFileInode infohash index)] }

def removeFile (s : Saver H) (fullPath : Bytes) : Saver H :=
  match s.maps.nameMap.lookup fullPath with
  | none => s
  | some key =>
    { s with
      maps := { s.maps with nameMap := s.maps.nameMap.erase fullPath }
      pending := s.pending ++ [.removeKey fullPath key] }

def advance (s : Saver H) (k : ℕ) : Saver H :=
  match s.pending[k]? with
  | none => s
  | some t =>
    { s with
      maps := (t.step s.maps).1
      pending :=
        match (t.step s.maps).2 with
        | some t' => s.pending.set k t'
        | none => s.pending.eraseIdx k }

def readShard (db : Bool) (m : InodeMap H) (c : Content) : Option Content :=
  if db then
    if h : c.names.length < 32 then
      some { c with names := c.names ++ [m.nameMap.parts ⟨c.names.length, h⟩] }
    else if h : c.files.length < 32 then
      some { c with
        files := c.files ++ [m.fileMap.parts ⟨c.files.length, h⟩]
        dirs := c.dirs ++ [m.dirMap ⟨c.files.length, h⟩] }
    else none
  else if h : c.files.length < 32 then
    some
      { names := c.names ++ [m.nameMap.parts ⟨c.files.length, h⟩]
        files := c.files ++ [m.fileMap.parts ⟨c.files.length, h⟩]
        dirs := c.dirs ++ [m.dirMap ⟨c.files.length, h⟩] }
  else none

def saveStep (db : Bool) (s : Saver H) (o : SaveOrders) (ok : Bool) : Saver H :=
  match s.save with
  | none => s
  | some (.reading c) =>
    match readShard db s.maps c with
    | some c' => { s with save := if ok || !db then some (.reading c') else none }
    | none =>
      if ok then { s with disk := some (Inodes.written db o c), save := some .written }
      else { s with save := none }
  | some .written => { s with maps := { s.maps with dirty := false }, save := none }

def startSave (s : Saver H) : Saver H :=
  match s.save with
  | none => { s with save := some (.reading ⟨[], [], []⟩) }
  | some _ => s

def step (db : Bool) (s : Saver H) : SaveOp → Saver H
  | .addFile fullPath infohash index => s.addFile fullPath infohash index
  | .addDir relativePath => { s with maps := (s.maps.addDir relativePath).2 }
  | .removeFile fullPath => s.removeFile fullPath
  | .advance k => s.advance k
  | .save => s.startSave
  | .saveStep o ok => s.saveStep db o ok

end Saver

/-- With nothing else going on, a save writes the rows of `saveToDB`. -/
theorem written_content (o : SaveOrders) (m : InodeMap H) (d : DB) :
    written true o m.content = .rows (m.saveToDB o d).2.inodes := by
  have hkeys : m.content.keyToPath o = m.keyToPath o := by
    simp [Content.keyToPath, InodeMap.content, InodeMap.keyToPath, Sharded.items, MapOrder.listed,
      List.flatMap_map]
  have hentries : m.content.entries o = m.saveEntries o := by
    simp [Content.entries, InodeMap.content, InodeMap.saveEntries, List.zip_map', List.flatMap_map]
  simp [written, InodeMap.saveToDB, hkeys, hentries]

theorem addFile_alone (db : Bool) (m : InodeMap H) (p : Option Persisted) (fullPath infohash : Bytes)
    (index : Int64) : run (Saver.step db) ⟨m, p, [], none⟩
      [.addFile fullPath infohash index, .advance 0, .advance 0, .advance 0] =
        ⟨(m.addFile fullPath infohash index).2, p, [], none⟩ := by
  simp only [run_cons, run_nil, Saver.step, Saver.addFile, InodeMap.addFile]
  split_ifs <;> rfl

theorem removeFile_alone (db : Bool) (m : InodeMap H) (p : Option Persisted) (fullPath : Bytes) :
    run (Saver.step db) ⟨m, p, [], none⟩
      [.removeFile fullPath, .advance 0, .advance 0, .advance 0] =
        ⟨m.removeFile fullPath, p, [], none⟩ := by
  simp only [run_cons, run_nil, Saver.step, Saver.removeFile, InodeMap.removeFile]
  cases m.nameMap.lookup fullPath <;> rfl

variable (db : Bool)

def UpToDate (s : Saver H) : Prop :=
  (∃ o, s.disk = some (written db o s.maps.content)) ∨
    s.disk = none ∧ s.maps.content = (InodeMap.new : InodeMap H).content

def Quiescent (s : Saver H) : Prop := s.pending = [] ∧ s.save = none

def background (o : SaveOrders) (s : Saver H) : Saver H :=
  if s.maps.dirty then
    run (Saver.step db) s (.save :: List.replicate 66 (.saveStep o true))
  else s

def NothingLost (s : Saver H) : Prop := Quiescent s →
  (s.maps.dirty = true ∨ UpToDate db s) ∧ ∀ o, UpToDate db (background db o s)

def Undisturbed (s : Saver H) : SaveOp → Prop
  | .saveStep _ _ => s.save = some .written → s.pending = [] → UpToDate db s
  | _ => True

def readings : ℕ := if db then 64 else 32

def readBy (m : InodeMap H) (n : ℕ) : Content :=
  if db then ⟨m.content.names.take n, m.content.files.take (n - 32), m.content.dirs.take (n - 32)⟩
  else ⟨m.content.names.take n, m.content.files.take n, m.content.dirs.take n⟩

theorem take_shards {α : Type*} (f : Fin 32 → α) {n : ℕ} (h : n < 32) :
    ((List.finRange 32).map f).take n ++ [f ⟨n, h⟩] = ((List.finRange 32).map f).take (n + 1) := by
  have hlen : n < ((List.finRange 32).map f).length := by simpa using h
  rw [List.take_succ_eq_append_getElem hlen]
  simp

theorem length_take_shards {α : Type*} (f : Fin 32 → α) {n : ℕ} (h : n ≤ 32) :
    (((List.finRange 32).map f).take n).length = n := by
  simpa using h

theorem readShard_readBy (m : InodeMap H) {n : ℕ} (h : n < readings db) :
    Saver.readShard db m (readBy db m n) = some (readBy db m (n + 1)) := by
  cases db with
  | false =>
    have hn : n < 32 := h
    simp only [Saver.readShard, readBy, InodeMap.content, Bool.false_eq_true, if_false]
    rw [dif_pos (by rw [length_take_shards _ hn.le]; exact hn)]
    simp only [length_take_shards _ hn.le, take_shards _ hn]
  | true =>
    have hn : n < 64 := h
    simp only [Saver.readShard, readBy, InodeMap.content, if_true]
    by_cases hnames : n < 32
    · rw [dif_pos (by rw [length_take_shards _ hnames.le]; exact hnames)]
      have hnone : n - 32 = 0 ∧ n + 1 - 32 = 0 := by omega
      simp only [length_take_shards _ hnames.le, take_shards _ hnames, hnone]
    · have hall : ∀ {α : Type} (f : Fin 32 → α) {k : ℕ}, 32 ≤ k →
          ((List.finRange 32).map f).take k = (List.finRange 32).map f := by
        intro α f k hk
        exact List.take_of_length_le (by simpa using hk)
      have hfiles : n - 32 < 32 := by omega
      have hnext : n + 1 - 32 = n - 32 + 1 := by omega
      rw [dif_neg (by rw [hall _ (by omega)]; simp),
        dif_pos (by rw [length_take_shards _ hfiles.le]; exact hfiles)]
      simp only [length_take_shards _ hfiles.le, take_shards _ hfiles, hnext, hall _ (by omega : 32 ≤ n),
        hall _ (by omega : 32 ≤ n + 1)]

theorem readBy_readings (m : InodeMap H) : readBy db m (readings db) = m.content := by
  have hall : ∀ {α : Type} (f : Fin 32 → α) {k : ℕ}, 32 ≤ k →
      ((List.finRange 32).map f).take k = (List.finRange 32).map f := by
    intro α f k hk
    exact List.take_of_length_le (by simpa using hk)
  cases db <;> simp [readBy, readings, InodeMap.content, hall]

theorem readShard_content (m : InodeMap H) : Saver.readShard db m m.content = none := by
  cases db <;> simp [Saver.readShard, InodeMap.content]

def ReadsRight (m : InodeMap H) (c : Content) : Prop := ∃ n ≤ readings db, c = readBy db m n

theorem ReadsRight.start (m : InodeMap H) : ReadsRight db m ⟨[], [], []⟩ :=
  ⟨0, Nat.zero_le _, by cases db <;> rfl⟩

theorem ReadsRight.cases {m : InodeMap H} {c : Content} (h : ReadsRight db m c) :
    (∃ c', Saver.readShard db m c = some c' ∧ ReadsRight db m c') ∨
      Saver.readShard db m c = none ∧ c = m.content := by
  obtain ⟨n, hn, rfl⟩ := h
  rcases Nat.lt_or_eq_of_le hn with hlt | rfl
  · exact .inl ⟨_, readShard_readBy db m hlt, n + 1, hlt, rfl⟩
  · rw [readBy_readings]
    exact .inr ⟨readShard_content db m, rfl⟩

section Background

variable (o : SaveOrders) (s : Saver H)

theorem run_reading (k : ℕ) {n : ℕ} (h : n + k ≤ readings db) :
    run (Saver.step db) { s with save := some (.reading (readBy db s.maps n)) }
      (List.replicate k (.saveStep o true)) =
        { s with save := some (.reading (readBy db s.maps (n + k))) } := by
  induction k generalizing n with
  | zero => rfl
  | succ k ih =>
    have hread := readShard_readBy db s.maps (n := n) (by omega)
    have hstep : Saver.step db { s with save := some (.reading (readBy db s.maps n)) }
        (.saveStep o true) = { s with save := some (.reading (readBy db s.maps (n + 1))) } := by
      simp [Saver.step, Saver.saveStep, hread]
    rw [List.replicate_succ, run_cons, hstep, ih (by omega), Nat.add_assoc, Nat.add_comm 1 k]

theorem run_idle (k : ℕ) (hs : s.save = none) :
    run (Saver.step db) s (List.replicate k (.saveStep o true)) = s := by
  induction k with
  | zero => rfl
  | succ k ih =>
    have hstep : Saver.step db s (.saveStep o true) = s := by
      simp [Saver.step, Saver.saveStep, hs]
    rw [List.replicate_succ, run_cons, hstep, ih]

theorem run_written (hs : s.save = none) :
    run (Saver.step db) s (.save :: List.replicate (readings db + 1) (.saveStep o true)) =
      { s with disk := some (written db o s.maps.content), save := some .written } := by
  have hstart : Saver.step db s .save =
      { s with save := some (.reading (readBy db s.maps 0)) } := by
    have hempty : readBy db s.maps 0 = ⟨[], [], []⟩ := by cases db <;> rfl
    simp [Saver.step, Saver.startSave, hs, hempty]
  have hwrite : Saver.step db { s with save := some (.reading s.maps.content) } (.saveStep o true) =
      { s with disk := some (written db o s.maps.content), save := some .written } := by
    simp [Saver.step, Saver.saveStep, readShard_content]
  rw [run_cons, hstart, List.replicate_succ', run_append, run_reading db o s _ (by omega),
    Nat.zero_add, readBy_readings, run_cons, hwrite]
  rfl

theorem run_save (hs : s.save = none) :
    run (Saver.step db) s (.save :: List.replicate 66 (.saveStep o true)) =
      { s with
        maps := { s.maps with dirty := false }
        disk := some (written db o s.maps.content)
        save := none } := by
  have hsplit : SaveOp.save :: List.replicate 66 (SaveOp.saveStep o true) =
      (.save :: List.replicate (readings db + 1) (.saveStep o true)) ++ (.saveStep o true ::
        List.replicate (64 - readings db) (.saveStep o true)) := by
    cases db <;> rfl
  rw [hsplit, run_append, run_written db o s hs, run_cons]
  exact run_idle db o _ _ rfl

end Background

def Covered (s : Saver H) : Prop := s.pending ≠ [] ∨ s.maps.dirty = true ∨
  UpToDate db s ∧ ∀ c, s.save = some (.reading c) → ReadsRight db s.maps c

variable {db} {s : Saver H}

theorem Covered.of_eq {s' : Saver H} (h : Covered db s) (hmaps : s'.maps = s.maps)
    (hdisk : s'.disk = s.disk) (hpending : s'.pending = s.pending)
    (hsave : ∀ c, s'.save = some (.reading c) → ReadsRight db s.maps c ∨ s.save = some (.reading c)) :
    Covered db s' := by
  unfold Covered UpToDate
  rw [hmaps, hdisk, hpending]
  refine h.imp_right (Or.imp_right fun hclean => ⟨hclean.1, fun c hc => ?_⟩)
  exact (hsave c hc).elim id (hclean.2 c)

theorem Covered.advance (h : Covered db s) (k : ℕ) : Covered db (s.advance k) := by
  unfold Saver.advance
  cases hk : s.pending[k]? with
  | none => exact h
  | some t =>
    have hne : s.pending ≠ [] := by
      intro hnil
      rw [hnil] at hk
      cases hk
    cases t with
    | setDirty => exact .inr (.inl rfl)
    | addKey | addFast | removeKey | removeFast => exact .inl (by simpa [Pending.step] using hne)

theorem Covered.addDir (h : Covered db s) (p : Bytes) :
    Covered db { s with maps := (s.maps.addDir p).2 } := by
  unfold InodeMap.addDir
  dsimp only
  split_ifs
  · exact h
  · exact .inr (.inl rfl)

theorem Covered.saveStep (h : Covered db s) (o : SaveOrders) (ok : Bool)
    (hclear : s.save = some .written → s.pending = [] → UpToDate db s) :
    Covered db (s.saveStep db o ok) := by
  unfold Saver.saveStep
  cases hsave : s.save with
  | none => exact h
  | some point =>
    cases point with
    | written =>
      by_cases hpending : s.pending = []
      · exact .inr (.inr ⟨hclear hsave hpending, fun c hc => by cases hc⟩)
      · exact .inl hpending
    | reading c =>
      rcases h with hpending | hdirty | ⟨hdisk, hread⟩
      · refine .inl ?_
        dsimp only
        split
        · exact hpending
        · split_ifs <;> exact hpending
      · refine .inr (.inl ?_)
        dsimp only
        split
        · exact hdirty
        · split_ifs <;> exact hdirty
      · refine .inr (.inr ?_)
        rcases (hread c hsave).cases with ⟨c', hnext, hright⟩ | ⟨hlast, rfl⟩
        · simp only [hnext]
          refine ⟨hdisk, fun c hc => ?_⟩
          split_ifs at hc
          obtain rfl : c' = c := by simpa using hc
          exact hright
        · simp only [hlast]
          split_ifs
          · exact ⟨.inl ⟨o, rfl⟩, fun c hc => by cases hc⟩
          · exact ⟨hdisk, fun c hc => by cases hc⟩

theorem Covered.step (s : Saver H) (op : SaveOp) (h : Covered db s) (hok : Undisturbed db s op) :
    Covered db (s.step db op) := by
  cases op with
  | addFile fullPath infohash index =>
    simp only [Saver.step, Saver.addFile]
    split_ifs
    · exact h
    · exact h
    · exact .inl (by simp)
  | removeFile fullPath =>
    simp only [Saver.step, Saver.removeFile]
    cases s.maps.nameMap.lookup fullPath with
    | none => exact h
    | some key => exact .inl (by simp)
  | addDir p => exact h.addDir p
  | advance k => exact h.advance k
  | save =>
    simp only [Saver.step, Saver.startSave]
    cases hsave : s.save with
    | some point => exact h
    | none =>
      refine h.of_eq rfl rfl rfl fun c hc => ?_
      obtain rfl : ⟨[], [], []⟩ = c := by simpa using hc
      exact .inl (ReadsRight.start db s.maps)
  | saveStep o ok => exact h.saveStep o ok hok

theorem Covered.nothingLost (s : Saver H) (h : Covered db s) : NothingLost db s := by
  rintro ⟨hpending, hsave⟩
  have hclean : s.maps.dirty = true ∨ UpToDate db s :=
    (h.resolve_left (not_not.mpr hpending)).imp_right And.left
  refine ⟨hclean, fun o => ?_⟩
  unfold background
  split_ifs with hdirty
  · rw [run_save db o s hsave]
    exact .inl ⟨o, rfl⟩
  · exact hclean.resolve_left hdirty

theorem lost_of_disturbed (s : Saver H) (op : SaveOp) (hbad : ¬ Undisturbed db s op) :
    ¬ NothingLost db (s.step db op) := by
  cases op with
  | saveStep o ok =>
    simp only [Undisturbed, not_forall] at hbad
    obtain ⟨hsave, hpending, hstale⟩ := hbad
    have hstep : s.step db (.saveStep o ok) =
        { s with maps := { s.maps with dirty := false }, save := none } := by
      simp [Saver.step, Saver.saveStep, hsave]
    rw [hstep]
    intro hgood
    rcases (hgood ⟨hpending, rfl⟩).1 with hdirty | hdisk
    · cases hdirty
    · exact hstale hdisk
  | addFile | addDir | removeFile | advance | save => exact absurd trivial hbad

def freshSaver (H : Hashing) : Saver H := ⟨.new, none, [], none⟩

theorem upToDate_fresh (H : Hashing) (db : Bool) : UpToDate db (freshSaver H) := .inr ⟨rfl, rfl⟩

theorem mem_numbers {order : MapOrder} {shards : List (Dict Bytes UInt64)} {k : Bytes} :
    k ∈ Content.numbers order shards ↔ ∃ d ∈ shards, k ∈ d := by
  rw [Content.numbers, Dict.mem_ofItems, List.map_map, List.mem_map]
  constructor
  · rintro ⟨x, hx, rfl⟩
    obtain ⟨d, hd, hmem⟩ := List.mem_flatMap.mp hx
    exact ⟨d, hd, Dict.mem_keys_of_mem_items (order.mem_arrange.mp hmem)⟩
  · rintro ⟨d, hd, hk⟩
    obtain ⟨v, hv⟩ := Option.isSome_iff_exists.mp (AList.lookup_isSome.mpr hk)
    exact ⟨(k, v), List.mem_flatMap.mpr ⟨d, hd, order.mem_arrange.mpr (Dict.mem_items.mpr hv)⟩, rfl⟩

def listedOrders : SaveOrders := ⟨.listed, .listed, .listed⟩

def addedTooLate : List SaveOp :=
  (.save :: List.replicate 33 (.saveStep listedOrders true)) ++
    [.addDir (ascii "/tv"), .saveStep listedOrders true]

theorem mem_content_addDir (m : InodeMap H) (p : Bytes) : ∃ d ∈ (m.addDir p).2.content.dirs, p ∈ d := by
  refine ⟨_, List.mem_map_of_mem (List.mem_finRange (H.getShard p)), ?_⟩
  unfold InodeMap.addDir
  dsimp only
  split_ifs with hmem
  · exact hmem
  · simp only [Function.update_self]
    exact (AList.mem_insert _).mpr (.inl rfl)

theorem not_mem_new (i : Fin 32) : ascii "/tv" ∉ (InodeMap.new : InodeMap H).dirMap i := by
  unfold InodeMap.new
  dsimp only
  split_ifs
  · exact fun h => absurd (AList.mem_keys.mp h) (by decide)
  · exact AList.notMem_empty _

end GoStream.Inodes
