import GoStream.Foundations.Maps
import GoStream.Foundations.Positional

/-!
# Migration of the old torrent database
-/

namespace GoStream.Settings

open Foundations

inductive Fault where
  | error
  | panic
  deriving DecidableEq

structure TorrentSpec where
  infoHash : Bytes
  displayName : Bytes
  trackers : List (List Bytes)
  infoBytes : Option Bytes
  deriving DecidableEq

structure Magnet where
  infoHash : Bytes
  trackers : List Bytes
  displayName : Bytes

structure URL where
  scheme : Bytes
  path : Bytes
  text : Bytes

structure Links where
  parseURL : Bytes → Option URL
  toLower : Bytes → Bytes
  parseMagnetUri : Bytes → Except Fault Magnet
  fromHttp : Bytes → Except Fault TorrentSpec
  fromFile : Bytes → Except Fault TorrentSpec

namespace Links

variable (L : Links)

def fromMagnet (link : Bytes) : Except Fault TorrentSpec :=
  (L.parseMagnetUri link).map fun mag =>
    { infoHash := mag.infoHash
      displayName := mag.displayName
      trackers := if mag.trackers = [] then [] else [mag.trackers]
      infoBytes := none }

def parseLink (link : Bytes) : Except Fault TorrentSpec :=
  match L.parseURL link with
  | none => .error .error
  | some url =>
      let scheme := L.toLower url.scheme
      if scheme = ascii "magnet" then L.fromMagnet url.text
      else if scheme = ascii "http" ∨ scheme = ascii "https" then L.fromHttp url.text
      else if scheme = [] then L.fromMagnet (ascii "magnet:?xt=urn:btih:" ++ url.path)
      else if scheme = ascii "file" then L.fromFile url.path
      else .error .error

end Links

structure OldTorrent where
  name : Option Bytes
  link : Option Bytes
  size : Option Bytes
  timestamp : Option Bytes
  deriving DecidableEq

inductive OldItem where
  | value
  | bucket (torrent : OldTorrent)
  deriving DecidableEq

structure OldDB where
  torrents : Option (Dict Bytes OldItem)

def OldDB.cursor (old : OldDB) : List (Bytes × OldItem) :=
  old.torrents.elim [] (Dict.inOrder bytewise)

structure TorrentBackupDB where
  name : Bytes
  magnet : Bytes
  hash : Bytes
  size : Int64
  timestamp : Int64
  deriving DecidableEq

structure TorrentDB where
  spec : TorrentSpec
  title : Bytes
  timestamp : Int64
  size : Int64
  deriving DecidableEq

def b2i (v : Bytes) : Except Fault Int64 :=
  if v.length < 8 then .error .panic
  else .ok (UInt64.ofNat (ofBigEndian (v.take 8))).toInt64

def getKey : Option Bytes → Except Fault Bytes
  | none => .error .error
  | some v => .ok v

def OldTorrent.load (hash : Bytes) (b : OldTorrent) : Except Fault TorrentBackupDB := do
  let name ← getKey b.name
  let magnet ← getKey b.link
  let size ← b2i (← getKey b.size)
  let timestamp ← b2i (← getKey b.timestamp)
  return { name, magnet, hash, size, timestamp }

def scan : List (Bytes × OldItem) → Except Fault (List TorrentBackupDB)
  | [] => .ok []
  | (_, .value) :: rest => scan rest
  | (hash, .bucket b) :: rest => do
      let torr ← b.load hash
      let torrs ← scan rest
      return torr :: torrs

def TorrentBackupDB.toTorrentDB (torr : TorrentBackupDB) (spec : TorrentSpec) : TorrentDB where
  spec := spec
  title := if torr.name.length < spec.displayName.length then spec.displayName else torr.name
  timestamp := torr.timestamp
  size := torr.size

structure Migration where
  opens : Bool
  removes : Bool
  readOnly : Bool
  links : Bytes → Links
  marshal : TorrentDB → Option Bytes
  accepts : Bytes → Bytes → Bool

namespace Migration

variable (env : Migration)

def addTorrent (db : Dict Bytes Bytes) (torr : TorrentDB) : Dict Bytes Bytes :=
  match env.marshal torr with
  | none => db
  | some buf =>
      if env.readOnly then db
      else if env.accepts (encodeHex torr.spec.infoHash) buf then
        db.insert (encodeHex torr.spec.infoHash) buf
      else db

def stores (torr : TorrentDB) : Bool :=
  !env.readOnly && (env.marshal torr).any (env.accepts (encodeHex torr.spec.infoHash))

structure Loop where
  db : Dict Bytes Bytes
  added : List (Bytes × TorrentDB)
  panicked : Bool

def addAll : List TorrentBackupDB → Dict Bytes Bytes → Loop
  | [], db => ⟨db, [], false⟩
  | torr :: rest, db =>
      match (env.links torr.hash).parseLink torr.magnet with
      | .error .error => addAll rest db
      | .error .panic => ⟨db, [], true⟩
      | .ok spec =>
          let later := addAll rest (env.addTorrent db (torr.toTorrentDB spec))
          if env.stores (torr.toTorrentDB spec) then
            { later with added := (torr.hash, torr.toTorrentDB spec) :: later.added }
          else later

structure Result where
  file : Option OldDB
  db : Dict Bytes Bytes
  added : List (Bytes × TorrentDB)

def remove (old : OldDB) : Option OldDB := if env.removes then none else some old

def migrateTorrents (file : Option OldDB) (db : Dict Bytes Bytes) : Result :=
  match file with
  | none => ⟨none, db, []⟩
  | some old =>
      if env.opens then
        match scan old.cursor with
        | .error .panic => ⟨some old, db, []⟩
        | .error .error => ⟨env.remove old, db, []⟩
        | .ok torrs =>
            let loop := env.addAll torrs db
            ⟨if loop.panicked then some old else env.remove old, loop.db, loop.added⟩
      else ⟨some old, db, []⟩

def Failure (old : OldDB) : Prop :=
  env.opens = false ∨ ∃ hash b, (hash, .bucket b) ∈ old.cursor ∧
    ∀ torr spec, b.load hash = .ok torr → (env.links hash).parseLink torr.magnet ≠ .ok spec

structure Safe (file : Option OldDB) (db : Dict Bytes Bytes) : Prop where
  complete : ∀ old, file = some old → (env.migrateTorrents file db).file = none →
    ∀ hash b, (hash, .bucket b) ∈ old.cursor →
      ∃ torr, (hash, torr) ∈ (env.migrateTorrents file db).added ∧
        encodeHex torr.spec.infoHash = asciiLower hash ∧
        ((env.migrateTorrents file db).db.lookup (asciiLower hash)).isSome = true
  kept : ∀ old, file = some old → env.Failure old →
    ((env.migrateTorrents file db).file).isSome = true

def Migrates (hash : Bytes) (b : OldTorrent) : Prop :=
  ∃ torr spec, b.load hash = .ok torr ∧ (env.links hash).parseLink torr.magnet = .ok spec ∧
    encodeHex spec.infoHash = asciiLower hash ∧ env.stores (torr.toTorrentDB spec) = true

def Panics (old : OldDB) : Prop :=
  scan old.cursor = .error .panic ∨ ∃ torrs, scan old.cursor = .ok torrs ∧
    ∃ torr ∈ torrs, (env.links torr.hash).parseLink torr.magnet = .error .panic

section Bind

variable {ε α β : Type} {x : Except ε α} {f : α → Except ε β}

theorem bind_eq_ok {r : β} : x >>= f = .ok r ↔ ∃ a, x = .ok a ∧ f a = .ok r := by
  cases x with
  | error e | ok a => simp [bind, Except.bind]

theorem bind_eq_error {e : ε} :
    x >>= f = .error e ↔ x = .error e ∨ ∃ a, x = .ok a ∧ f a = .error e := by
  cases x with
  | error e' | ok a => simp [bind, Except.bind]

end Bind

theorem hash_of_load {hash : Bytes} {b : OldTorrent} {torr : TorrentBackupDB}
    (h : b.load hash = .ok torr) : torr.hash = hash := by
  obtain ⟨name, -, h⟩ := bind_eq_ok.mp h
  obtain ⟨magnet, -, h⟩ := bind_eq_ok.mp h
  obtain ⟨_, -, h⟩ := bind_eq_ok.mp h
  obtain ⟨size, -, h⟩ := bind_eq_ok.mp h
  obtain ⟨_, -, h⟩ := bind_eq_ok.mp h
  obtain ⟨timestamp, -, h⟩ := bind_eq_ok.mp h
  cases h
  rfl

theorem mem_scan {items : List (Bytes × OldItem)} {torrs : List TorrentBackupDB}
    (h : scan items = .ok torrs) (torr : TorrentBackupDB) :
    torr ∈ torrs ↔ ∃ hash b, (hash, .bucket b) ∈ items ∧ b.load hash = .ok torr := by
  fun_induction scan items generalizing torrs with
  | case1 =>
    cases h
    simp
  | case2 hash rest ih =>
    rw [ih h]
    simp
  | case3 hash b rest ih =>
    obtain ⟨first, hfirst, h⟩ := bind_eq_ok.mp h
    obtain ⟨later, hlater, h⟩ := bind_eq_ok.mp h
    cases h
    rw [List.mem_cons, ih hlater]
    constructor
    · rintro (rfl | ⟨hash', b', hmem, hload⟩)
      · exact ⟨hash, b, List.mem_cons_self, hfirst⟩
      · exact ⟨hash', b', List.mem_cons_of_mem _ hmem, hload⟩
    · rintro ⟨hash', b', hmem, hload⟩
      rcases List.mem_cons.mp hmem with heq | hmem
      · cases heq
        exact Or.inl (Except.ok.inj (hload.symm.trans hfirst))
      · exact Or.inr ⟨hash', b', hmem, hload⟩

theorem exists_of_scan_error {items : List (Bytes × OldItem)} {fault : Fault}
    (h : scan items = .error fault) :
    ∃ hash b, (hash, .bucket b) ∈ items ∧ b.load hash = .error fault := by
  fun_induction scan items with
  | case1 => cases h
  | case2 hash rest ih =>
    obtain ⟨hash', b', hmem, hload⟩ := ih h
    exact ⟨hash', b', List.mem_cons_of_mem _ hmem, hload⟩
  | case3 hash b rest ih =>
    rcases bind_eq_error.mp h with hfirst | ⟨first, -, h⟩
    · exact ⟨hash, b, List.mem_cons_self, hfirst⟩
    · rcases bind_eq_error.mp h with hlater | ⟨later, -, h⟩
      · obtain ⟨hash', b', hmem, hload⟩ := ih hlater
        exact ⟨hash', b', List.mem_cons_of_mem _ hmem, hload⟩
      · cases h

theorem isSome_addTorrent {db : Dict Bytes Bytes} {torr : TorrentDB} {k : Bytes}
    (h : (db.lookup k).isSome = true ∨
      k = encodeHex torr.spec.infoHash ∧ env.stores torr = true) :
    ((env.addTorrent db torr).lookup k).isSome = true := by
  unfold addTorrent
  cases hbuf : env.marshal torr with
  | none =>
    refine h.elim id fun h => ?_
    simp [stores, hbuf] at h
  | some buf =>
    simp only
    by_cases hstored : env.readOnly = false ∧ env.accepts (encodeHex torr.spec.infoHash) buf = true
    · rw [hstored.1, hstored.2]
      simp only [Bool.false_eq_true, if_false, if_true, Dict.lookup_insert]
      split_ifs with hk
      · rfl
      · exact h.resolve_right fun h => hk h.1
    · have hold : (db.lookup k).isSome = true := by
        refine h.resolve_right fun h => hstored ?_
        simpa [stores, hbuf] using h.2
      split_ifs with hro hacc
      · exact hold
      · exact absurd ⟨by simpa using hro, hacc⟩ hstored
      · exact hold

theorem isSome_addAll (torrs : List TorrentBackupDB) (db : Dict Bytes Bytes) {k : Bytes}
    (h : (db.lookup k).isSome = true ∨
      ∃ x ∈ (env.addAll torrs db).added, k = encodeHex x.2.spec.infoHash) :
    ((env.addAll torrs db).db.lookup k).isSome = true := by
  fun_induction addAll env torrs db with
  | case1 db | case3 db torr rest hparse => simpa using h
  | case2 db torr rest hparse ih => exact ih h
  | case4 db torr rest spec hparse later hstores ih =>
    apply ih
    rcases h with h | ⟨x, hx, rfl⟩
    · exact Or.inl (env.isSome_addTorrent (Or.inl h))
    · rcases List.mem_cons.mp hx with rfl | hx
      · exact Or.inl (env.isSome_addTorrent (Or.inr ⟨rfl, hstores⟩))
      · exact Or.inr ⟨x, hx, rfl⟩
  | case5 db torr rest spec hparse later hstores ih =>
    exact ih (h.imp_left fun h => env.isSome_addTorrent (Or.inl h))

theorem panicked_addAll (torrs : List TorrentBackupDB) (db : Dict Bytes Bytes) :
    (env.addAll torrs db).panicked = true ↔
      ∃ torr ∈ torrs, (env.links torr.hash).parseLink torr.magnet = .error .panic := by
  fun_induction addAll env torrs db with
  | case1 db => simp
  | case2 db torr rest hparse ih => simp [ih, hparse]
  | case3 db torr rest hparse => simp [hparse]
  | case4 db torr rest spec hparse later hstores ih
  | case5 db torr rest spec hparse later hstores ih =>
    simp [ih, later, hparse]

theorem mem_added {torrs : List TorrentBackupDB} {db : Dict Bytes Bytes}
    (h : (env.addAll torrs db).panicked = false) (hash : Bytes) (t : TorrentDB) :
    (hash, t) ∈ (env.addAll torrs db).added ↔
      ∃ torr ∈ torrs, torr.hash = hash ∧
        ∃ spec, (env.links torr.hash).parseLink torr.magnet = .ok spec ∧
          t = torr.toTorrentDB spec ∧ env.stores t = true := by
  fun_induction addAll env torrs db with
  | case1 db => simp
  | case2 db torr rest hparse ih => simp [ih h, hparse]
  | case3 db torr rest hparse => cases h
  | case4 db torr rest spec hparse later hstores ih =>
    rw [List.mem_cons, ih h, List.exists_mem_cons_iff]
    refine or_congr ?_ Iff.rfl
    constructor
    · intro heq
      obtain ⟨rfl, rfl⟩ := Prod.mk.inj heq
      exact ⟨rfl, spec, hparse, rfl, hstores⟩
    · rintro ⟨rfl, spec', hparse', rfl, -⟩
      obtain rfl := Except.ok.inj (hparse.symm.trans hparse')
      rfl
  | case5 db torr rest spec hparse later hstores ih =>
    rw [ih h, List.exists_mem_cons_iff]
    refine (or_iff_right ?_).symm
    rintro ⟨-, spec', hparse', rfl, hstored⟩
    obtain rfl := Except.ok.inj (hparse.symm.trans hparse')
    exact hstores hstored

section Exact

variable {env} {old : OldDB} {db : Dict Bytes Bytes}

theorem bucket_unique {hash : Bytes} {b b' : OldTorrent} (h : (hash, .bucket b) ∈ old.cursor)
    (h' : (hash, .bucket b') ∈ old.cursor) : b = b' := by
  unfold OldDB.cursor at h h'
  cases htorrents : old.torrents with
  | none =>
    rw [htorrents] at h
    cases h
  | some torrents =>
    rw [htorrents, Option.elim_some] at h h'
    have hb : torrents.lookup hash = some (.bucket b) := Dict.mem_inOrder.mp h
    have hb' : torrents.lookup hash = some (.bucket b') := Dict.mem_inOrder.mp h'
    exact OldItem.bucket.inj (Option.some.inj (hb.symm.trans hb'))

theorem migrateTorrents_of_closed (hopens : env.opens = false) :
    env.migrateTorrents (some old) db = ⟨some old, db, []⟩ := by
  simp [migrateTorrents, hopens]

theorem migrateTorrents_of_error (hopens : env.opens = true) {fault : Fault}
    (hscan : scan old.cursor = .error fault) :
    env.migrateTorrents (some old) db =
      ⟨if fault = .panic then some old else env.remove old, db, []⟩ := by
  cases fault with
  | error | panic => simp [migrateTorrents, hopens, hscan]

theorem migrateTorrents_of_scan (hopens : env.opens = true) {torrs : List TorrentBackupDB}
    (hscan : scan old.cursor = .ok torrs) :
    env.migrateTorrents (some old) db =
      ⟨if (env.addAll torrs db).panicked then some old else env.remove old,
        (env.addAll torrs db).db, (env.addAll torrs db).added⟩ := by
  simp [migrateTorrents, hopens, hscan]

theorem panicked_eq_false {torrs : List TorrentBackupDB} (hscan : scan old.cursor = .ok torrs)
    (hpanics : ¬ env.Panics old) (db : Dict Bytes Bytes) :
    (env.addAll torrs db).panicked = false := by
  rw [Bool.eq_false_iff, Ne, panicked_addAll]
  exact fun hlink => hpanics (Or.inr ⟨torrs, hscan, hlink⟩)

theorem file_eq_none_iff :
    (env.migrateTorrents (some old) db).file = none ↔
      env.opens = true ∧ env.removes = true ∧ ¬ env.Panics old := by
  cases hopens : env.opens with
  | false => simp [migrateTorrents_of_closed hopens]
  | true =>
    have hremove : env.remove old = none ↔ env.removes = true := by simp [remove]
    cases hscan : scan old.cursor with
    | error fault =>
      have hpanics : env.Panics old ↔ fault = .panic := by simp [Panics, hscan]
      rw [migrateTorrents_of_error hopens hscan, hpanics]
      by_cases hfault : fault = .panic
      · simp [hfault]
      · simp [hfault, hremove]
    | ok torrs =>
      have hpanics : env.Panics old ↔ (env.addAll torrs db).panicked = true := by
        simp [Panics, hscan, panicked_addAll]
      rw [migrateTorrents_of_scan hopens hscan, hpanics]
      by_cases hpanicked : (env.addAll torrs db).panicked = true
      · simp [hpanicked]
      · simp [hpanicked, hremove]

theorem exists_scan (h : ∀ hash b, (hash, .bucket b) ∈ old.cursor → env.Migrates hash b) :
    ∃ torrs, scan old.cursor = .ok torrs := by
  cases hscan : scan old.cursor with
  | ok torrs => exact ⟨torrs, rfl⟩
  | error fault =>
    obtain ⟨hash, b, hmem, hload⟩ := exists_of_scan_error hscan
    obtain ⟨torr, -, hok, -⟩ := h hash b hmem
    cases hload.symm.trans hok

theorem migrates_of_gone (hgone : (env.migrateTorrents (some old) db).file = none)
    (h : env.opens = false ∨ env.removes = false ∨ env.Panics old ∨
      ∀ hash b, (hash, .bucket b) ∈ old.cursor → env.Migrates hash b) :
    ∀ hash b, (hash, .bucket b) ∈ old.cursor → env.Migrates hash b := by
  obtain ⟨hopens, hremoves, hpanics⟩ := file_eq_none_iff.mp hgone
  exact ((h.resolve_left (by simp [hopens])).resolve_left (by simp [hremoves])).resolve_left hpanics

theorem migrates_complete (hgone : (env.migrateTorrents (some old) db).file = none)
    (h : ∀ hash b, (hash, .bucket b) ∈ old.cursor → env.Migrates hash b) {hash : Bytes}
    {b : OldTorrent} (hmem : (hash, .bucket b) ∈ old.cursor) :
    ∃ torr, (hash, torr) ∈ (env.migrateTorrents (some old) db).added ∧
      encodeHex torr.spec.infoHash = asciiLower hash ∧
      ((env.migrateTorrents (some old) db).db.lookup (asciiLower hash)).isSome = true := by
  obtain ⟨hopens, -, hpanics⟩ := file_eq_none_iff.mp hgone
  obtain ⟨torrs, hscan⟩ := exists_scan h
  have hpanicked := panicked_eq_false hscan hpanics db
  obtain ⟨torr, spec, hload, hparse, hhash, hstores⟩ := h hash b hmem
  have htorr : torr ∈ torrs := (mem_scan hscan torr).mpr ⟨hash, b, hmem, hload⟩
  have hname := hash_of_load hload
  rw [migrateTorrents_of_scan hopens hscan]
  have hadded : (hash, torr.toTorrentDB spec) ∈ (env.addAll torrs db).added :=
    (env.mem_added hpanicked hash _).mpr
      ⟨torr, htorr, hname, spec, by rw [hname, hparse], rfl, hstores⟩
  exact ⟨_, hadded, hhash, env.isSome_addAll torrs db (Or.inr ⟨_, hadded, hhash.symm⟩)⟩

theorem Safe.migrates (h : env.Safe (some old) db)
    (hgone : (env.migrateTorrents (some old) db).file = none) {hash : Bytes} {b : OldTorrent}
    (hmem : (hash, .bucket b) ∈ old.cursor) : env.Migrates hash b := by
  obtain ⟨hopens, -, hpanics⟩ := file_eq_none_iff.mp hgone
  have hread : ¬ env.Failure old := by
    intro hfailure
    have hkept := h.kept old rfl hfailure
    rw [hgone] at hkept
    cases hkept
  obtain ⟨t, hadded, hhash, -⟩ := h.complete old rfl hgone hash b hmem
  cases hscan : scan old.cursor with
  | error fault =>
    obtain ⟨hash', b', hmem', hload⟩ := exists_of_scan_error hscan
    refine absurd (Or.inr ⟨hash', b', hmem', fun torr spec hok => ?_⟩) hread
    cases hload.symm.trans hok
  | ok torrs =>
    have hpanicked := panicked_eq_false hscan hpanics db
    rw [migrateTorrents_of_scan hopens hscan, env.mem_added hpanicked] at hadded
    obtain ⟨torr, htorr, rfl, spec, hparse, rfl, hstores⟩ := hadded
    obtain ⟨hash', b', hmem', hload⟩ := (mem_scan hscan torr).mp htorr
    obtain rfl := hash_of_load hload
    obtain rfl := bucket_unique hmem hmem'
    exact ⟨torr, spec, hload, hparse, hhash, hstores⟩

end Exact

/-- When the file is removed after a complete migration only. -/
theorem safe_iff (file : Option OldDB) (db : Dict Bytes Bytes) :
    env.Safe file db ↔ ∀ old, file = some old →
      env.opens = false ∨ env.removes = false ∨ env.Panics old ∨
        ∀ hash b, (hash, .bucket b) ∈ old.cursor → env.Migrates hash b := by
  constructor
  · rintro h old rfl
    by_cases hgone : (env.migrateTorrents (some old) db).file = none
    · exact Or.inr (Or.inr (Or.inr fun hash b hmem => h.migrates hgone hmem))
    · rw [file_eq_none_iff] at hgone
      by_cases hopens : env.opens = true
      · by_cases hremoves : env.removes = true
        · exact Or.inr (Or.inr (Or.inl (not_not.mp fun hp => hgone ⟨hopens, hremoves, hp⟩)))
        · exact Or.inr (Or.inl (by simpa using hremoves))
      · exact Or.inl (by simpa using hopens)
  · intro h
    constructor
    · rintro old rfl hgone hash b hmem
      exact migrates_complete hgone (migrates_of_gone hgone (h old rfl)) hmem
    · rintro old rfl hfailure
      by_contra hkept
      have hgone : (env.migrateTorrents (some old) db).file = none := by simpa using hkept
      have hall := migrates_of_gone hgone (h old rfl)
      rcases hfailure with hopens | ⟨hash, b, hmem, hbad⟩
      · exact absurd (file_eq_none_iff.mp hgone).1 (by simp [hopens])
      · obtain ⟨torr, spec, hload, hparse, -⟩ := hall hash b hmem
        exact hbad torr spec hload hparse

def willing : Migration where
  opens := true
  removes := true
  readOnly := false
  links := fun _ =>
    { parseURL := fun link => some ⟨ascii "magnet", [], link⟩
      toLower := asciiLower
      parseMagnetUri := fun link => .ok ⟨link, [], []⟩
      fromHttp := fun _ => .error .error
      fromFile := fun _ => .error .error }
  marshal := fun torr => some torr.title
  accepts := fun _ _ => true

def nameless : OldDB where
  torrents := some (Dict.ofItems
    [(ascii "61", .bucket ⟨some (ascii "One"), some (ascii "a"), some (List.replicate 8 0),
        some (List.replicate 8 0)⟩),
      (ascii "62", .bucket ⟨none, some (ascii "b"), some (List.replicate 8 0),
        some (List.replicate 8 0)⟩)])

theorem nameless_removed : ¬ willing.Safe (some nameless) ∅ := by
  intro h
  have hgone : (willing.migrateTorrents (some nameless) ∅).file = none := by decide +kernel
  have hadded : (willing.migrateTorrents (some nameless) ∅).added = [] := by decide +kernel
  have hmem : (ascii "61", .bucket ⟨some (ascii "One"), some (ascii "a"),
      some (List.replicate 8 0), some (List.replicate 8 0)⟩) ∈ nameless.cursor := by decide +kernel
  obtain ⟨torr, htorr, -⟩ := h.complete nameless rfl hgone _ _ hmem
  rw [hadded] at htorr
  cases htorr

end Migration

end GoStream.Settings
