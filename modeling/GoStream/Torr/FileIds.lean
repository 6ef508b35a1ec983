import GoStream.Foundations.Run
import GoStream.Foundations.SliceSort
import GoStream.Utils.Strings

/-!
# File IDs of a torrent
-/

namespace GoStream.Torr

open Foundations Utils

structure File where
  path : Bytes
  length : ℕ
  deriving DecidableEq, Repr

structure FileStat where
  id : ℤ
  path : Bytes
  length : ℕ
  deriving DecidableEq, Repr

inductive Engine where
  | dropped
  | waiting
  | ready (files : List File)
  deriving DecidableEq, Repr

structure Torrent where
  engine : Engine
  cachedFileStats : List FileStat
  deriving DecidableEq, Repr

def byPath (f g : File) : Bool := compareStrings f.path g.path

def fileStats : ℕ → List File → List FileStat
  | _, [] => []
  | i, f :: fs => ⟨i + 1, f.path, f.length⟩ :: fileStats (i + 1) fs

def pathOf (stats : List FileStat) (id : ℤ) : Option Bytes :=
  (stats.find? fun st => st.id == id).map FileStat.path

namespace Torrent

variable (S : SliceSort) (t : Torrent)

def new : Torrent := ⟨.waiting, []⟩

def gotInfo (metainfo : List File) : Torrent :=
  match t.engine with
  | .waiting => { t with engine := .ready metainfo }
  | _ => t

def drop : Torrent := { t with engine := .dropped }

def files : List File :=
  match t.engine with
  | .ready files => files
  | _ => []

def status : Torrent × Option (List FileStat) :=
  match t.engine with
  | .ready files =>
      if t.cachedFileStats = [] then
        let sorted := S.sort byPath files
        (⟨.ready sorted, fileStats 0 sorted⟩, some (fileStats 0 sorted))
      else (t, some t.cachedFileStats)
  | _ => (t, none)

def getFileByID (id : ℤ) : Option File := if id < 1 then none else t.files[(id - 1).toNat]?

def fileList : Torrent × List File :=
  if t.cachedFileStats.length = t.files.length ∧ t.files.length > 0 then (t, t.files)
  else
    match t.engine with
    | .ready files => ({ t with engine := .ready (S.sort byPath files) }, S.sort byPath files)
    | _ => (t, [])

end Torrent

structure Session where
  torrent : Torrent
  published : List (List FileStat)
  lookups : List (ℤ × Option Bytes)

namespace Session

inductive Op where
  | activate
  | gotInfo
  | drop
  | status
  | fileList
  | getFileByID (id : ℤ)
  deriving DecidableEq, Repr

def start : Session := ⟨⟨.dropped, []⟩, [], []⟩

def step (S : SliceSort) (metainfo : List File) (s : Session) : Op → Session
  | .activate => if s.torrent.engine = .dropped then { s with torrent := .new } else s
  | .gotInfo => { s with torrent := s.torrent.gotInfo metainfo }
  | .drop => { s with torrent := s.torrent.drop }
  | .status =>
      { s with
        torrent := (s.torrent.status S).1
        published := (s.torrent.status S).2.toList ++ s.published }
  | .fileList => { s with torrent := (s.torrent.fileList S).1 }
  | .getFileByID id =>
      match s.torrent.engine with
      | .ready _ =>
          { s with lookups := (id, (s.torrent.getFileByID id).map File.path) :: s.lookups }
      | _ => s

def IdsAgree (s : Session) : Prop :=
  ∀ stats ∈ s.published, ∀ lookup ∈ s.lookups, pathOf stats lookup.1 = lookup.2

instance (s : Session) : Decidable (IdsAgree s) :=
  inferInstanceAs (Decidable (∀ stats ∈ s.published, ∀ lookup ∈ s.lookups, _ = _))

def FilesInOrder (S : SliceSort) (s : Session) : Op → Prop
  | .getFileByID _ => S.sort byPath s.torrent.files = s.torrent.files
  | _ => True

instance (S : SliceSort) (s : Session) : ∀ op, Decidable (FilesInOrder S s op)
  | .getFileByID _ => inferInstanceAs (Decidable (S.sort byPath s.torrent.files = s.torrent.files))
  | .activate | .gotInfo | .drop | .status | .fileList => .isTrue trivial

def Resorts (S : SliceSort) (metainfo : List File) : Prop :=
  S.sort byPath (S.sort byPath metainfo) = S.sort byPath metainfo

instance (S : SliceSort) (metainfo : List File) : Decidable (Resorts S metainfo) :=
  inferInstanceAs (Decidable (_ = _))

theorem pathOf_fileStats (id : ℤ) : ∀ (i : ℕ) (files : List File), (i : ℤ) < id →
    pathOf (fileStats i files) id = (files[(id - 1 - i).toNat]?).map File.path := by
  intro i files
  induction files generalizing i with
  | nil => intro _; rfl
  | cons f fs ih =>
    intro hlt
    by_cases hid : (i : ℤ) + 1 = id
    · have hzero : (id - 1 - i).toNat = 0 := by omega
      simp [pathOf, fileStats, hid, hzero]
    · have hsucc : (id - 1 - i).toNat = (id - 1 - (i + 1 : ℕ)).toNat + 1 := by omega
      have hskip : pathOf (fileStats i (f :: fs)) id = pathOf (fileStats (i + 1) fs) id := by
        simp [pathOf, fileStats, hid]
      rw [hskip, ih (i + 1) (by omega), hsucc, List.getElem?_cons_succ]

theorem pathOf_fileStats_of_lt (id : ℤ) : ∀ (i : ℕ) (files : List File), id ≤ i →
    pathOf (fileStats i files) id = none := by
  intro i files
  induction files generalizing i with
  | nil => intro _; rfl
  | cons f fs ih =>
    intro hle
    have hskip : pathOf (fileStats i (f :: fs)) id = pathOf (fileStats (i + 1) fs) id := by
      have hne : ¬ (i : ℤ) + 1 = id := by omega
      simp [pathOf, fileStats, hne]
    rw [hskip]
    exact ih (i + 1) (by omega)

theorem getFileByID_eq_pathOf {t : Torrent} {files : List File} (h : t.engine = .ready files)
    (id : ℤ) : (t.getFileByID id).map File.path = pathOf (fileStats 0 files) id := by
  unfold Torrent.getFileByID
  split_ifs with hid
  · rw [pathOf_fileStats_of_lt id 0 files (by omega)]
    rfl
  · rw [pathOf_fileStats id 0 files (by omega)]
    simp [Torrent.files, h]

variable {S : SliceSort} {metainfo : List File} {s : Session}

structure Inv (S : SliceSort) (metainfo : List File) (s : Session) : Prop where
  waiting : s.torrent.engine = .waiting → s.torrent.cachedFileStats = []
  engine : ∀ files, s.torrent.engine = .ready files →
    files = metainfo ∨ files = S.sort byPath metainfo
  cached : s.torrent.cachedFileStats = [] ∨
    s.torrent.cachedFileStats = fileStats 0 (S.sort byPath metainfo) ∧
      ∀ files, s.torrent.engine = .ready files → files = S.sort byPath metainfo
  published : ∀ stats ∈ s.published, stats = fileStats 0 (S.sort byPath metainfo)
  lookups : ∀ lookup ∈ s.lookups,
    lookup.2 = pathOf (fileStats 0 (S.sort byPath metainfo)) lookup.1

theorem Inv.idsAgree (h : Inv S metainfo s) : IdsAgree s := by
  intro stats hstats lookup hlookup
  rw [h.published stats hstats, h.lookups lookup hlookup]

theorem Inv.sort_eq (h : Inv S metainfo s) (hre : Resorts S metainfo) {files : List File}
    (hf : s.torrent.engine = .ready files) : S.sort byPath files = S.sort byPath metainfo := by
  rcases h.engine files hf with rfl | rfl
  · rfl
  · exact hre

theorem Inv.status (h : Inv S metainfo s) (hre : Resorts S metainfo) :
    Inv S metainfo (step S metainfo s .status) := by
  simp only [step, Torrent.status]
  split
  · next files hf =>
    have hsort := h.sort_eq hre hf
    split_ifs with hc
    · refine ⟨nofun, ?_, ?_, ?_, h.lookups⟩
      · rintro fs ⟨⟩
        exact .inr hsort
      · refine .inr ⟨congrArg _ hsort, ?_⟩
        rintro fs ⟨⟩
        exact hsort
      · rintro stats hstats
        rcases List.mem_cons.mp hstats with rfl | hstats
        · rw [hsort]
        · exact h.published stats hstats
    · refine ⟨h.waiting, h.engine, h.cached, ?_, h.lookups⟩
      rintro stats hstats
      rcases List.mem_cons.mp hstats with rfl | hstats
      · exact (h.cached.resolve_left hc).1
      · exact h.published stats hstats
  · exact ⟨h.waiting, h.engine, h.cached, h.published, h.lookups⟩

theorem Inv.fileList (h : Inv S metainfo s) (hre : Resorts S metainfo) :
    Inv S metainfo (step S metainfo s .fileList) := by
  simp only [step, Torrent.fileList]
  split_ifs
  · exact ⟨h.waiting, h.engine, h.cached, h.published, h.lookups⟩
  split
  · next files hf =>
    have hsort := h.sort_eq hre hf
    refine ⟨nofun, ?_, ?_, h.published, h.lookups⟩
    · rintro fs ⟨⟩
      exact .inr hsort
    · rcases h.cached with hc | ⟨hc, -⟩
      · exact .inl hc
      · refine .inr ⟨hc, ?_⟩
        rintro fs ⟨⟩
        exact hsort
  · exact ⟨h.waiting, h.engine, h.cached, h.published, h.lookups⟩

theorem Inv.getFileByID (h : Inv S metainfo s) {id : ℤ}
    (hok : FilesInOrder S s (.getFileByID id)) :
    Inv S metainfo (step S metainfo s (.getFileByID id)) := by
  simp only [step]
  split
  · next files hf =>
    refine ⟨h.waiting, h.engine, h.cached, h.published, ?_⟩
    intro lookup hlookup
    rcases List.mem_cons.mp hlookup with rfl | hlookup
    · have hfiles : files = S.sort byPath metainfo := by
        rcases h.engine files hf with rfl | hfiles
        · simpa [FilesInOrder, Torrent.files, hf] using hok.symm
        · exact hfiles
      rw [← hfiles]
      exact getFileByID_eq_pathOf hf id
    · exact h.lookups lookup hlookup
  · exact h

theorem Inv.gotInfo (h : Inv S metainfo s) : Inv S metainfo (step S metainfo s .gotInfo) := by
  simp only [step, Torrent.gotInfo]
  split
  · next hw =>
    refine ⟨nofun, ?_, .inl (h.waiting hw), h.published, h.lookups⟩
    rintro fs ⟨⟩
    exact .inl rfl
  · exact ⟨h.waiting, h.engine, h.cached, h.published, h.lookups⟩

theorem Inv.activate (h : Inv S metainfo s) : Inv S metainfo (step S metainfo s .activate) := by
  simp only [step]
  split_ifs
  · exact ⟨fun _ => rfl, nofun, .inl rfl, h.published, h.lookups⟩
  · exact h

theorem Inv.drop (h : Inv S metainfo s) : Inv S metainfo (step S metainfo s .drop) := by
  refine ⟨nofun, nofun, ?_, h.published, h.lookups⟩
  rcases h.cached with hc | ⟨hc, -⟩
  · exact .inl hc
  · exact .inr ⟨hc, nofun⟩

theorem inv_step (hre : Resorts S metainfo) (s : Session) (op : Op) (h : Inv S metainfo s)
    (hok : FilesInOrder S s op) : Inv S metainfo (step S metainfo s op) := by
  cases op with
  | activate => exact h.activate
  | gotInfo => exact h.gotInfo
  | drop => exact h.drop
  | status => exact h.status hre
  | fileList => exact h.fileList hre
  | getFileByID id => exact h.getFileByID hok

theorem inv_start : Inv S metainfo start where
  waiting := nofun
  engine := nofun
  cached := .inl rfl
  published := by simp [start]
  lookups := by simp [start]

/-- A file ID means the same file at all times. -/
theorem ids_agree (S : SliceSort) (metainfo : List File) (hre : Resorts S metainfo) (ops : List Op)
    (h : Meets (FilesInOrder S) (step S metainfo) start ops) :
    ∀ pre, pre <+: ops → IdsAgree (run (step S metainfo) start pre) :=
  Meets.good (inv_step hre) (fun _ hs => hs.idsAgree) ops inv_start h

def twoFiles : List File := [⟨[98], 1⟩, ⟨[97], 1⟩]

theorem ids_agree_listed :
    let ops : List Op := [.activate, .gotInfo, .fileList, .getFileByID 1, .status]
    (run (step .insertion twoFiles) start ops).lookups = [(1, some [97])] ∧
      IdsAgree (run (step .insertion twoFiles) start ops) :=
  ⟨by decide, ids_agree .insertion twoFiles (by decide) _ (by decide) _ (List.prefix_refl _)⟩

theorem ids_disagree : ¬ ∀ (metainfo : List File) (ops : List Op),
    IdsAgree (run (step .insertion metainfo) start ops) := by
  intro h
  exact absurd (h twoFiles [.activate, .gotInfo, .getFileByID 1, .status]) (by decide)

end Session

end GoStream.Torr
