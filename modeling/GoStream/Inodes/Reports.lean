import GoStream.Foundations.Run
import GoStream.Inodes.Stubs

/-!
# The inodes that the file system reports
-/

namespace GoStream.Inodes.Reports

open Foundations

variable {H : Hashing}

structure Library where
  url : Dict Bytes Bytes
  dirs : List Bytes

def childOf (dir p : Bytes) : Bool := p = dir ++ ascii "/" ++ afterLast 47 p

def Library.stubsIn (lib : Library) (dir : Bytes) : List Bytes := lib.url.keys.filter (childOf dir)

def Library.dirsIn (lib : Library) (dir : Bytes) : List Bytes := lib.dirs.filter (childOf dir)

structure CachedListing where
  entries : List (Bytes × UInt64)
  expiresAt : ℕ

structure State (H : Hashing) where
  map : InodeMap H
  dirCache : Dict Bytes CachedListing
  reports : List (Bytes × UInt64)

def State.init : State H := ⟨.new, ∅, []⟩

def dirCacheTTL : ℕ := 10

inductive Op
  | readdir (dir : Bytes) (now : ℕ)
  | lookup (path : Bytes) (readable : Bool)
  | getattr (path : Bytes)
  | addFile (path infohash : Bytes) (index : Int64)
  | addDir (path : Bytes)
  | removeFile (path : Bytes)
  | pruneMissing (order : MapOrder) (foundFiles : Bytes → Bool)

def State.cached (s : State H) (dir : Bytes) (now : ℕ) : Option (List (Bytes × UInt64)) :=
  (s.dirCache.lookup dir).bind fun c => if now > c.expiresAt then none else some c.entries

def list (lib : Library) (s : State H) (dir : Bytes) (now : ℕ) : State H :=
  let map := (lib.dirsIn dir).foldl (fun m d => (m.getDirInode d).2) s.map
  let entries := (lib.stubsIn dir).map fun p => (p, map.getFileInodeFromMap p)
  { map
    dirCache := AList.insert dir ⟨entries, now + dirCacheTTL⟩ s.dirCache
    reports := entries ++ s.reports }

def step (lib : Library) (s : State H) : Op → State H
  | .readdir dir now =>
    match s.cached dir now with
    | some entries => { s with reports := entries ++ s.reports }
    | none => list lib s dir now
  | .lookup p readable =>
    -- without metadata a stub is not a directory either, and the answer is ENOENT
    match lib.url.lookup p with
    | none => s
    | some url =>
      if readable then
        let map := s.map.addFileToInodeMap p url
        { s with map, reports := (p, map.getFileInodeFromMap p) :: s.reports }
      else s
  | .getattr p =>
    if p ∈ lib.url then { s with reports := (p, s.map.getFileInodeFromMap p) :: s.reports } else s
  | .addFile p h i => { s with map := (s.map.addFile p h i).2 }
  | .addDir p => { s with map := (s.map.addDir p).2 }
  | .removeFile p => { s with map := s.map.removeFile p }
  | .pruneMissing order found => { s with map := (s.map.pruneMissing order found).2 }

def Library.named (H : Hashing) (lib : Library) (p : Bytes) : Option (Bytes × Int64) :=
  (lib.url.lookup p).bind H.named

structure StableReports (lib : Library) (s : State H) : Prop where
  distinct : ∀ x ∈ s.reports, ∀ y ∈ s.reports, ∀ f g, lib.named H x.1 = some f →
    lib.named H y.1 = some g → f ≠ g → x.2 ≠ y.2
  stable : ∀ x ∈ s.reports, ∀ y ∈ s.reports, x.1 = y.1 → x.2 = y.2

def Registered (lib : Library) (m : InodeMap H) (p : Bytes) : Prop :=
  ∃ h i, lib.named H p = some (h, i) ∧ m.nameMap.lookup p = some (H.fileKey h i) ∧
    m.getFileInode p ≠ 0

def identified (lib : Library) (s : State H) : Op → Prop
  | .readdir dir now => s.cached dir now = none → ∀ p ∈ lib.stubsIn dir, Registered lib s.map p
  | .lookup p readable => readable = true → ∀ url, lib.url.lookup p = some url →
      ∃ h i, H.named url = some (h, i) ∧ H.generateFileInode h i ≠ 0 ∧
      (s.map.nameMap.lookup p = some (H.fileKey h i) →
        s.map.fileMap.lookup (H.fileKey h i) ≠ none)
  | .getattr p => p ∈ lib.url → Registered lib s.map p
  | .addFile p h i => h ≠ [] → ∀ url, lib.url.lookup p = some url →
      H.stubKey url = some (H.fileKey h i)
  | _ => True

def ownInode (H : Hashing) (lib : Library) (p : Bytes) : Option UInt64 :=
  (lib.named H p).map fun x => H.generateFileInode x.1 x.2

structure Sound (lib : Library) (m : InodeMap H) : Prop where
  name : ∀ p url k, lib.url.lookup p = some url → m.nameMap.lookup p = some k →
    H.stubKey url = some k
  inode : ∀ k v, m.fileMap.lookup k = some v → v = H.xxhash k &&& inodeFileMask

structure Inv (lib : Library) (s : State H) : Prop where
  map : Sound lib s.map
  cache : ∀ dir c, s.dirCache.lookup dir = some c → ∀ x ∈ c.entries, ownInode H lib x.1 = some x.2
  report : ∀ x ∈ s.reports, ownInode H lib x.1 = some x.2

variable {lib : Library} {m : InodeMap H}

theorem Sound.mono (hm : Sound lib m) {m' : InodeMap H}
    (hname : ∀ p k, m'.nameMap.lookup p = some k → m.nameMap.lookup p = some k)
    (hfile : ∀ k v, m'.fileMap.lookup k = some v → m.fileMap.lookup k = some v) : Sound lib m' where
  name := fun p url k hurl hk => hm.name p url k hurl (hname p k hk)
  inode := fun k v hv => hm.inode k v (hfile k v hv)

theorem Sound.congr (hm : Sound lib m) {m' : InodeMap H} (hname : m'.nameMap = m.nameMap)
    (hfile : m'.fileMap = m.fileMap) : Sound lib m' :=
  hm.mono (fun _ _ hk => hname ▸ hk) fun _ _ hv => hfile ▸ hv

theorem Sound.addFile (hm : Sound lib m) {p h : Bytes} {i : Int64}
    (hown : h ≠ [] → ∀ url, lib.url.lookup p = some url → H.stubKey url = some (H.fileKey h i)) :
    Sound lib (m.addFile p h i).2 := by
  by_cases hh : h = []
  · rw [hh, InodeMap.addFile_of_hash_empty]
    exact hm
  · constructor
    · intro q url k hurl hk
      rw [InodeMap.lookup_nameMap_addFile hh] at hk
      split_ifs at hk with hqp
      · rw [← Option.some.inj hk]
        exact hown hh url (hqp ▸ hurl)
      · exact hm.name q url k hurl hk
    · intro k v hv
      rw [InodeMap.lookup_fileMap_addFile hh] at hv
      split_ifs at hv with hnew
      · rw [← Option.some.inj hv, hnew.2]
        rfl
      · exact hm.inode k v hv

theorem Sound.removeFile (hm : Sound lib m) (p : Bytes) : Sound lib (m.removeFile p) := by
  refine hm.mono (fun q k hk => ?_) fun k v hv => ?_
  · rw [InodeMap.lookup_nameMap_removeFile] at hk
    split_ifs at hk
    exact hk
  · rw [InodeMap.lookup_fileMap_removeFile] at hv
    split_ifs at hv
    exact hv

theorem Sound.pruneMissing (hm : Sound lib m) (order : MapOrder) (found : Bytes → Bool) :
    Sound lib (m.pruneMissing order found).2 := by
  refine hm.mono (fun q k hk => ?_) fun k v hv => ?_
  · rw [InodeMap.lookup_nameMap_pruneMissing] at hk
    split_ifs at hk
    exact hk
  · rw [(InodeMap.maps_pruneMissing order found).2] at hv
    exact InodeMap.lookup_fileMap_of_removeFiles hv

theorem maps_getDirInodes (l : List Bytes) (m : InodeMap H) :
    (l.foldl (fun m d => (m.getDirInode d).2) m).nameMap = m.nameMap ∧
      (l.foldl (fun m d => (m.getDirInode d).2) m).fileMap = m.fileMap := by
  induction l generalizing m with
  | nil => exact ⟨rfl, rfl⟩
  | cons d l ih =>
    obtain ⟨hn, hf⟩ := InodeMap.maps_getDirInode (m := m) d
    rw [List.foldl_cons, (ih _).1, (ih _).2, hn, hf]
    exact ⟨rfl, rfl⟩

theorem getFileInodeFromMap_of_key (hm : Sound lib m) {p h : Bytes} {i : Int64}
    (hname : m.nameMap.lookup p = some (H.fileKey h i)) (hne : m.getFileInode p ≠ 0) :
    m.getFileInodeFromMap p = H.generateFileInode h i := by
  unfold InodeMap.getFileInodeFromMap
  rw [if_pos hne]
  unfold InodeMap.getFileInode at hne ⊢
  rw [hname] at hne ⊢
  dsimp only at hne ⊢
  cases hv : m.fileMap.lookup (H.fileKey h i) with
  | none => simp [hv] at hne
  | some v =>
    rw [hm.inode _ v hv]
    rfl

theorem Registered.report (hm : Sound lib m) {p : Bytes} (hp : Registered lib m p) :
    ownInode H lib p = some (m.getFileInodeFromMap p) := by
  obtain ⟨h, i, hnamed, hname, hne⟩ := hp
  rw [getFileInodeFromMap_of_key hm hname hne, ownInode, hnamed]
  rfl

theorem inv_readdir {s : State H} (hs : Inv lib s) (dir : Bytes) (now : ℕ)
    (hok : identified lib s (.readdir dir now)) : Inv lib (step lib s (.readdir dir now)) := by
  simp only [step]
  split
  · next entries hcached =>
    obtain ⟨c, hc, hentries⟩ := Option.bind_eq_some_iff.mp hcached
    split_ifs at hentries
    obtain rfl := Option.some.inj hentries
    refine ⟨hs.map, hs.cache, fun x hx => ?_⟩
    rcases List.mem_append.mp hx with hx | hx
    · exact hs.cache dir c hc x hx
    · exact hs.report x hx
  · next hnone =>
    obtain ⟨hn, hf⟩ := maps_getDirInodes (lib.dirsIn dir) s.map
    have hmap : Sound lib ((lib.dirsIn dir).foldl (fun m d => (m.getDirInode d).2) s.map) :=
      hs.map.congr hn hf
    have hlisted : ∀ x ∈ (lib.stubsIn dir).map fun p =>
        (p, ((lib.dirsIn dir).foldl (fun m d => (m.getDirInode d).2) s.map).getFileInodeFromMap p),
        ownInode H lib x.1 = some x.2 := by
      intro x hx
      obtain ⟨p, hp, rfl⟩ := List.mem_map.mp hx
      obtain ⟨h, i, hnamed, hname, hne⟩ := hok hnone p hp
      refine Registered.report hmap ⟨h, i, hnamed, by rw [hn]; exact hname, ?_⟩
      unfold InodeMap.getFileInode at hne ⊢
      rw [hn, hf]
      exact hne
    refine ⟨hmap, fun d c hc x hx => ?_, fun x hx => ?_⟩
    · simp only [list, Dict.lookup_insert] at hc
      split_ifs at hc
      · obtain rfl := Option.some.inj hc
        exact hlisted x hx
      · exact hs.cache d c hc x hx
    · rcases List.mem_append.mp hx with hx | hx
      · exact hlisted x hx
      · exact hs.report x hx

theorem inv_lookup {s : State H} (hs : Inv lib s) (p : Bytes) (readable : Bool)
    (hok : identified lib s (.lookup p readable)) : Inv lib (step lib s (.lookup p readable)) := by
  simp only [step]
  split
  · exact hs
  · next url hurl =>
    split_ifs with hread
    · obtain ⟨h, i, hnamed, hpos, hthere⟩ := hok hread url hurl
      have hh := named_ne_nil hnamed
      have hmap : s.map.addFileToInodeMap p url = (s.map.addFile p h i).2 := by
        simp [InodeMap.addFileToInodeMap, hnamed]
      have hsound : Sound lib (s.map.addFile p h i).2 := hs.map.addFile fun _ url' hurl' => by
        obtain rfl := Option.some.inj (hurl.symm.trans hurl')
        simp [Hashing.stubKey, hnamed]
      rw [hmap]
      refine ⟨hsound, hs.cache, fun x hx => ?_⟩
      rcases List.mem_cons.mp hx with rfl | hx
      · -- the key has its inode after the step, whether it is new or not
        have hname : (s.map.addFile p h i).2.nameMap.lookup p = some (H.fileKey h i) := by
          rw [InodeMap.lookup_nameMap_addFile hh, if_pos rfl]
        refine Registered.report hsound ⟨h, i, ?_, hname, ?_⟩
        · simp [Library.named, hurl, hnamed]
        · unfold InodeMap.getFileInode
          rw [hname]
          dsimp only
          rw [InodeMap.lookup_fileMap_addFile hh]
          split_ifs with hnew
          · exact hpos
          · obtain ⟨v, hv⟩ := Option.ne_none_iff_exists'.mp (hthere (by simpa using hnew))
            rw [hv, hs.map.inode _ v hv]
            exact hpos
      · exact hs.report x hx
    · exact hs

theorem inv_step (s : State H) (op : Op) (hs : Inv lib s) (hok : identified lib s op) :
    Inv lib (step lib s op) := by
  cases op with
  | readdir dir now => exact inv_readdir hs dir now hok
  | lookup p readable => exact inv_lookup hs p readable hok
  | getattr p =>
    simp only [step]
    split_ifs with hp
    · refine ⟨hs.map, hs.cache, fun x hx => ?_⟩
      rcases List.mem_cons.mp hx with rfl | hx
      · exact (hok hp).report hs.map
      · exact hs.report x hx
    · exact hs
  | addFile p h i => exact ⟨hs.map.addFile hok, hs.cache, hs.report⟩
  | addDir p =>
    obtain ⟨hn, hf⟩ := InodeMap.maps_addDir (m := s.map) p
    exact ⟨hs.map.congr hn hf, hs.cache, hs.report⟩
  | removeFile p => exact ⟨hs.map.removeFile p, hs.cache, hs.report⟩
  | pruneMissing order found => exact ⟨hs.map.pruneMissing order found, hs.cache, hs.report⟩

theorem inv_init : Inv lib (State.init : State H) where
  map := ⟨fun p url k _ hk => by simp [State.init, InodeMap.new] at hk,
    fun k v hv => by simp [State.init, InodeMap.new] at hv⟩
  cache := fun dir c hc => by simp [State.init] at hc
  report := fun x hx => by simp [State.init] at hx

def DistinctInodes (H : Hashing) (lib : Library) : Prop :=
  ∀ p q f g, lib.named H p = some f → lib.named H q = some g →
    H.generateFileInode f.1 f.2 = H.generateFileInode g.1 g.2 → H.fileKey f.1 f.2 = H.fileKey g.1 g.2

theorem stableReports_of_inv (hlower : ∀ b, H.toLower (H.toLower b) = H.toLower b)
    (hinj : DistinctInodes H lib) (s : State H) (hs : Inv lib s) : StableReports lib s := by
  constructor
  · intro x hx y hy f g hf hg hne heq
    have hinode : H.generateFileInode f.1 f.2 = H.generateFileInode g.1 g.2 := by
      have hxf := hs.report x hx
      have hyg := hs.report y hy
      simp only [ownInode, hf, hg, Option.map_some, Option.some.injEq] at hxf hyg
      rw [hxf, hyg, heq]
    obtain ⟨hhash, hidx⟩ := fileKey_inj (hinj x.1 y.1 f g hf hg hinode)
    obtain ⟨_, -, hf'⟩ := Option.bind_eq_some_iff.mp hf
    obtain ⟨_, -, hg'⟩ := Option.bind_eq_some_iff.mp hg
    rw [toLower_of_named hlower hf', toLower_of_named hlower hg'] at hhash
    exact hne (Prod.ext hhash hidx)
  · intro x hx y hy heq
    have hxy := (hs.report x hx).symm.trans (heq ▸ hs.report y hy)
    exact Option.some.inj hxy

/-- Reported inodes are stable and distinct. -/
theorem reports_stable (hlower : ∀ b, H.toLower (H.toLower b) = H.toLower b)
    (hinj : DistinctInodes H lib) (ops : List Op)
    (h : Meets (identified lib) (step lib) (State.init : State H) ops) :
    ∀ pre, pre <+: ops → StableReports lib (run (step lib) (State.init : State H) pre) :=
  Meets.good inv_step (stableReports_of_inv hlower hinj) ops inv_init h

def urlOf (hash : Bytes) : Bytes := ascii "/stream?link=" ++ hash ++ ascii "&index=1&play"

def hashA : Bytes := List.replicate 40 97

def hashB : Bytes := List.replicate 40 98

def twoShows : Library where
  url := AList.insert (ascii "/tv/A/e.mkv") (urlOf hashA)
    (AList.singleton (ascii "/tv/B/e.mkv") (urlOf hashB))
  dirs := [ascii "/tv/A", ascii "/tv/B"]

theorem lookup_twoShows {p url : Bytes} (h : twoShows.url.lookup p = some url) :
    (p = ascii "/tv/A/e.mkv" ∧ url = urlOf hashA) ∨ (p = ascii "/tv/B/e.mkv" ∧ url = urlOf hashB) := by
  simp only [twoShows, Dict.lookup_insert, Dict.lookup_singleton] at h
  split_ifs at h with hA hB
  · exact .inl ⟨hA, (Option.some.inj h).symm⟩
  · exact .inr ⟨hB, (Option.some.inj h).symm⟩

theorem named_twoShows :
    Hashing.standard.named (urlOf hashA) = some (hashA, 1) ∧
      Hashing.standard.named (urlOf hashB) = some (hashB, 1) ∧
      Hashing.standard.generateFileInode hashA 1 ≠ 0 ∧
      Hashing.standard.generateFileInode hashB 1 ≠ 0 ∧
      Hashing.standard.generateFileInode hashA 1 ≠ Hashing.standard.generateFileInode hashB 1 := by
  decide +kernel

theorem distinctInodes_twoShows : DistinctInodes .standard twoShows := by
  obtain ⟨hA, hB, -, -, hne⟩ := named_twoShows
  have hcases : ∀ p f, twoShows.named .standard p = some f → f = (hashA, 1) ∨ f = (hashB, 1) := by
    intro p f hf
    obtain ⟨url, hurl, hnamed⟩ := Option.bind_eq_some_iff.mp hf
    rcases lookup_twoShows hurl with ⟨-, rfl⟩ | ⟨-, rfl⟩
    · exact .inl (Option.some.inj (hnamed.symm.trans hA))
    · exact .inr (Option.some.inj (hnamed.symm.trans hB))
  intro p q f g hf hg heq
  rcases hcases p f hf with rfl | rfl <;> rcases hcases q g hg with rfl | rfl
  · rfl
  · exact absurd heq hne
  · exact absurd heq.symm hne
  · rfl

theorem reports_stable_after_lookup :
    StableReports twoShows (run (step twoShows) (State.init : State .standard)
      [.lookup (ascii "/tv/A/e.mkv") true, .lookup (ascii "/tv/B/e.mkv") true,
        .readdir (ascii "/tv/B") 0]) := by
  obtain ⟨hA, hB, hposA, hposB, -⟩ := named_twoShows
  have hstate : ∀ s : State .standard,
      s = run (step twoShows) (State.init : State .standard)
        [.lookup (ascii "/tv/A/e.mkv") true, .lookup (ascii "/tv/B/e.mkv") true] →
      twoShows.stubsIn (ascii "/tv/B") = [ascii "/tv/B/e.mkv"] ∧
        twoShows.named .standard (ascii "/tv/B/e.mkv") = some (hashB, 1) ∧
        s.map.nameMap.lookup (ascii "/tv/B/e.mkv") = some (Hashing.standard.fileKey hashB 1) ∧
        s.map.getFileInode (ascii "/tv/B/e.mkv") ≠ 0 := by
    rintro s rfl
    decide +kernel
  apply reports_stable toLower_standard distinctInodes_twoShows _ ?_ _ List.prefix_rfl
  refine ⟨fun _ url hurl => ?_, fun _ url hurl => ?_, fun _ p hp => ?_, trivial⟩
  · rcases lookup_twoShows hurl with ⟨-, rfl⟩ | ⟨h, -⟩
    · refine ⟨hashA, 1, hA, hposA, fun hnone => ?_⟩
      simp [State.init, InodeMap.new] at hnone
    · exact absurd h (by decide)
  · rcases lookup_twoShows hurl with ⟨h, -⟩ | ⟨-, rfl⟩
    · exact absurd h (by decide)
    · refine ⟨hashB, 1, hB, hposB, ?_⟩
      decide +kernel
  · obtain ⟨hstubs, hnamed, hname, hne⟩ := hstate _ rfl
    rw [hstubs, List.mem_singleton] at hp
    subst hp
    exact ⟨hashB, 1, hnamed, hname, hne⟩

theorem same_inode_for_two_shows :
    let s := run (step twoShows) (State.init : State .standard)
      [.lookup (ascii "/tv/A/e.mkv") true, .readdir (ascii "/tv/B") 0,
        .lookup (ascii "/tv/B/e.mkv") true]
    s.reports =
        [(ascii "/tv/B/e.mkv", Hashing.standard.generateFileInode hashB 1),
          (ascii "/tv/B/e.mkv", Hashing.standard.generateFileInode hashA 1),
          (ascii "/tv/A/e.mkv", Hashing.standard.generateFileInode hashA 1)] ∧
      ¬ StableReports twoShows s := by
  intro s
  have hreports : s.reports =
      [(ascii "/tv/B/e.mkv", Hashing.standard.generateFileInode hashB 1),
        (ascii "/tv/B/e.mkv", Hashing.standard.generateFileInode hashA 1),
        (ascii "/tv/A/e.mkv", Hashing.standard.generateFileInode hashA 1)] := by
    decide +kernel
  refine ⟨hreports, fun h => ?_⟩
  have hstable := h.stable
  simp only [hreports] at hstable
  exact named_twoShows.2.2.2.2
    (hstable _ List.mem_cons_self _ (List.mem_cons_of_mem _ List.mem_cons_self) rfl).symm

end GoStream.Inodes.Reports
