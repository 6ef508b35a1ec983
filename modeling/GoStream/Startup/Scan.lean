import GoStream.Foundations.Run
import GoStream.Inodes.Stubs
import GoStream.MetaCache.Reads

/-!
# The scan at start-up and its garbage collection
-/

namespace GoStream.Startup

open Foundations Inodes MetaCache

variable {H : Hashing}

inductive Listing
  | empty
  | file (name url : Bytes) (rest : Listing)
  | dir (name : Bytes) (inside rest : Listing)

structure Stub where
  path : Bytes
  url : Bytes
  above : List Bytes

namespace Listing

def stubs (path : Bytes) (above : List Bytes) : Listing → List Stub
  | .empty => []
  | .file name url rest =>
    (if isMkv name then [⟨filepathJoin path name, url, above⟩] else []) ++ rest.stubs path above
  | .dir name inside rest =>
    inside.stubs (filepathJoin path name) (filepathJoin path name :: above) ++ rest.stubs path above

def walk (recursive : Bool) (fails : Bytes → Bool) (path : Bytes) : Listing → List Bytes
  | .empty => []
  | .file name _ rest =>
    (if !fails (filepathJoin path name) && isMkv name then [filepathJoin path name] else []) ++
      rest.walk recursive fails path
  | .dir name inside rest =>
    -- `SkipDir` unless the walk is recursive
    (if !fails (filepathJoin path name) && recursive then
      inside.walk recursive fails (filepathJoin path name) else []) ++
      rest.walk recursive fails path

end Listing

structure Library where
  sourcePath : Bytes
  movies : Listing
  tv : Listing

namespace Library

variable (lib : Library)

def moviesPath : Bytes := filepathJoin lib.sourcePath (ascii "movies")

def tvPath : Bytes := filepathJoin lib.sourcePath (ascii "tv")

def movieStubs : List Stub := lib.movies.stubs lib.moviesPath []

def tvStubs : List Stub := lib.tv.stubs lib.tvPath []

def stubs : List Stub := lib.movieStubs ++ lib.tvStubs

def Has (p : Bytes) : Prop := ∃ f ∈ lib.stubs, f.path = p

instance (p : Bytes) : Decidable (lib.Has p) :=
  inferInstanceAs (Decidable (∃ f ∈ lib.stubs, f.path = p))

def metadata (p : Bytes) : Option Metadata :=
  (lib.stubs.find? fun f => f.path = p).map fun f => ⟨f.url, p⟩

def walks (fails : Bytes → Bool) : List (List Bytes) :=
  [if fails lib.moviesPath then [] else lib.movies.walk false fails lib.moviesPath,
    if fails lib.tvPath then [] else lib.tv.walk true fails lib.tvPath]

end Library

inductive Reader
  | queued
  | running (call : ReadCall)
  | marking
  deriving DecidableEq

inductive Phase
  | idle
  | walking (todo : List Bytes) (later : List (List Bytes))
  | collecting (shard : ℕ) (toRemove : List Bytes)
  | removing (toRemove : List Bytes)
  | done

structure State (H : Hashing) where
  map : InodeMap H
  cache : LRUCache H Metadata
  lookups : Dict ℕ (Bytes × ReadCall)
  next : ℕ
  readers : Dict Bytes Reader
  foundFiles : Dict Bytes Bool
  phase : Phase
  pruned : List Bytes

def State.init (map : InodeMap H) (cache : LRUCache H Metadata) : State H where
  map := map
  cache := cache
  lookups := ∅
  next := 0
  readers := ∅
  foundFiles := ∅
  phase := .idle
  pruned := []

inductive Op
  | lookup (path : Bytes)
  | advance (id : ℕ) (now : ℕ) (ok : Bool)
  | start (fails : Bytes → Bool)
  | scan (now : ℕ) (order : MapOrder)
  | process (path : Bytes) (now : ℕ) (ok : Bool)

namespace State

variable (s : State H)

def free (p : Bytes) : Bool := s.lookups.items.all fun x => !(x.2.1 = p && x.2.2.holdsLock)

def found (p : Bytes) : Bool := (s.foundFiles.lookup p).getD false

def blocked : Bool := s.readers.items.any fun x => x.2 = .queued

def running : ℕ := (s.readers.items.filter fun x => x.2 ≠ .queued).length

end State

def toRemoveIn (m : InodeMap H) (order : MapOrder) (foundFiles : Bytes → Bool) (i : Fin 32) :
    List Bytes :=
  ((order.arrange (m.nameMap.parts i).items).map Prod.fst).filter fun fullPath => !foundFiles fullPath

def advance (lib : Library) (s : State H) (id now : ℕ) (ok : Bool) : State H :=
  match s.lookups.lookup id with
  | none => s
  | some (_, .returned none) => { s with lookups := AList.erase id s.lookups }
  | some (p, .returned (some m)) =>
    { s with map := s.map.addFileToInodeMap p m.url, lookups := AList.erase id s.lookups }
  | some (p, call) =>
    let (call, cache) := call.step s.cache p now (s.free p) (if ok then lib.metadata p else none)
    { s with cache, lookups := AList.insert id (p, call) s.lookups }

def process (lib : Library) (s : State H) (p : Bytes) (now : ℕ) (ok : Bool) : State H :=
  match s.readers.lookup p with
  | none => s
  | some .queued =>
    if s.running < 10 then { s with readers := AList.insert p (.running .reading) s.readers } else s
  | some (.running (.returned none)) => { s with readers := AList.erase p s.readers }
  | some (.running (.returned (some m))) =>
    { s with
      map := s.map.addFileToInodeMap p m.url
      readers := AList.insert p .marking s.readers }
  | some (.running call) =>
    let (call, cache) := call.step s.cache p now true (if ok then lib.metadata p else none)
    { s with cache, readers := AList.insert p (.running call) s.readers }
  | some .marking =>
    { s with foundFiles := AList.insert p true s.foundFiles, readers := AList.erase p s.readers }

def scan (s : State H) (now : ℕ) (order : MapOrder) : State H :=
  match s.phase with
  | .idle | .done => s
  | .walking (p :: todo) later =>
    if s.blocked then s
    else
      match s.cache.get p now with
      | (some _, cache) => { s with cache, phase := .walking todo later }
      | (none, cache) =>
        { s with cache, phase := .walking todo later, readers := AList.insert p .queued s.readers }
  | .walking [] later =>
    -- `wg.Wait`
    if s.readers.keys = [] then
      match later with
      | walk :: later => { s with phase := .walking walk later }
      | [] => { s with phase := .collecting 0 [] }
    else s
  | .collecting i toRemove =>
    if h : i < 32 then
      let missing := toRemoveIn s.map order s.found ⟨i, h⟩
      { s with phase := .collecting (i + 1) (toRemove ++ missing) }
    else { s with phase := .removing toRemove }
  | .removing [] => { s with phase := .done }
  | .removing (p :: toRemove) =>
    { s with
      map := s.map.removeFile p
      phase := .removing toRemove
      pruned := if s.map.nameMap.lookup p = none then s.pruned else p :: s.pruned }

def step (lib : Library) (s : State H) : Op → State H
  | .lookup p =>
    if isMkv p then
      { s with lookups := AList.insert s.next (p, .start) s.lookups, next := s.next + 1 }
    else s
  | .advance id now ok => advance lib s id now ok
  | .start fails =>
    match s.phase, lib.walks fails with
    | .idle, walk :: later => { s with phase := .walking walk later }
    | _, _ => s
  | .scan now order => scan s now order
  | .process p now ok => process lib s p now ok

def OnlyGhosts (lib : Library) (s : State H) : Prop := ∀ p ∈ s.pruned, ¬ lib.Has p

variable {lib : Library}

def Library.Reached (lib : Library) (fails : Bytes → Bool) (p : Bytes) : Prop :=
  fails p = false ∧
    ((fails lib.moviesPath = false ∧ ∃ f ∈ lib.movieStubs, f.path = p ∧ f.above = []) ∨
      (fails lib.tvPath = false ∧ ∃ f ∈ lib.tvStubs, f.path = p ∧ ∀ d ∈ f.above, fails d = false))

def Registered (s : State H) (p : Bytes) : Prop := s.map.nameMap.lookup p ≠ none

namespace Phase

def pending : Phase → List Bytes
  | .walking todo later => todo ++ later.flatten
  | _ => []

def safe (i : Fin 32) : Phase → Bool
  | .walking _ _ => false
  | .collecting j _ => i < j
  | _ => true

def nextFile : Phase → Option Bytes
  | .walking todo _ => todo.head?
  | _ => none

end Phase

def Covered (s : State H) (p : Bytes) : Prop :=
  s.found p = true ∨ p ∈ s.readers ∨ p ∈ s.phase.pending ∨ s.phase.safe (H.getShard p) = true

def tracked (lib : Library) (s : State H) : Op → Prop
  | .lookup _ => True
  | .advance id _ _ => ∀ x ∈ s.lookups.lookup id, ∀ m ∈ x.2.result, H.named m.url ≠ none →
      lib.Has x.1 → Covered s x.1
  | .start fails => ∀ f ∈ lib.stubs, Registered s f.path → lib.Reached fails f.path
  | .scan now _ => s.blocked = false → ∀ p ∈ s.phase.nextFile, s.cache.live p now ≠ none →
      lib.Has p → ¬ Registered s p
  | .process p _ _ => s.readers.lookup p = some (.running (.returned none)) → ¬ Registered s p

instance (fails : Bytes → Bool) (p : Bytes) : Decidable (lib.Reached fails p) := by
  unfold Library.Reached; infer_instance

instance (s : State H) (p : Bytes) : Decidable (Registered s p) :=
  inferInstanceAs (Decidable (s.map.nameMap.lookup p ≠ none))

instance (s : State H) (p : Bytes) : Decidable (Covered s p) :=
  have : Decidable (p ∈ s.phase.pending) :=
    decidable_of_iff (s.phase.pending.contains p = true) List.contains_iff_mem
  inferInstanceAs (Decidable (s.found p = true ∨ p ∈ s.readers ∨ p ∈ s.phase.pending ∨ _))

instance (s : State H) : ∀ op, Decidable (tracked lib s op)
  | .lookup _ => .isTrue trivial
  | .advance id now ok => by unfold tracked; infer_instance
  | .start fails => by unfold tracked; infer_instance
  | .scan now order => by unfold tracked; infer_instance
  | .process p now ok => by unfold tracked; infer_instance

theorem Listing.above_subset {f : Stub} (l : Listing) {path : Bytes} {above : List Bytes}
    (h : f ∈ l.stubs path above) : above ⊆ f.above := by
  induction l generalizing path above with
  | empty => cases h
  | file name url rest ih =>
    rcases List.mem_append.mp h with h | h
    · split_ifs at h
      · rw [List.mem_singleton.mp h]
        exact List.Subset.refl above
      · cases h
    · exact ih h
  | dir name inside rest ihin ih =>
    rcases List.mem_append.mp h with h | h
    · exact fun d hd => ihin h (List.mem_cons_of_mem _ hd)
    · exact ih h

theorem Listing.mem_walk {recursive : Bool} {fails : Bytes → Bool} {f : Stub} (l : Listing)
    {path : Bytes} {above : List Bytes} (h : f ∈ l.stubs path above) (hfile : fails f.path = false)
    (hdirs : ∀ d ∈ f.above, recursive = true ∧ fails d = false) :
    f.path ∈ l.walk recursive fails path := by
  induction l generalizing path above with
  | empty => cases h
  | file name url rest ih =>
    apply List.mem_append.mpr
    rcases List.mem_append.mp h with h | h
    · split_ifs at h with hmkv
      · rw [List.mem_singleton.mp h] at hfile ⊢
        exact .inl (by simp [hmkv, hfile])
      · cases h
    · exact .inr (ih h)
  | dir name inside rest ihin ih =>
    apply List.mem_append.mpr
    rcases List.mem_append.mp h with h | h
    · obtain ⟨hrec, hok⟩ := hdirs _ (inside.above_subset h List.mem_cons_self)
      left
      rw [if_pos (by simp [hrec, hok])]
      exact ihin h
    · exact .inr (ih h)

theorem Library.mem_walks {lib : Library} {fails : Bytes → Bool} {p : Bytes}
    (h : lib.Reached fails p) : ∃ walk ∈ lib.walks fails, p ∈ walk := by
  obtain ⟨hp, ⟨hroot, f, hf, rfl, habove⟩ | ⟨hroot, f, hf, rfl, habove⟩⟩ := h
  · refine ⟨_, List.mem_cons_self, ?_⟩
    rw [if_neg (by simp [hroot])]
    exact lib.movies.mem_walk hf hp (by simp [habove])
  · refine ⟨_, List.mem_cons_of_mem _ List.mem_cons_self, ?_⟩
    rw [if_neg (by simp [hroot])]
    exact lib.tv.mem_walk hf hp fun d hd => ⟨rfl, habove d hd⟩

def Phase.toRemove : Phase → List Bytes
  | .collecting _ toRemove | .removing toRemove => toRemove
  | _ => []

def Phase.isWalking : Phase → Bool
  | .walking _ _ => true
  | _ => false

structure Inv (lib : Library) (s : State H) : Prop where
  covered : ∀ p, lib.Has p → Registered s p → Covered s p
  quiet : s.phase.isWalking = false → ∀ p, p ∉ s.readers
  collected : ∀ p ∈ s.phase.toRemove, ¬ lib.Has p
  pruned : OnlyGhosts lib s

variable {s : State H}

theorem registered_addFileToInodeMap {m : InodeMap H} {p url q : Bytes}
    (h : (m.addFileToInodeMap p url).nameMap.lookup q ≠ none) :
    (q = p ∧ H.named url ≠ none) ∨ m.nameMap.lookup q ≠ none := by
  unfold InodeMap.addFileToInodeMap at h
  split at h
  · exact .inr h
  · next hash index hnamed =>
    rw [InodeMap.lookup_nameMap_addFile (named_ne_nil hnamed)] at h
    split_ifs at h with hq
    · exact .inl ⟨hq, by simp [hnamed]⟩
    · exact .inr h

theorem mem_toRemoveIn {m : InodeMap H} {order : MapOrder} {found : Bytes → Bool} {i : Fin 32}
    {p : Bytes} : p ∈ toRemoveIn m order found i ↔
      H.getShard p = i ∧ m.nameMap.lookup p ≠ none ∧ found p = false := by
  simp only [toRemoveIn, List.mem_filter, List.mem_map, Prod.exists, order.mem_arrange,
    Sharded.mem_items_part, Bool.not_eq_true']
  constructor
  · rintro ⟨⟨q, k, ⟨hshard, hk⟩, rfl⟩, hfound⟩
    exact ⟨hshard, by simp [hk], hfound⟩
  · rintro ⟨hshard, hreg, hfound⟩
    obtain ⟨k, hk⟩ := Option.ne_none_iff_exists'.mp hreg
    exact ⟨⟨p, k, ⟨hshard, hk⟩, rfl⟩, hfound⟩

theorem inv_advance (hs : Inv lib s) (id now : ℕ) (ok : Bool)
    (hok : tracked lib s (.advance id now ok)) : Inv lib (advance lib s id now ok) := by
  unfold advance
  split
  · exact hs
  · exact ⟨hs.covered, hs.quiet, hs.collected, hs.pruned⟩
  · next p m hcall =>
    refine ⟨fun q hq hreg => ?_, hs.quiet, hs.collected, hs.pruned⟩
    rcases registered_addFileToInodeMap hreg with ⟨rfl, hnamed⟩ | hold
    · exact hok _ hcall m rfl hnamed hq
    · exact hs.covered q hq hold
  · exact ⟨hs.covered, hs.quiet, hs.collected, hs.pruned⟩

theorem Inv.reader (hs : Inv lib s) {s' : State H} {p : Bytes} (hp : p ∈ s.readers)
    (hphase : s'.phase = s.phase) (hpruned : s'.pruned = s.pruned)
    (hfound : ∀ q, s.found q = true → s'.found q = true)
    (hother : ∀ q, q ≠ p → (q ∈ s.readers → q ∈ s'.readers) ∧ (Registered s' q → Registered s q))
    (hself : Registered s' p → s'.found p = true ∨ p ∈ s'.readers) : Inv lib s' := by
  have hwalk : s.phase.isWalking = true := by
    by_contra hnot
    exact hs.quiet (by simpa using hnot) p hp
  refine ⟨fun q hq hreg => ?_, ?_, ?_, ?_⟩
  · by_cases hqp : q = p
    · subst hqp
      rcases hself hreg with h | h
      · exact .inl h
      · exact .inr (.inl h)
    · rcases hs.covered q hq ((hother q hqp).2 hreg) with h | h | h
      · exact .inl (hfound q h)
      · exact .inr (.inl ((hother q hqp).1 h))
      · rw [Covered, hphase]
        exact .inr (.inr h)
  · rw [hphase]
    intro hnot
    simp [hwalk] at hnot
  · rw [hphase]
    exact hs.collected
  · rw [OnlyGhosts, hpruned]
    exact hs.pruned

theorem mem_readers {p : Bytes} {r : Reader} (h : s.readers.lookup p = some r) : p ∈ s.readers :=
  AList.lookup_isSome.mp (by rw [h]; rfl)

theorem inv_process (hs : Inv lib s) (p : Bytes) (now : ℕ) (ok : Bool)
    (hok : tracked lib s (.process p now ok)) : Inv lib (process lib s p now ok) := by
  unfold process
  split
  · exact hs
  · next hr =>
    split_ifs
    · refine hs.reader (mem_readers hr) rfl rfl (fun _ h => h) (fun q _ => ?_) fun _ => ?_
      · exact ⟨fun h => (AList.mem_insert _).mpr (.inr h), id⟩
      · exact .inr ((AList.mem_insert _).mpr (.inl rfl))
    · exact hs
  · next hr =>
    refine hs.reader (mem_readers hr) rfl rfl (fun _ h => h) (fun q hq => ?_) fun hreg => ?_
    · exact ⟨fun h => AList.mem_erase.mpr ⟨hq, h⟩, id⟩
    · exact absurd hreg (hok hr)
  · next m hr =>
    refine hs.reader (mem_readers hr) rfl rfl (fun _ h => h) (fun q hq => ?_) fun _ => ?_
    · refine ⟨fun h => (AList.mem_insert _).mpr (.inr h), fun hreg => ?_⟩
      rcases registered_addFileToInodeMap hreg with ⟨h, -⟩ | h
      · exact absurd h hq
      · exact h
    · exact .inr ((AList.mem_insert _).mpr (.inl rfl))
  · next call hnone hsome hr =>
    refine hs.reader (mem_readers hr) rfl rfl (fun _ h => h) (fun q _ => ?_) fun _ => ?_
    · exact ⟨fun h => (AList.mem_insert _).mpr (.inr h), id⟩
    · exact .inr ((AList.mem_insert _).mpr (.inl rfl))
  · next hr =>
    have hmark : ∀ q, (AList.insert p true s.foundFiles).lookup q =
        if q = p then some true else s.foundFiles.lookup q := fun q => Dict.lookup_insert _ _ q _
    refine hs.reader (mem_readers hr) rfl rfl (fun q hq => ?_) (fun q hq => ?_) fun _ => .inl ?_
    · rw [State.found] at hq ⊢
      rw [hmark]
      split_ifs
      · rfl
      · exact hq
    · exact ⟨fun h => AList.mem_erase.mpr ⟨hq, h⟩, id⟩
    · rw [State.found, hmark, if_pos rfl]
      rfl

theorem Inv.visit (hs : Inv lib s) {s' : State H} {p : Bytes} {todo : List Bytes}
    {later : List (List Bytes)} (hphase : s.phase = .walking (p :: todo) later)
    (hphase' : s'.phase = .walking todo later) (hmap : s'.map = s.map)
    (hfound : s'.found = s.found) (hpruned : s'.pruned = s.pruned)
    (hreaders : ∀ q ∈ s.readers, q ∈ s'.readers)
    (hself : lib.Has p → p ∈ s'.readers ∨ ¬ Registered s p) : Inv lib s' := by
  refine ⟨fun q hq hreg => ?_, ?_, ?_, ?_⟩
  · rw [Registered, hmap] at hreg
    rcases hs.covered q hq hreg with h | h | h | h
    · exact .inl (hfound ▸ h)
    · exact .inr (.inl (hreaders q h))
    · rw [hphase] at h
      rcases List.mem_cons.mp h with rfl | h
      · exact .inr (.inl ((hself hq).resolve_right (not_not_intro hreg)))
      · exact .inr (.inr (.inl (by rw [hphase']; exact h)))
    · simp [hphase, Phase.safe] at h
  · simp [hphase', Phase.isWalking]
  · simp [hphase', Phase.toRemove]
  · rw [OnlyGhosts, hpruned]
    exact hs.pruned

theorem inv_collect (hs : Inv lib s) {i : ℕ} {toRemove : List Bytes}
    (hphase : s.phase = .collecting i toRemove) (order : MapOrder) (hi : i < 32) :
    Inv lib { s with
      phase := .collecting (i + 1)
        (toRemove ++ toRemoveIn s.map order s.found ⟨i, hi⟩) } := by
  have hquiet := hs.quiet (by simp [hphase, Phase.isWalking])
  have hold : ∀ p, lib.Has p → Registered s p → s.found p = true ∨ (H.getShard p).val < i := by
    intro p hp hreg
    have h := hs.covered p hp hreg
    simpa [Covered, hphase, hquiet, Phase.pending, Phase.safe] using h
  refine ⟨fun p hp hreg => ?_, fun _ => hquiet, ?_, hs.pruned⟩
  · rcases hold p hp hreg with h | h
    · exact .inl h
    · exact .inr (.inr (.inr (by simp [Phase.safe]; omega)))
  · intro p hmem hp
    rcases List.mem_append.mp hmem with hmem | hmem
    · exact hs.collected p (by simpa [hphase, Phase.toRemove] using hmem) hp
    · -- a file of this shard that is registered has been found
      obtain ⟨hshard, hreg, hnot⟩ := mem_toRemoveIn.mp hmem
      rcases hold p hp hreg with h | h
      · simp [h] at hnot
      · simp [hshard] at h

theorem inv_removeFile (hs : Inv lib s) {p : Bytes} {toRemove : List Bytes}
    (hphase : s.phase = .removing (p :: toRemove)) :
    Inv lib { s with
      map := s.map.removeFile p
      phase := .removing toRemove
      pruned := if s.map.nameMap.lookup p = none then s.pruned else p :: s.pruned } := by
  have hlist : ∀ q ∈ p :: toRemove, ¬ lib.Has q := by
    have h := hs.collected
    rw [hphase] at h
    exact h
  refine ⟨fun _ _ _ => .inr (.inr (.inr rfl)), fun _ => hs.quiet (by simp [hphase, Phase.isWalking]),
    fun q hq => hlist q (List.mem_cons_of_mem _ hq), fun q hq => ?_⟩
  dsimp only at hq
  split_ifs at hq
  · exact hs.pruned q hq
  · rcases List.mem_cons.mp hq with rfl | hq
    · exact hlist q List.mem_cons_self
    · exact hs.pruned q hq

theorem inv_scan (hs : Inv lib s) (now : ℕ) (order : MapOrder)
    (hok : tracked lib s (.scan now order)) : Inv lib (scan s now order) := by
  unfold scan
  split
  · exact hs
  · exact hs
  · next p todo later hphase =>
    split_ifs with hblocked
    · exact hs
    · have hget := s.cache.get_fst p now
      split
      · next m cache heq =>
        rw [heq] at hget
        refine hs.visit hphase rfl rfl rfl rfl (fun q hq => hq) fun hp => .inr ?_
        exact hok (by simpa using hblocked) p (by rw [hphase]; rfl) (by rw [← hget]; simp) hp
      · refine hs.visit hphase rfl rfl rfl rfl (fun q hq => (AList.mem_insert _).mpr (.inr hq)) ?_
        exact fun _ => .inl ((AList.mem_insert _).mpr (.inl rfl))
  · next later hphase =>
    split_ifs with hkeys
    · have hempty : ∀ q, q ∉ s.readers := fun q hq => by simp [AList.mem_keys, hkeys] at hq
      have hold : ∀ q, lib.Has q → Registered s q → s.found q = true ∨ ∃ walk ∈ later, q ∈ walk := by
        intro q hq hreg
        have h := hs.covered q hq hreg
        simpa [Covered, hphase, hempty, Phase.pending, Phase.safe] using h
      split
      · next walk later =>
        refine ⟨fun q hq hreg => ?_, fun h => absurd h (by simp [Phase.isWalking]), ?_, hs.pruned⟩
        · rcases hold q hq hreg with h | ⟨w, hw, hqw⟩
          · exact .inl h
          · exact .inr (.inr (.inl (List.mem_flatten.mpr ⟨w, hw, hqw⟩)))
        · exact fun q hq => absurd hq (by simp [Phase.toRemove])
      · refine ⟨fun q hq hreg => ?_, fun _ => hempty, ?_, hs.pruned⟩
        · have h := hold q hq hreg
          simp only [List.not_mem_nil, false_and, exists_false, or_false] at h
          exact .inl h
        · exact fun q hq => absurd hq (by simp [Phase.toRemove])
    · exact hs
  · next i toRemove hphase =>
    split_ifs with hi
    · exact inv_collect hs hphase order hi
    · refine ⟨fun _ _ _ => .inr (.inr (.inr rfl)), fun _ => hs.quiet (by simp [hphase, Phase.isWalking]), ?_, hs.pruned⟩
      have h := hs.collected
      rw [hphase] at h
      exact h
  · next hphase =>
    exact ⟨fun _ _ _ => .inr (.inr (.inr rfl)), fun _ => hs.quiet (by simp [hphase, Phase.isWalking]),
      fun q hq => absurd hq (by simp [Phase.toRemove]), hs.pruned⟩
  · next p toRemove hphase => exact inv_removeFile hs hphase

theorem inv_step (s : State H) (op : Op) (hs : Inv lib s) (hok : tracked lib s op) :
    Inv lib (step lib s op) := by
  cases op with
  | lookup p =>
    simp only [step]
    split_ifs
    · exact ⟨hs.covered, hs.quiet, hs.collected, hs.pruned⟩
    · exact hs
  | advance id now ok => exact inv_advance hs id now ok hok
  | start fails =>
    simp only [step]
    split
    · next walk later hphase hwalks =>
      refine ⟨fun p hp hreg => ?_, fun h => absurd h (by simp [Phase.isWalking]),
        fun q hq => absurd hq (by simp [Phase.toRemove]), hs.pruned⟩
      obtain ⟨f, hf, rfl⟩ := hp
      obtain ⟨w, hw, hpw⟩ := Library.mem_walks (hok f hf hreg)
      rw [hwalks] at hw
      exact .inr (.inr (.inl (List.mem_flatten.mpr ⟨w, hw, hpw⟩)))
    · exact hs
  | scan now order => exact inv_scan hs now order hok
  | process p now ok => exact inv_process hs p now ok hok

theorem inv_init (map : InodeMap H) (cache : LRUCache H Metadata) :
    Inv lib (State.init map cache) where
  covered := fun _ _ _ => .inr (.inr (.inr rfl))
  quiet := fun _ => AList.notMem_empty
  collected := fun _ hp => absurd hp (by simp [State.init, Phase.toRemove])
  pruned := fun _ hp => absurd hp (by simp [State.init])

/-- Only entries of files that do not exist are removed. -/
theorem gc_removes_only_ghosts (lib : Library) (map : InodeMap H) (cache : LRUCache H Metadata)
    (ops : List Op) (h : Meets (tracked lib) (step lib) (State.init map cache) ops) :
    ∀ pre, pre <+: ops → OnlyGhosts lib (run (step lib) (State.init map cache) pre) :=
  Meets.good inv_step (fun _ hs => hs.pruned) ops (inv_init map cache) h

def oneFilm : Library where
  sourcePath := ascii "/m"
  movies := .file (ascii "a.mkv") (ascii "http://h/stream?link=" ++ List.replicate 40 97) .empty
  tv := .empty

def film : Bytes := ascii "/m/movies/a.mkv"

def ghost : Bytes := ascii "/m/movies/b.mkv"

def earlier : InodeMap .standard :=
  ((InodeMap.new.addFile film (List.replicate 40 97) 0).2.addFile ghost (List.replicate 40 98) 0).2

theorem ghost_is_removed :
    let s := run (step oneFilm) (State.init earlier (.new 0 86400))
      (.start (fun _ => false) :: .scan 0 .listed :: List.replicate 5 (.process film 0 true) ++
        List.replicate 36 (.scan 0 .listed))
    s.pruned = [ghost] ∧ OnlyGhosts oneFilm s := by
  refine ⟨by decide +kernel, ?_⟩
  exact gc_removes_only_ghosts _ _ _ _ (by decide +kernel) _ List.prefix_rfl

theorem looked_up_film_is_removed :
    let s := run (step oneFilm) (State.init .new (.new 0 86400) : State .standard)
      (.start (fun _ => false) :: .lookup film :: List.replicate 6 (.advance 0 0 true) ++
        List.replicate 37 (.scan 0 .listed))
    s.pruned = [film] ∧ oneFilm.Has film ∧ ¬ OnlyGhosts oneFilm s := by
  intro s
  have hs : s.pruned = [film] ∧ oneFilm.Has film := by decide +kernel
  refine ⟨hs.1, hs.2, fun h => h film ?_ hs.2⟩
  rw [hs.1]
  exact List.mem_singleton_self film

end GoStream.Startup
