import GoStream.Handles.Steps

/-!
# The counts of the open tracker
-/

namespace GoStream.Handles

open Foundations

structure Tracks (counts : Bytes → ℤ) (handles : List Handle) (key : Handle → Option Bytes) :
    Prop where
  empty : counts [] = 0
  count : ∀ k ≠ [], counts k = handles.countP fun x => decide (key x = some k)

namespace Tracks

variable {counts : Bytes → ℤ} {handles : List Handle} {key : Handle → Option Bytes}
  {h : ℕ} {x y : Handle} {k : Bytes}

theorem append (ht : Tracks counts handles key) (hy : key y = none) :
    Tracks counts (handles ++ [y]) key := by
  refine ⟨ht.empty, fun j hj => ?_⟩
  rw [ht.count j hj]
  simp [hy]

theorem set (ht : Tracks counts handles key) (hx : handles[h]? = some x) (hy : key y = key x) :
    Tracks counts (handles.set h y) key := by
  refine ⟨ht.empty, fun j hj => ?_⟩
  have hcount := countP_set_add (p := fun x => decide (key x = some j)) y hx
  rw [hy] at hcount
  rw [ht.count j hj, Nat.add_right_cancel hcount]

theorem inc (ht : Tracks counts handles key) (hx : handles[h]? = some x) (hnone : key x = none)
    (hy : key y = some k) : Tracks (OpenTracker.incAt counts k) (handles.set h y) key := by
  refine ⟨by rw [OpenTracker.incAt_nil, ht.empty], fun j hj => ?_⟩
  have hcount := countP_set_add (p := fun x => decide (key x = some j)) y hx
  have htj := ht.count j hj
  simp only [hnone, hy, reduceCtorEq, decide_false, Bool.false_eq_true, if_false, Nat.add_zero,
    Option.some.injEq, decide_eq_true_eq] at hcount
  rcases eq_or_ne j k with rfl | hjk
  · rw [OpenTracker.incAt_self _ hj, htj, hcount, if_pos rfl]
    rfl
  · rw [OpenTracker.incAt_of_ne _ hjk, htj, hcount, if_neg (Ne.symm hjk), Nat.add_zero]

theorem dec (ht : Tracks counts handles key) (hx : handles[h]? = some x) (hsome : key x = some k)
    (hy : key y = none) : Tracks (OpenTracker.decAt counts k) (handles.set h y) key := by
  refine ⟨by rw [OpenTracker.decAt_nil, ht.empty], fun j hj => ?_⟩
  have hcount := countP_set_add (p := fun x => decide (key x = some j)) y hx
  have htj := ht.count j hj
  simp only [hsome, hy, reduceCtorEq, decide_false, Bool.false_eq_true, if_false, Nat.add_zero,
    Option.some.injEq, decide_eq_true_eq] at hcount
  rcases eq_or_ne j k with rfl | hjk
  · rw [if_pos rfl] at hcount
    rw [OpenTracker.decAt_self hj (by omega)]
    omega
  · rw [if_neg (Ne.symm hjk), Nat.add_zero] at hcount
    rw [OpenTracker.decAt_of_ne _ hjk, htj, hcount]

end Tracks

def Handle.pathKey (x : Handle) : Option Bytes := x.counted.map fun _ => x.path

structure Books (r : Registry) : Prop where
  paths : Tracks r.tracker.byPath r.handles Handle.pathKey
  hashes : Tracks r.tracker.byHash r.handles (·.counted)
  live : ∀ x ∈ r.handles, ∀ hash, x.counted = some hash → x.hash = hash ∧ x.phase ≠ .released

def permitted (r : Registry) : Effect → Bool
  | .resolve h hash => r.handles[h]?.all fun x => x.hash != [] || hash == [] || x.counted.isNone
  | .attach h _ _ => r.handles[h]?.all fun x => x.phase == .opened && x.counted.isNone
  | .create h _ => r.handles[h]?.all fun x => x.phase == .opened && x.counted.isNone
  | .beginRelease h _ => r.handles[h]?.all fun x => x.phase == .opened && x.counted.isSome
  | .returnEarly h _ => r.handles[h]?.all fun x => x.phase == .opened && x.counted.isNone
  | .close h => r.handles[h]?.all fun x => x.phase == .opened && x.counted.isNone
  | _ => true

namespace Books

variable {r : Registry} {h p : ℕ} {x y : Handle}

theorem setHandle (hb : Books r) (hx : r.handles[h]? = some x) (hpath : y.path = x.path)
    (hcounted : y.counted = x.counted)
    (hlive : ∀ hash, y.counted = some hash → y.hash = hash ∧ y.phase ≠ .released) :
    Books (r.setHandle h y) := by
  refine ⟨hb.paths.set hx ?_, hb.hashes.set hx hcounted, fun z hz => ?_⟩
  · rw [Handle.pathKey, Handle.pathKey, hcounted, hpath]
  · rcases List.mem_or_eq_of_mem_set hz with hz | rfl
    · exact hb.live z hz
    · exact hlive

theorem modify (hb : Books r) {f : Handle → Handle} (hpath : ∀ x, (f x).path = x.path)
    (hcounted : ∀ x, (f x).counted = x.counted)
    (hlive : ∀ x hash, r.handles[h]? = some x → x.counted = some hash →
      (f x).hash = hash ∧ (f x).phase ≠ .released) : Books (r.modify h f) := by
  unfold Registry.modify
  split
  · next x hx =>
    exact hb.setHandle hx (hpath x) (hcounted x) fun hash hh =>
      hlive x hash hx ((hcounted x).symm.trans hh)
  · exact hb

theorem congr (hb : Books r) {r' : Registry} (hh : r'.handles = r.handles)
    (ht : r'.tracker = r.tracker) : Books r' := by
  obtain ⟨hpaths, hhashes, hlive⟩ := hb
  refine ⟨?_, ?_, ?_⟩
  · rw [hh, ht]; exact hpaths
  · rw [hh, ht]; exact hhashes
  · rw [hh]; exact hlive

theorem inc (hb : Books r) {r' : Registry} (hh : r'.handles = r.handles.set h y)
    (ht : r'.tracker = r.tracker.inc x.hash x.path) (hx : r.handles[h]? = some x)
    (hpath : y.path = x.path) (hhash : y.hash = x.hash) (hphase : y.phase = x.phase)
    (hcounted : y.counted = some x.hash) (hopen : x.phase = .opened) (hnone : x.counted = none) :
    Books r' := by
  refine ⟨?_, ?_, ?_⟩
  · rw [hh, ht]
    exact hb.paths.inc hx (by simp [Handle.pathKey, hnone]) (by simp [Handle.pathKey, hcounted, hpath])
  · rw [hh, ht]
    exact hb.hashes.inc hx hnone hcounted
  · rw [hh]
    intro z hz
    rcases List.mem_or_eq_of_mem_set hz with hz | rfl
    · exact hb.live z hz
    · intro hash hz
      rw [hcounted] at hz
      rw [hhash, hphase, hopen]
      exact ⟨Option.some.inj hz, by decide⟩

theorem decrement (hb : Books r) (hx : r.handles[h]? = some x) (hcounted : x.counted ≠ none)
    (p : ℕ) : Books (r.decrement h p) := by
  obtain ⟨hash, hhash⟩ := Option.ne_none_iff_exists'.mp hcounted
  have hlive := (hb.live x (List.mem_of_getElem? hx) hash hhash).1
  unfold Registry.decrement
  rw [hx]
  split
  · next x' ps hx' _ =>
    obtain rfl := Option.some.inj hx'
    refine ⟨?_, ?_, fun z hz => ?_⟩
    · exact hb.paths.dec hx (by simp [Handle.pathKey, hhash]) (by simp [Handle.pathKey])
    · exact hb.hashes.dec hx (by rw [hhash, hlive]) rfl
    · rcases List.mem_or_eq_of_mem_set hz with hz | rfl
      · exact hb.live z hz
      · intro hash hz
        cases hz
  · exact hb

theorem apply (hb : Books r) {e : Effect} (hp : permitted r e = true) (hne : ∀ h p, e ≠ .decrement h p) :
    Books (r.apply e) := by
  cases e with
  | nothing => exact hb
  | openHandle path hash =>
    refine ⟨hb.paths.append rfl, hb.hashes.append rfl, fun z hz => ?_⟩
    rcases List.mem_append.mp hz with hz | hz
    · exact hb.live z hz
    · rw [List.mem_singleton.mp hz]
      intro hash hz
      cases hz
  | once h =>
    exact hb.modify (fun _ => rfl) (fun _ => rfl) fun x hash hx =>
      hb.live x (List.mem_of_getElem? hx) hash
  | resolve h hash =>
    refine hb.modify (fun _ => rfl) (fun _ => rfl) fun x hash' hx hc => ?_
    obtain ⟨hhash, hphase⟩ := hb.live x (List.mem_of_getElem? hx) hash' hc
    refine ⟨?_, hphase⟩
    dsimp only
    split_ifs with hempty
    · -- a counted handle can only be resolved to the empty hash, which it has already
      have hsame : hash = [] := by simpa [permitted, hx, hempty, hc] using hp
      rw [hsame, ← hhash, hempty]
    · exact hhash
  | attach h p inherit =>
    simp only [Registry.apply, Registry.attach]
    split
    · next x ps hx _ =>
      obtain ⟨hopen, hnone⟩ : x.phase = .opened ∧ x.counted = none := by
        simpa [permitted, hx] using hp
      exact hb.inc rfl rfl hx rfl rfl rfl rfl hopen hnone
    · exact hb
  | create h primary =>
    simp only [Registry.apply, Registry.create]
    split
    · next x hx =>
      obtain ⟨hopen, hnone⟩ : x.phase = .opened ∧ x.counted = none := by
        simpa [permitted, hx] using hp
      exact hb.inc rfl rfl hx rfl rfl rfl rfl hopen hnone
    · exact hb
  | remove path | cancel path p => exact hb.congr rfl rfl
  | endPump p registered =>
    simp only [Registry.apply, Registry.endPump]
    split
    · next ps _ =>
      have hb' : Books (if registered then r.remove ps.path else r) := by
        split_ifs
        · exact hb.congr rfl rfl
        · exact hb
      exact hb'.modify (fun _ => rfl) (fun _ => rfl) fun x hash hx =>
        hb'.live x (List.mem_of_getElem? hx) hash
    · exact hb
  | beginRelease h p =>
    have hb' : Books (r.savePosition h p) :=
      hb.congr Registry.handles_savePosition Registry.tracker_savePosition
    refine hb'.modify (fun _ => rfl) (fun _ => rfl) fun x hash hx hc => ?_
    refine ⟨(hb'.live x (List.mem_of_getElem? hx) hash hc).1, ?_⟩
    intro hreleased
    cases hreleased
  | returnEarly h p =>
    have hb' : Books (r.savePosition h p) :=
      hb.congr Registry.handles_savePosition Registry.tracker_savePosition
    refine hb'.modify (fun _ => rfl) (fun _ => rfl) fun x hash hx hc => ?_
    rw [Registry.handles_savePosition] at hx
    simp [permitted, hx, hc] at hp
  | close h =>
    refine hb.modify (fun _ => rfl) (fun _ => rfl) fun x hash hx hc => ?_
    simp [permitted, hx, hc] at hp
  | decrement h p => exact absurd rfl (hne h p)

end Books

theorem releasesOpen_of_permitted {r : Registry} {e : Effect} (hp : permitted r e = true) :
    ReleasesOpen r e := by
  intro h x hcalls hx
  cases e with
  | beginRelease h' p | returnEarly h' p | close h' =>
    obtain rfl := Option.some.inj hcalls
    exact (by simpa [permitted, hx] using hp : x.phase = .opened ∧ _).1
  | _ => cases hcalls

theorem counts_ne_of_permitted {r : Registry} {e : Effect} (hp : permitted r e = true) {h : ℕ}
    {x : Handle} (hx : r.handles[h]? = some x) (hphase : x.phase = .releasing)
    (hphases : e.phases ≠ some h) : e.counts ≠ some h := by
  intro hcounts
  cases e with
  | attach h' p inherit | create h' primary =>
    obtain rfl := Option.some.inj hcounts
    simp [permitted, hx, hphase] at hp
  | decrement h' p => exact hphases hcounts
  | _ => cases hcounts

def AccountsClosed (r : Registry) : Prop :=
  ∀ path, (∀ x ∈ r.handles, x.path = path → x.phase = .released) →
    r.tracker.countByPath path = 0 ∧ ∀ hash ≠ [], r.tracker.countByHash hash =
      r.handles.countP fun x => decide (x.path ≠ path ∧ x.counted = some hash)

theorem Books.accountsClosed {r : Registry} (hb : Books r) : AccountsClosed r := by
  intro path hreleased
  -- a handle of the path is not counted any more
  have hnone : ∀ x ∈ r.handles, x.path = path → x.counted = none := by
    intro x hx hpath
    by_contra hcounted
    obtain ⟨hash, hhash⟩ := Option.ne_none_iff_exists'.mp hcounted
    exact (hb.live x hx hash hhash).2 (hreleased x hx hpath)
  constructor
  · rcases eq_or_ne path [] with rfl | hpath
    · exact hb.paths.empty
    · rw [OpenTracker.countByPath, hb.paths.count path hpath]
      have hzero : r.handles.countP (fun x => decide (x.pathKey = some path)) = 0 := by
        refine List.countP_eq_zero.mpr fun x hx => ?_
        rw [decide_eq_true_eq, Handle.pathKey, Option.map_eq_some_iff]
        rintro ⟨hash, hhash, hp⟩
        rw [hnone x hx hp] at hhash
        cases hhash
      rw [hzero]
      rfl
  · intro hash hhash
    rw [OpenTracker.countByHash, hb.hashes.count hash hhash]
    refine congrArg _ (List.countP_congr fun x hx => ?_)
    rw [decide_eq_true_eq, decide_eq_true_eq]
    constructor
    · intro hcounted
      refine ⟨fun hpath => ?_, hcounted⟩
      rw [hnone x hx hpath] at hcounted
      cases hcounted
    · exact And.right

namespace System

structure Audited (s : System) : Prop where
  discipline : Discipline s
  books : Books s.registry
  counted : ∀ t ∈ s.threads, ∀ h, t.key = some (.release h) →
    ∃ x, s.registry.handles[h]? = some x ∧ x.phase = .releasing ∧ x.counted ≠ none

variable {limit : ℕ}

theorem audited_start : Audited start :=
  ⟨discipline_start, ⟨⟨rfl, fun _ _ => rfl⟩, ⟨rfl, fun _ _ => rfl⟩, nofun⟩, nofun⟩

theorem audited_step (s : System) (op : Op) (ha : Audited s)
    (hp : permitted s.registry (s.plan limit op).effect = true) : Audited (s.step limit op) := by
  have hopen := releasesOpen_of_permitted hp
  refine ⟨discipline_step ha.discipline hopen, ?_, ?_⟩
  · -- the effect is a counting down, by a thread that releases a counted handle, or not
    by_cases hdec : ∃ h p, (s.plan limit op).effect = .decrement h p
    · obtain ⟨h, p, he⟩ := hdec
      have hdoes := @does_plan limit s op
      rw [he] at hdoes
      have hmoved := mem_threads_of_moved (moved_of_decrement hdoes)
      obtain ⟨x, hx, hphase, hcounted⟩ := ha.counted _ hmoved h rfl
      simp only [step, he]
      exact ha.books.decrement hx hcounted p
    · exact ha.books.apply hp fun h p he => hdec ⟨h, p, he⟩
  · intro t ht h hkey
    rcases List.mem_append.mp ht with ht | ht
    · obtain ⟨x, hx, hphase, hcounted⟩ := ha.counted t (mem_threads_of_mem_others ht) h hkey
      obtain ⟨y, hy, hframe⟩ := Registry.frame_apply (s.plan limit op).effect hx
      have hphases := ha.discipline.phases_ne hopen ht hkey
      have hcounts := counts_ne_of_permitted hp hx hphase hphases
      exact ⟨y, hy, (hframe.phase hphases).trans hphase, by rw [hframe.counted hcounts]; exact hcounted⟩
    · obtain ⟨x, p, hx, _, heffect, _⟩ := effect_of_release_mem_next ht hkey
      refine ⟨{ x with phase := .releasing }, ?_, rfl, ?_⟩
      · simp only [step, heffect]
        exact Registry.getElem?_beginRelease hx
      · rw [heffect] at hp
        have : x.phase = .opened ∧ x.counted.isSome = true := by simpa [permitted, hx] using hp
        exact Option.isSome_iff_ne_none.mp this.2

/-- Released handles are not counted any more. -/
theorem accounts_closed (limit : ℕ) (ops : List Op)
    (h : Meets (fun s op => permitted s.registry (s.plan limit op).effect = true) (step limit)
      start ops) :
    ∀ pre, pre <+: ops → AccountsClosed (run (step limit) start pre).registry :=
  Meets.good audited_step (fun _ hs => hs.books.accountsClosed) ops audited_start h

theorem accounts_closed_release :
    let ops := openAndStart [97] [98] ++ [.release 0, .advance 1 plain]
    (run (step 10) start (openAndStart [97] [98])).registry.tracker.countByPath [97] = 1 ∧
      AccountsClosed (run (step 10) start ops).registry :=
  ⟨by decide, accounts_closed 10 _ (by decide) _ (List.prefix_refl _)⟩

theorem accounts_not_closed : ¬ ∀ (limit : ℕ) (ops : List Op),
    AccountsClosed (run (step limit) start ops).registry := by
  intro h
  have hclosed := h 10 (openAndStart [97] [98] ++ [.advance 0 plain, .advance 0 plain, .release 0])
    [97] (by decide)
  exact absurd hclosed.1 (by decide)

end System

end GoStream.Handles
