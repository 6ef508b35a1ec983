import GoStream.Inodes.Reports
import GoStream.MetaCache.Reads

/-!
# Deleting a stub
-/

namespace GoStream.Fuse

open Foundations Inodes MetaCache

open Inodes.Reports (childOf dirCacheTTL)

variable {H : Hashing}

inductive Errno
  | success
  | ENOENT
  | EPERM
  | other (code : ℕ)
  deriving DecidableEq

inductive Physical
  | stub (url : Bytes)
  | unreadable
  | dir
  deriving DecidableEq

inductive Caller
  | lookup
  | scan
  deriving DecidableEq

structure Request where
  caller : Caller
  path : Bytes
  call : ReadCall
  deriving DecidableEq

structure Answer where
  id : ℕ
  path : Bytes
  errno : Errno
  deriving DecidableEq

structure CachedListing where
  names : List Bytes
  expiresAt : ℕ

structure State (H : Hashing) where
  files : Dict Bytes Physical
  cache : LRUCache H Metadata
  dirCache : Dict Bytes CachedListing
  now : ℕ
  requests : Dict ℕ Request
  next : ℕ
  answers : List Answer

def State.init (files : Dict Bytes Physical) (cache : LRUCache H Metadata) : State H where
  files := files
  cache := cache
  dirCache := ∅
  now := 0
  requests := ∅
  next := 0
  answers := []

namespace State

variable (s : State H)

def free (p : Bytes) : Bool :=
  s.requests.items.all fun x => !(x.2.caller = .lookup && x.2.path = p && x.2.call.holdsLock)

def readMetadata (p : Bytes) (ok : Bool) : Option Metadata :=
  match s.files.lookup p with
  | some (.stub url) => if ok then some ⟨url, p⟩ else none
  | _ => none

def errnoOf (p : Bytes) : Option Metadata → Errno
  | some _ => .success
  | none => if s.files.lookup p = some .dir then .success else .ENOENT

end State

def lookup (s : State H) (dir name : Bytes) : State H :=
  { s with
    requests := AList.insert s.next
      ⟨.lookup, filepathJoin dir name, if isMkv name then .start else .returned none⟩ s.requests
    next := s.next + 1 }

def scan (s : State H) (p : Bytes) : State H :=
  match s.cache.get p s.now with
  | (some _, cache) => { s with cache }
  | (none, cache) =>
    { s with cache, requests := AList.insert s.next ⟨.scan, p, .reading⟩ s.requests, next := s.next + 1 }

def advance (s : State H) (id : ℕ) (ok : Bool) : State H :=
  match s.requests.lookup id with
  | none => s
  | some ⟨.lookup, p, .returned r⟩ =>
    { s with requests := AList.erase id s.requests, answers := ⟨id, p, s.errnoOf p r⟩ :: s.answers }
  | some ⟨.scan, _, .returned _⟩ => { s with requests := AList.erase id s.requests }
  | some ⟨caller, p, call⟩ =>
    let (call, cache) := call.step s.cache p s.now (s.free p) (s.readMetadata p ok)
    { s with cache, requests := AList.insert id ⟨caller, p, call⟩ s.requests }

def unlink (s : State H) (dir name : Bytes) (err : Option ℕ) : Errno × State H :=
  if isMkv name then
    if filepathJoin dir name ∈ s.files then
      match err with
      | some code => (.other code, s)
      | none =>
        (.success,
          { s with
            files := AList.erase (filepathJoin dir name) s.files
            dirCache := AList.erase dir s.dirCache })
    else (.ENOENT, s)
  else (.EPERM, s)

def readdir (s : State H) (dir : Bytes) : State H :=
  match s.dirCache.lookup dir with
  | some c => if s.now > c.expiresAt then list else s
  | none => list
where
  list : State H :=
    let shown := s.files.items.filter fun x => childOf dir x.1 && (x.2 = .dir || isMkv x.1)
    { s with
      dirCache := AList.insert dir ⟨shown.map fun x => afterLast 47 x.1, s.now + dirCacheTTL⟩ s.dirCache }

def cleanup (s : State H) : State H :=
  let expired := s.dirCache.items.filter fun x => s.now > x.2.expiresAt
  { s with
    cache := s.cache.cleanupExpired s.now
    dirCache := expired.foldl (fun d x => AList.erase x.1 d) s.dirCache }

inductive Op
  | lookup (dir name : Bytes)
  | scan (path : Bytes)
  | advance (id : ℕ) (ok : Bool)
  | unlink (dir name : Bytes) (err : Option ℕ)
  | readdir (dir : Bytes)
  | cleanup
  | create (path : Bytes) (node : Physical)
  | remove (path : Bytes)
  | tick (seconds : ℕ)

def step (s : State H) : Op → State H
  | .lookup dir name => lookup s dir name
  | .scan p => scan s p
  | .advance id ok => advance s id ok
  | .unlink dir name err => (unlink s dir name err).2
  | .readdir dir => readdir s dir
  | .cleanup => cleanup s
  | .create p node => { s with files := AList.insert p node s.files }
  | .remove p => { s with files := AList.erase p s.files }
  | .tick seconds => { s with now := s.now + seconds }

def notCreating (p : Bytes) : Op → Prop
  | .create q _ => q ≠ p
  | _ => True

structure Unseen (s : State H) (dir name : Bytes) : Prop where
  enoent : ∀ ops, (∀ op ∈ ops, notCreating (filepathJoin dir name) op) →
    ∀ a ∈ (run step s ops).answers, a.path = filepathJoin dir name → s.next ≤ a.id →
      a.errno = .ENOENT
  returns : ∀ ops, (∀ op ∈ ops, notCreating (filepathJoin dir name) op) →
    ∀ t, t = run step s ops → t.free (filepathJoin dir name) = true →
      ⟨t.next, filepathJoin dir name, .ENOENT⟩ ∈
        (run step t (.lookup dir name :: List.replicate 5 (.advance t.next true))).answers

def Uncached (s : State H) (p : Bytes) : Prop :=
  s.cache.live p s.now = none ∧
    ∀ id r, s.requests.lookup id = some r → r.path = p → ∀ m, r.call ≠ .storing m

variable {s : State H} {p : Bytes} {base : ℕ}

theorem advance_step {id : ℕ} {r : Request} (h : s.requests.lookup id = some r)
    (hr : ∀ x, r.call ≠ .returned x) (ok : Bool) :
    advance s id ok =
      { s with
        cache := (r.call.step s.cache r.path s.now (s.free r.path) (s.readMetadata r.path ok)).2
        requests := AList.insert id
          { r with
            call := (r.call.step s.cache r.path s.now (s.free r.path) (s.readMetadata r.path ok)).1 }
          s.requests } := by
  unfold advance
  rw [h]
  split
  · next hnone => cases hnone
  · next hret =>
    obtain rfl := Option.some.inj hret
    exact absurd rfl (hr _)
  · next hret =>
    obtain rfl := Option.some.inj hret
    exact absurd rfl (hr _)
  · next hret =>
    obtain rfl := Option.some.inj hret
    rfl

theorem free_iff : s.free p = true ↔ ∀ id r, s.requests.lookup id = some r → r.caller = .lookup →
    r.path = p → r.call.holdsLock = false := by
  simp only [State.free, List.all_eq_true, Prod.forall, Dict.mem_items]
  constructor
  · intro h id r hr hcaller hp
    have hall := h id r hr
    simpa [hcaller, hp] using hall
  · intro h id r hr
    by_cases hcaller : r.caller = .lookup
    · by_cases hp : r.path = p
      · simp [h id r hr hcaller hp]
      · simp [hp]
    · simp [hcaller]

structure Absent (p : Bytes) (base : ℕ) (s : State H) : Prop where
  file : s.files.lookup p = none
  entry : ∀ e, s.cache.entry p = some e → s.now > e.expiresAt
  request : ∀ id r, s.requests.lookup id = some r → r.path = p →
    (∀ m, r.call ≠ .storing m) ∧ (base ≤ id → r.call.result = none)
  answer : ∀ a ∈ s.answers, a.path = p → base ≤ a.id → a.errno = .ENOENT

theorem Absent.live (hs : Absent p base s) : s.cache.live p s.now = none := by
  rw [LRUCache.live_eq]
  cases he : s.cache.entry p with
  | none => rfl
  | some e => simp [hs.entry e he]

theorem Absent.entry_mono (hs : Absent p base s) {cache : LRUCache H Metadata} {now : ℕ}
    (hcache : cache.entry p = none ∨ cache.entry p = s.cache.entry p) (hnow : s.now ≤ now) :
    ∀ e, cache.entry p = some e → now > e.expiresAt := by
  intro e he
  rcases hcache with h | h
  · rw [h] at he
    cases he
  · have hold := hs.entry e (h ▸ he)
    omega

theorem absent_answer (hs : Absent p base s) {id : ℕ} {caller : Caller} {q : Bytes}
    {x : Option Metadata} (hreq : s.requests.lookup id = some ⟨caller, q, .returned x⟩) (ok : Bool) :
    Absent p base (advance s id ok) := by
  have herase : ∀ j r, (AList.erase id s.requests).lookup j = some r → r.path = p →
      (∀ m, r.call ≠ .storing m) ∧ (base ≤ j → r.call.result = none) := by
    intro j r hj
    rw [Dict.lookup_erase] at hj
    split_ifs at hj
    exact hs.request j r hj
  cases caller with
  | scan =>
    have hdone : advance s id ok = { s with requests := AList.erase id s.requests } := by
      simp [advance, hreq]
    rw [hdone]
    exact ⟨hs.file, hs.entry, herase, hs.answer⟩
  | lookup =>
    have hdone : advance s id ok =
        { s with
          requests := AList.erase id s.requests
          answers := ⟨id, q, s.errnoOf q x⟩ :: s.answers } := by
      simp [advance, hreq]
    rw [hdone]
    refine ⟨hs.file, hs.entry, herase, fun a ha hp hbase => ?_⟩
    rcases List.mem_cons.mp ha with rfl | ha
    · obtain rfl : q = p := hp
      have hnone : x = none := (hs.request id _ hreq rfl).2 hbase
      simp [hnone, State.errnoOf, hs.file]
    · exact hs.answer a ha hp hbase

theorem absent_progress (hs : Absent p base s) {id : ℕ} {r : Request}
    (hreq : s.requests.lookup id = some r) (hr : ∀ x, r.call ≠ .returned x) (ok : Bool) :
    Absent p base (advance s id ok) := by
  have hstoring : ∀ m, r.call = .storing m → p ≠ r.path :=
    fun m hm hp => (hs.request id r hreq hp.symm).1 m hm
  rw [advance_step hreq hr]
  refine ⟨hs.file, hs.entry_mono (ReadCall.entry_step hstoring) le_rfl, ?_, hs.answer⟩
  intro j r' hj hp
  rw [Dict.lookup_insert] at hj
  split_ifs at hj with hji
  · obtain rfl := Option.some.inj hj
    obtain rfl : r.path = p := hp
    obtain ⟨hnot, hresult⟩ := hs.request id r hreq rfl
    have hfile : s.readMetadata r.path ok = none := by simp [State.readMetadata, hs.file]
    rw [hfile]
    obtain ⟨hnot', hresult'⟩ := ReadCall.step_of_absent (s.free r.path) hs.live hnot
    exact ⟨hnot', fun hbase => hresult' (hresult (hji ▸ hbase))⟩
  · exact hs.request j r' hj hp

theorem absent_advance (hs : Absent p base s) (id : ℕ) (ok : Bool) : Absent p base (advance s id ok) := by
  cases hreq : s.requests.lookup id with
  | none =>
    have hsame : advance s id ok = s := by simp [advance, hreq]
    rw [hsame]
    exact hs
  | some r =>
    by_cases hret : ∃ x, r.call = .returned x
    · obtain ⟨caller, q, call⟩ := r
      obtain ⟨x, rfl⟩ := hret
      exact absent_answer hs hreq ok
    · push Not at hret
      exact absent_progress hs hreq hret ok

theorem Absent.insert_request (hs : Absent p base s) {cache : LRUCache H Metadata} {next : ℕ}
    {r : Request} (hcache : cache.entry p = none ∨ cache.entry p = s.cache.entry p)
    (hr : (∀ m, r.call ≠ .storing m) ∧ r.call.result = none) :
    Absent p base { s with cache, requests := AList.insert s.next r s.requests, next } := by
  refine ⟨hs.file, hs.entry_mono hcache le_rfl, fun id r' hid hp => ?_, hs.answer⟩
  rw [Dict.lookup_insert] at hid
  split_ifs at hid
  · obtain rfl := Option.some.inj hid
    exact ⟨hr.1, fun _ => hr.2⟩
  · exact hs.request id r' hid hp

theorem absent_scan (hs : Absent p base s) (q : Bytes) : Absent p base (scan s q) := by
  have hget := s.cache.entry_get q p s.now
  unfold scan
  split
  · next m cache heq =>
    rw [heq] at hget
    exact ⟨hs.file, hs.entry_mono hget le_rfl, hs.request, hs.answer⟩
  · next cache heq =>
    rw [heq] at hget
    exact hs.insert_request hget (by simp [ReadCall.result])

theorem Absent.files (hs : Absent p base s) {files : Dict Bytes Physical}
    {dirCache : Dict Bytes CachedListing} (h : files.lookup p = none) :
    Absent p base { s with files, dirCache } := ⟨h, hs.entry, hs.request, hs.answer⟩

theorem lookup_erase_none {files : Dict Bytes Physical} (h : files.lookup p = none) (q : Bytes) :
    (AList.erase q files).lookup p = none := by
  rw [Dict.lookup_erase, h, ite_self]

theorem absent_step (s : State H) (op : Op) (hs : Absent p base s) (hop : notCreating p op) :
    Absent p base (step s op) := by
  cases op with
  | lookup dir name =>
    refine hs.insert_request (.inr rfl) ?_
    dsimp only
    split_ifs <;> simp [ReadCall.result]
  | scan q => exact absent_scan hs q
  | advance id ok => exact absent_advance hs id ok
  | unlink dir name err =>
    simp only [step, unlink]
    split_ifs
    · split
      · exact hs
      · exact hs.files (lookup_erase_none hs.file _)
    · exact hs
    · exact hs
  | readdir dir =>
    simp only [step, readdir]
    split
    · split_ifs
      · exact hs.files hs.file
      · exact hs
    · exact hs.files hs.file
  | cleanup =>
    exact ⟨hs.file, hs.entry_mono (s.cache.entry_cleanupExpired p s.now) le_rfl, hs.request, hs.answer⟩
  | create q node =>
    have hq : q ≠ p := hop
    refine hs.files ?_
    rw [Dict.lookup_insert, if_neg hq.symm, hs.file]
  | remove q => exact hs.files (lookup_erase_none hs.file _)
  | tick seconds =>
    exact ⟨hs.file, hs.entry_mono (.inr rfl) (Nat.le_add_right _ _), hs.request, hs.answer⟩

theorem unlink_success {dir name : Bytes} {err : Option ℕ}
    (h : (unlink s dir name err).1 = .success) :
    isMkv name = true ∧ filepathJoin dir name ∈ s.files ∧ (unlink s dir name err).2 =
      { s with
        files := AList.erase (filepathJoin dir name) s.files
        dirCache := AList.erase dir s.dirCache } := by
  unfold unlink at h ⊢
  split_ifs at h ⊢ with hname hfile
  cases err with
  | some code => cases h
  | none => exact ⟨hname, hfile, rfl⟩

structure Numbered (s : State H) : Prop where
  request : ∀ id r, s.requests.lookup id = some r → id < s.next
  answer : ∀ a ∈ s.answers, a.id < s.next

theorem Numbered.insert_request (hs : Numbered s) {cache : LRUCache H Metadata} {r : Request} :
    Numbered { s with cache, requests := AList.insert s.next r s.requests, next := s.next + 1 } := by
  refine ⟨fun id r' hid => ?_, fun a ha => Nat.lt_succ_of_lt (hs.answer a ha)⟩
  rw [Dict.lookup_insert] at hid
  split_ifs at hid with heq
  · rw [heq]
    exact Nat.lt_succ_self _
  · exact Nat.lt_succ_of_lt (hs.request id r' hid)

theorem numbered_advance (hs : Numbered s) (id : ℕ) (ok : Bool) : Numbered (advance s id ok) := by
  have herase : ∀ j r, (AList.erase id s.requests).lookup j = some r → j < s.next := by
    intro j r hj
    rw [Dict.lookup_erase] at hj
    split_ifs at hj
    exact hs.request j r hj
  unfold advance
  split
  · exact hs
  · next hreq =>
    refine ⟨herase, fun a ha => ?_⟩
    rcases List.mem_cons.mp ha with rfl | ha
    · exact hs.request id _ hreq
    · exact hs.answer a ha
  · exact ⟨herase, hs.answer⟩
  · next hreq =>
    refine ⟨fun j r hj => ?_, hs.answer⟩
    rw [Dict.lookup_insert] at hj
    split_ifs at hj with heq
    · rw [heq]
      exact hs.request id _ hreq
    · exact hs.request j r hj

theorem numbered_step (s : State H) (op : Op) (hs : Numbered s) : Numbered (step s op) := by
  cases op with
  | lookup dir name => exact hs.insert_request
  | scan q =>
    simp only [step, scan]
    split
    · exact ⟨hs.request, hs.answer⟩
    · exact hs.insert_request
  | advance id ok => exact numbered_advance hs id ok
  | unlink dir name err =>
    simp only [step, unlink]
    split_ifs
    · split
      · exact hs
      · exact ⟨hs.request, hs.answer⟩
    · exact hs
    · exact hs
  | readdir dir =>
    simp only [step, readdir]
    split
    · split_ifs
      · exact ⟨hs.request, hs.answer⟩
      · exact hs
    · exact ⟨hs.request, hs.answer⟩
  | cleanup | create q node | remove q | tick seconds => exact ⟨hs.request, hs.answer⟩

theorem numbered_run (files : Dict Bytes Physical) (cache : LRUCache H Metadata) (ops : List Op) :
    Numbered (run step (State.init files cache) ops) := by
  refine run_invariant (fun s op hs (_ : True) => numbered_step s op hs) ops ?_ fun _ _ => trivial
  exact ⟨fun id r h => by simp [State.init] at h, fun a h => by simp [State.init] at h⟩

theorem lookup_request (s : State H) (dir name : Bytes) (hname : isMkv name = true) :
    (lookup s dir name).requests.lookup s.next = some ⟨.lookup, filepathJoin dir name, .start⟩ := by
  simp [lookup, hname]

theorem advance_request {id : ℕ} {call : ReadCall}
    (h : s.requests.lookup id = some ⟨.lookup, p, call⟩) (hr : ∀ x, call ≠ .returned x) (ok : Bool) :
    (advance s id ok).requests.lookup id = some
      ⟨.lookup, p, (call.step s.cache p s.now (s.free p) (s.readMetadata p ok)).1⟩ := by
  rw [advance_step h hr]
  simp

theorem advance_answers {id : ℕ} {r : Option Metadata}
    (h : s.requests.lookup id = some ⟨.lookup, p, .returned r⟩) (ok : Bool) :
    ⟨id, p, s.errnoOf p r⟩ ∈ (advance s id ok).answers := by
  simp [advance, h]

theorem lookup_hit {dir name : Bytes} (hname : isMkv name = true) {m : Metadata}
    (h : s.cache.live (filepathJoin dir name) s.now = some m) :
    ⟨s.next, filepathJoin dir name, .success⟩ ∈
      (run step s [.lookup dir name, .advance s.next true, .advance s.next true]).answers := by
  have hlive : (lookup s dir name).cache.live (filepathJoin dir name) (lookup s dir name).now =
      some m := h
  have hnext := advance_request (lookup_request s dir name hname) (by simp) true
  rw [ReadCall.fst_step_start, hlive] at hnext
  exact advance_answers hnext true

theorem lookup_miss {dir name : Bytes} (hname : isMkv name = true)
    (hs : Absent (filepathJoin dir name) base s) (hfree : s.free (filepathJoin dir name) = true) :
    ⟨s.next, filepathJoin dir name, .ENOENT⟩ ∈
      (run step s (.lookup dir name :: List.replicate 5 (.advance s.next true))).answers := by
  -- the states after the arrival and after each step of the request
  have h₀ : Absent _ base (lookup s dir name) := absent_step s (.lookup dir name) hs trivial
  have h₁ := absent_advance h₀ s.next true
  have h₂ := absent_advance h₁ s.next true
  have h₃ := absent_advance h₂ s.next true
  have h₄ := absent_advance h₃ s.next true
  have hstart := lookup_request s dir name hname
  have hwait := advance_request hstart (by simp) true
  rw [ReadCall.fst_step_start, h₀.live] at hwait
  have hfree₁ : (advance (lookup s dir name) s.next true).free (filepathJoin dir name) = true := by
    rw [free_iff] at hfree ⊢
    intro id r hid hcaller hp
    by_cases hid' : id = s.next
    · subst hid'
      rw [hwait] at hid
      obtain rfl := Option.some.inj hid
      rfl
    · rw [advance_step hstart (by simp)] at hid
      simp only [lookup, Dict.lookup_insert, if_neg hid'] at hid
      exact hfree id r hid hcaller hp
  have hlock := advance_request hwait (by simp) true
  simp only [ReadCall.step, hfree₁, if_true] at hlock
  have hread := advance_request hlock (by simp) true
  rw [ReadCall.fst_step_locked, h₂.live] at hread
  have hdone := advance_request hread (by simp) true
  simp only [State.readMetadata, h₃.file, ReadCall.step] at hdone
  have hanswer := advance_answers hdone true
  rw [State.errnoOf, h₄.file] at hanswer
  simp only [List.replicate_succ, List.replicate_zero, run_cons, run_nil, step]
  exact hanswer

theorem absent_unlink {dir name : Bytes} {err : Option ℕ} (hs : Numbered s)
    (h : (unlink s dir name err).1 = .success) (hun : Uncached s (filepathJoin dir name)) :
    Absent (filepathJoin dir name) s.next (unlink s dir name err).2 := by
  obtain ⟨-, -, hafter⟩ := unlink_success h
  rw [hafter]
  refine ⟨?_, fun e he => ?_, fun id r hid hp => ⟨hun.2 id r hid hp, fun hbase => ?_⟩, fun a ha _ hbase => ?_⟩
  · rw [Dict.lookup_erase, if_pos rfl]
  · have hlive := hun.1
    rw [LRUCache.live_eq] at hlive
    by_contra hnot
    have he' : s.cache.entry (filepathJoin dir name) = some e := he
    have hnot' : ¬ s.now > e.expiresAt := hnot
    simp [he', hnot'] at hlive
  · exact absurd (hs.request id r hid) (Nat.not_lt.mpr hbase)
  · exact absurd (hs.answer a ha) (Nat.not_lt.mpr hbase)

theorem unseen_of_absent {dir name : Bytes} (hname : isMkv name = true)
    (hs : Absent (filepathJoin dir name) s.next s) : Unseen s dir name where
  enoent := fun ops hops a ha =>
    (run_invariant absent_step ops hs hops).answer a ha
  returns := by
    rintro ops hops t rfl hfree
    exact lookup_miss hname (run_invariant absent_step ops hs hops) hfree

theorem uncached_of_unseen {dir name : Bytes} (hname : isMkv name = true) (hs : Unseen s dir name) :
    Uncached s (filepathJoin dir name) := by
  have hmiss : ∀ t : State H, t.next = s.next →
      (∀ more, (∀ op ∈ more, notCreating (filepathJoin dir name) op) →
        ∃ ops, (∀ op ∈ ops, notCreating (filepathJoin dir name) op) ∧
          run step t more = run step s ops) →
      t.cache.live (filepathJoin dir name) t.now = none := by
    intro t hnext hops
    by_contra hlive
    obtain ⟨m, hm⟩ := Option.ne_none_iff_exists'.mp hlive
    obtain ⟨ops, hquiet, hrun⟩ := hops
      [.lookup dir name, .advance t.next true, .advance t.next true] (by simp [notCreating])
    have hfound := lookup_hit hname hm
    rw [hrun] at hfound
    exact absurd (hs.enoent ops hquiet _ hfound rfl hnext.ge) (by simp)
  refine ⟨hmiss s rfl fun more hmore => ⟨more, hmore, rfl⟩, fun id r hid hp m hm => ?_⟩
  -- the request stores the metadata
  have hstored := advance_step hid (by simp [hm]) true
  have hlive := hmiss (advance s id true) (by rw [hstored]) fun more hmore =>
    ⟨.advance id true :: more, by simpa [notCreating] using hmore, rfl⟩
  rw [hstored] at hlive
  simp only [hm, ReadCall.step, hp] at hlive
  obtain ⟨ttl, hentry⟩ :=
    s.cache.entry_put_self (filepathJoin dir name) m (approximateMetadataSize m) s.now
  simp [LRUCache.live_eq, hentry] at hlive

/-- When every lookup after an `Unlink` answers `ENOENT`. -/
theorem unlink_observable_iff (files : Dict Bytes Physical) (cache : LRUCache H Metadata)
    (history : List Op) (dir name : Bytes) (err : Option ℕ) (s : State H)
    (hs : s = run step (State.init files cache) history)
    (h : (unlink s dir name err).1 = .success) :
    Unseen (unlink s dir name err).2 dir name ↔ Uncached s (filepathJoin dir name) := by
  obtain ⟨hname, -, hafter⟩ := unlink_success h
  constructor
  · intro hunseen
    have hun := uncached_of_unseen hname hunseen
    rw [hafter] at hun
    exact hun
  · intro hun
    refine unseen_of_absent hname ?_
    have habsent := absent_unlink (hs ▸ numbered_run files cache history) h hun
    rw [hafter] at habsent ⊢
    exact habsent

def filmDir : Bytes := ascii "/m"

def filmName : Bytes := ascii "a.mkv"

def oneStub : State .standard :=
  .init (AList.singleton (filepathJoin filmDir filmName) (.stub (ascii "http://h"))) (.new 0 86400)

theorem unlink_observable_before_lookup :
    Unseen (unlink oneStub filmDir filmName none).2 filmDir filmName := by
  refine (unlink_observable_iff _ _ [] filmDir filmName none oneStub rfl (by decide +kernel)).mpr ?_
  exact ⟨by decide +kernel, fun id r hid => by simp [oneStub, State.init] at hid⟩

theorem lookup_after_unlink_succeeds :
    let s := run step oneStub (.lookup filmDir filmName :: List.replicate 6 (.advance 0 true))
    let t := run step (unlink s filmDir filmName none).2
      [.tick 86400, .lookup filmDir filmName, .advance 1 true, .advance 1 true]
    (unlink s filmDir filmName none).1 = .success ∧
      ⟨1, filepathJoin filmDir filmName, .success⟩ ∈ t.answers ∧
      ¬ Unseen (unlink s filmDir filmName none).2 filmDir filmName := by
  intro s t
  have hrun : (unlink s filmDir filmName none).1 = .success ∧
      (unlink s filmDir filmName none).2.next = 1 ∧
      ⟨1, filepathJoin filmDir filmName, .success⟩ ∈ t.answers := by
    decide +kernel
  refine ⟨hrun.1, hrun.2.2, fun hun => ?_⟩
  exact absurd (hun.enoent _ (by simp [notCreating]) _ hrun.2.2 rfl hrun.2.1.le) (by simp)

end GoStream.Fuse
