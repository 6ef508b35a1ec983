import GoStream.Foundations.Disk
import GoStream.Foundations.Maps
import GoStream.Foundations.Run
import GoStream.Foundations.Threads

/-!
# Locks by path
-/

namespace GoStream.Locks

open Foundations

structure LockEntry where
  locked : Bool
  refCount : ℤ

inductive Call where
  | waiting (path : Bytes) (entry : ℕ)
  | trying (path : Bytes) (entry : ℕ)
  | holding (path : Bytes) (entry : ℕ)
  | leaving (path : Bytes) (entry : ℕ)
  deriving DecidableEq, Repr

namespace Call

def path : Call → Bytes
  | waiting path _ | trying path _ | holding path _ | leaving path _ => path

def entry : Call → ℕ
  | waiting _ entry | trying _ entry | holding _ entry | leaving _ entry => entry

def isWaiting : Call → Bool
  | waiting _ _ | trying _ _ => true
  | _ => false

def isHolding : Call → Bool
  | holding _ _ => true
  | _ => false

def isLeaving : Call → Bool
  | leaving _ _ => true
  | _ => false

end Call

structure LockManager where
  locks : Dict Bytes ℕ
  entries : ℕ → LockEntry
  next : ℕ
  calls : List Call

inductive Op where
  | lock (path : Bytes)
  | tryLock (path : Bytes)
  | advance (i : ℕ) (contended : Bool)
  deriving DecidableEq, Repr

namespace LockManager

def new : LockManager := ⟨∅, fun _ => ⟨false, 0⟩, 0, []⟩

variable (s : LockManager)

def setLocked (e : ℕ) (locked : Bool) : ℕ → LockEntry :=
  Function.update s.entries e { s.entries e with locked }

def takeRef (path : Bytes) (call : ℕ → Call) : LockManager :=
  match s.locks.lookup path with
  | some e =>
    { s with
      entries := Function.update s.entries e
        { s.entries e with refCount := (s.entries e).refCount + 1 }
      calls := call e :: s.calls }
  | none =>
    { locks := AList.insert path s.next s.locks
      entries := Function.update s.entries s.next ⟨false, 1⟩
      next := s.next + 1
      calls := call s.next :: s.calls }

def dropRef (i : ℕ) (path : Bytes) (e : ℕ) : LockManager :=
  { s with
    locks := if (s.entries e).refCount - 1 ≤ 0 then AList.erase path s.locks else s.locks
    entries := Function.update s.entries e
      { s.entries e with refCount := (s.entries e).refCount - 1 }
    calls := s.calls.eraseIdx i }

def advance (i : ℕ) (contended : Bool) : Call → LockManager
  | .waiting path e =>
    if (s.entries e).locked then s
    else { s with entries := s.setLocked e true, calls := s.calls.set i (.holding path e) }
  | .trying path e =>
    if (s.entries e).locked || contended then { s with calls := s.calls.set i (.leaving path e) }
    else { s with entries := s.setLocked e true, calls := s.calls.set i (.holding path e) }
  | .holding path e =>
    { s with entries := s.setLocked e false, calls := s.calls.set i (.leaving path e) }
  | .leaving path e => s.dropRef i path e

def step (s : LockManager) : Op → LockManager
  | .lock path => s.takeRef path (.waiting path)
  | .tryLock path => s.takeRef path (.trying path)
  | .advance i contended =>
    match s.calls[i]? with
    | some call => s.advance i contended call
    | none => s

def count (kind : Call → Bool) (e : ℕ) : ℕ := s.calls.countP fun call => kind call && call.entry == e

structure Sound : Prop where
  exclusive : ∀ path, s.calls.countP (fun call => call.isHolding && call.path == path) ≤ 1
  registered : ∀ e, (∃ path, s.locks.lookup path = some e) ↔ 0 < (s.entries e).refCount
  refCount : ∀ e, (s.entries e).refCount =
    s.count Call.isHolding e + s.count Call.isWaiting e + s.count Call.isLeaving e
  unique : ∀ call ∈ s.calls, ∀ call' ∈ s.calls, call.path = call'.path → call.entry = call'.entry
  empty : s.calls = [] → s.locks.items = []

structure Inv : Prop where
  refs : ∀ e, (s.entries e).refCount = s.calls.countP fun call => call.entry == e
  known : ∀ call ∈ s.calls, s.locks.lookup call.path = some call.entry
  used : ∀ path e, s.locks.lookup path = some e → ∃ call ∈ s.calls, call.entry = e
  inj : ∀ path path' e, s.locks.lookup path = some e → s.locks.lookup path' = some e → path = path'
  fresh : ∀ path e, s.locks.lookup path = some e → e < s.next
  mutex : ∀ e, s.count Call.isHolding e = if (s.entries e).locked then 1 else 0

theorem inv_new : new.Inv where
  refs := fun _ => rfl
  known := fun call h => absurd h List.not_mem_nil
  used := fun path e h => by simp [new] at h
  inj := fun path path' e h => by simp [new] at h
  fresh := fun path e h => by simp [new] at h
  mutex := fun _ => rfl

variable {s} {i : ℕ} {call : Call}

theorem Inv.entry_lt (hs : s.Inv) (hcall : call ∈ s.calls) : call.entry < s.next :=
  hs.fresh _ _ (hs.known call hcall)

theorem Inv.count_next (hs : s.Inv) (kind : Call → Bool) : s.count kind s.next = 0 := by
  rw [count, List.countP_eq_zero]
  intro call hcall
  have hlt := hs.entry_lt hcall
  simp only [Bool.and_eq_true, beq_iff_eq, not_and]
  intro _ heq
  omega

section TakeRef

variable {path : Bytes} {call : ℕ → Call} (hpath : ∀ e, (call e).path = path)
  (hentry : ∀ e, (call e).entry = e) (hnot : ∀ e, (call e).isHolding = false)

include hentry in
theorem countP_entry_cons (e e' : ℕ) : (call e :: s.calls).countP (fun call => call.entry == e') =
    s.calls.countP (fun call => call.entry == e') + if e = e' then 1 else 0 := by
  rw [List.countP_cons, hentry]
  simp

include hnot in
theorem countP_holding_cons (e e' : ℕ) : (call e :: s.calls).countP
    (fun call => call.isHolding && call.entry == e') = s.count Call.isHolding e' := by
  rw [List.countP_cons_of_neg (by simp [hnot]), count]

include hpath hentry hnot

theorem Inv.takeRef_registered (hs : s.Inv) {e : ℕ} (hlook : s.locks.lookup path = some e) :
    (s.takeRef path call).Inv := by
  unfold LockManager.takeRef
  rw [hlook]
  dsimp only
  refine ⟨fun e' => ?_, ?_, ?_, hs.inj, hs.fresh, fun e' => ?_⟩
  · rw [countP_entry_cons hentry, Nat.cast_add, ← hs.refs e']
    rcases eq_or_ne e' e with rfl | hne
    · simp
    · simp [hne, hne.symm]
  · intro call' hcall'
    rcases List.mem_cons.mp hcall' with rfl | hcall'
    · rw [hpath, hentry, hlook]
    · exact hs.known call' hcall'
  · intro path' e' h
    obtain ⟨call', hcall', heq⟩ := hs.used path' e' h
    exact ⟨call', List.mem_cons_of_mem _ hcall', heq⟩
  · rw [count, countP_holding_cons hnot, hs.mutex e']
    rcases eq_or_ne e' e with rfl | hne
    · simp
    · simp [hne]

theorem Inv.takeRef_new (hs : s.Inv) (hlook : s.locks.lookup path = none) :
    (s.takeRef path call).Inv := by
  have hold : ∀ path' e', s.locks.lookup path' = some e' → e' ≠ s.next := fun path' e' h =>
    (hs.fresh path' e' h).ne
  have hzero : s.calls.countP (fun call => call.entry == s.next) = 0 := by
    simpa [count] using hs.count_next fun _ => true
  unfold LockManager.takeRef
  rw [hlook]
  dsimp only
  refine ⟨fun e' => ?_, ?_, ?_, ?_, ?_, fun e' => ?_⟩
  · rw [countP_entry_cons hentry]
    rcases eq_or_ne e' s.next with rfl | hne
    · simp [hzero]
    · simp [hne, hne.symm, hs.refs e']
  · intro call' hcall'
    rw [Dict.lookup_insert]
    rcases List.mem_cons.mp hcall' with rfl | hcall'
    · rw [hpath, hentry, if_pos rfl]
    · rw [if_neg, hs.known call' hcall']
      intro heq
      have hknown := hs.known call' hcall'
      rw [heq, hlook] at hknown
      cases hknown
  · intro path' e' h
    rw [Dict.lookup_insert] at h
    split_ifs at h
    · exact ⟨call s.next, List.mem_cons_self, (hentry _).trans (Option.some.inj h)⟩
    · obtain ⟨call', hcall', heq⟩ := hs.used path' e' h
      exact ⟨call', List.mem_cons_of_mem _ hcall', heq⟩
  · intro path₁ path₂ e' h₁ h₂
    rw [Dict.lookup_insert] at h₁ h₂
    split_ifs at h₁ h₂ with hp₁ hp₂ hp₂
    · rw [hp₁, hp₂]
    · exact absurd (Option.some.inj h₁).symm (hold _ _ h₂)
    · exact absurd (Option.some.inj h₂).symm (hold _ _ h₁)
    · exact hs.inj _ _ _ h₁ h₂
  · intro path' e' h
    rw [Dict.lookup_insert] at h
    split_ifs at h
    · obtain rfl := Option.some.inj h
      exact Nat.lt_succ_self _
    · exact Nat.lt_succ_of_lt (hs.fresh _ _ h)
  · rw [count, countP_holding_cons hnot]
    rcases eq_or_ne e' s.next with rfl | hne
    · simp [hs.count_next]
    · simp [hne, hs.mutex e']

theorem Inv.takeRef (hs : s.Inv) : (s.takeRef path call).Inv := by
  cases hlook : s.locks.lookup path with
  | some e => exact hs.takeRef_registered hpath hentry hnot hlook
  | none => exact hs.takeRef_new hpath hentry hnot hlook

end TakeRef

theorem Inv.replace (hs : s.Inv) {call' : Call} {locked : Bool} (hi : s.calls[i]? = some call)
    (hpath : call'.path = call.path) (hentry : call'.entry = call.entry)
    (hlocked : (if call.isHolding then 1 else 0) + (if locked then 1 else 0) =
      (if call'.isHolding then 1 else 0) + if (s.entries call.entry).locked then 1 else 0) :
    LockManager.Inv { s with
      entries := s.setLocked call.entry locked, calls := s.calls.set i call' } := by
  have hcall : call ∈ s.calls := List.mem_of_getElem? hi
  refine ⟨fun e => ?_, ?_, ?_, hs.inj, hs.fresh, fun e => ?_⟩
  · have hcount := countP_set_add (p := fun call : Call => call.entry == e) call' hi
    rw [hentry] at hcount
    rw [show (s.calls.set i call').countP (fun call => call.entry == e) =
      s.calls.countP fun call => call.entry == e by omega, ← hs.refs e]
    rcases eq_or_ne e call.entry with rfl | hne
    · simp [setLocked]
    · simp [setLocked, hne]
  · intro call₁ hcall₁
    rcases List.mem_or_eq_of_mem_set hcall₁ with hold | rfl
    · exact hs.known call₁ hold
    · rw [hpath, hentry]
      exact hs.known call hcall
  · intro path e h
    obtain ⟨call₁, hcall₁, heq⟩ := hs.used path e h
    by_cases hsame : call₁ = call
    · refine ⟨call', List.mem_set (List.getElem?_eq_some_iff.mp hi).1 call', ?_⟩
      rw [hentry, ← hsame, heq]
    · exact ⟨call₁, mem_set_of_ne call' hi hcall₁ hsame, heq⟩
  · have hcount :=
      countP_set_add (p := fun call : Call => call.isHolding && call.entry == e) call' hi
    have hmutex := hs.mutex e
    rw [count] at hmutex ⊢
    rcases eq_or_ne e call.entry with rfl | hne
    · simp only [hentry, beq_self_eq_true, Bool.and_true] at hcount
      simp only [setLocked, Function.update_self]
      omega
    · have hne' : (call.entry == e) = false := by simpa using hne.symm
      simp only [hentry, hne', Bool.and_false, Bool.false_eq_true, if_false, add_zero] at hcount
      simp only [setLocked, Function.update_of_ne hne]
      omega

theorem Inv.refs_dropRef (hs : s.Inv) (hi : s.calls[i]? = some call) (e : ℕ) :
    ((s.dropRef i call.path call.entry).entries e).refCount =
      (s.calls.eraseIdx i).countP fun call => call.entry == e := by
  have hone := countP_eraseIdx_add (p := fun call : Call => call.entry == e) hi
  have hold := hs.refs e
  rcases eq_or_ne e call.entry with rfl | hne
  · simp only [beq_self_eq_true, if_true] at hone
    simp only [LockManager.dropRef, Function.update_self]
    omega
  · have hne' : (call.entry == e) = false := by simpa using hne.symm
    simp only [hne', Bool.false_eq_true, if_false, add_zero] at hone
    simp only [LockManager.dropRef, Function.update_of_ne hne]
    omega

theorem Inv.last_iff (hs : s.Inv) (hi : s.calls[i]? = some call) :
    (s.entries call.entry).refCount - 1 ≤ 0 ↔
      ∀ call' ∈ s.calls.eraseIdx i, call'.entry ≠ call.entry := by
  have h := hs.refs_dropRef hi call.entry
  simp only [LockManager.dropRef, Function.update_self] at h
  rw [h, Nat.cast_nonpos, List.countP_eq_zero]
  simp

theorem Inv.lookup_dropRef (hs : s.Inv) (hi : s.calls[i]? = some call) (path : Bytes) (e : ℕ) :
    (s.dropRef i call.path call.entry).locks.lookup path = some e ↔
      s.locks.lookup path = some e ∧ ∃ call' ∈ s.calls.eraseIdx i, call'.entry = e := by
  simp only [LockManager.dropRef]
  split_ifs with hlast
  · rw [hs.last_iff hi] at hlast
    rw [Dict.lookup_erase]
    split_ifs with hpath
    · refine iff_of_false (by simp) ?_
      rintro ⟨h, call', hcall', rfl⟩
      rw [hpath, hs.known call (List.mem_of_getElem? hi)] at h
      exact hlast call' hcall' (Option.some.inj h).symm
    · refine ⟨fun h => ⟨h, ?_⟩, fun h => h.1⟩
      obtain ⟨call', hcall', heq⟩ := hs.used path e h
      refine ⟨call', mem_eraseIdx_of_ne hi hcall' ?_, heq⟩
      rintro rfl
      exact hpath (hs.inj _ _ _ h (heq ▸ hs.known _ hcall'))
  · refine ⟨fun h => ⟨h, ?_⟩, fun h => h.1⟩
    rw [hs.last_iff hi] at hlast
    push Not at hlast
    obtain ⟨call', hcall', heq⟩ := hs.used path e h
    by_cases hsame : call' = call
    · obtain ⟨call₂, hcall₂, heq₂⟩ := hlast
      exact ⟨call₂, hcall₂, by rw [heq₂, ← hsame, heq]⟩
    · exact ⟨call', mem_eraseIdx_of_ne hi hcall' hsame, heq⟩

theorem Inv.dropRef (hs : s.Inv) (hi : s.calls[i]? = some call) (hnot : call.isHolding = false) :
    (s.dropRef i call.path call.entry).Inv := by
  have hlook := hs.lookup_dropRef hi
  refine ⟨hs.refs_dropRef hi, ?_, ?_, ?_, ?_, fun e => ?_⟩
  · intro call' hcall'
    exact (hlook _ _).mpr ⟨hs.known call' (List.mem_of_mem_eraseIdx hcall'), call', hcall', rfl⟩
  · exact fun path e h => ((hlook path e).mp h).2
  · exact fun path path' e h h' => hs.inj _ _ _ ((hlook _ _).mp h).1 ((hlook _ _).mp h').1
  · exact fun path e h => hs.fresh _ _ ((hlook path e).mp h).1
  · have hone := countP_eraseIdx_add (p := fun call : Call => call.isHolding && call.entry == e) hi
    simp only [hnot, Bool.false_and, Bool.false_eq_true, if_false, add_zero] at hone
    rw [count, LockManager.dropRef, hone, ← count, hs.mutex e]
    rcases eq_or_ne e call.entry with rfl | hne
    · simp
    · simp [hne]

theorem Inv.advance (hs : s.Inv) (contended : Bool) (hi : s.calls[i]? = some call) :
    (s.advance i contended call).Inv := by
  have hkeep : ∀ e, s.setLocked e (s.entries e).locked = s.entries := fun e =>
    Function.update_eq_self e s.entries
  cases call with
  | waiting path e =>
    rw [LockManager.advance]
    split_ifs with hlocked
    · exact hs
    · exact hs.replace hi rfl rfl (by simp [Call.isHolding, Call.entry, hlocked])
  | trying path e =>
    rw [LockManager.advance]
    split_ifs with hlocked
    · have h : LockManager.Inv { s with
          entries := s.setLocked e (s.entries e).locked
          calls := s.calls.set i (.leaving path e) } := hs.replace hi rfl rfl rfl
      rwa [hkeep] at h
    · simp only [Bool.or_eq_true, not_or] at hlocked
      exact hs.replace hi rfl rfl (by simp [Call.isHolding, Call.entry, hlocked.1])
  | holding path e =>
    have hlocked : (s.entries e).locked = true := by
      have hpos : 0 < s.count Call.isHolding e :=
        List.countP_pos_iff.mpr ⟨_, List.mem_of_getElem? hi, by simp [Call.isHolding, Call.entry]⟩
      rw [hs.mutex e] at hpos
      split_ifs at hpos with h
      · exact h
      · exact absurd hpos (Nat.lt_irrefl 0)
    exact hs.replace hi rfl rfl (by simp [Call.isHolding, Call.entry, hlocked])
  | leaving path e => exact hs.dropRef hi rfl

theorem Inv.step (hs : s.Inv) (op : Op) : (s.step op).Inv := by
  cases op with
  | lock path | tryLock path => exact hs.takeRef (fun _ => rfl) (fun _ => rfl) fun _ => rfl
  | advance i contended =>
    rw [LockManager.step]
    cases hi : s.calls[i]? with
    | none => exact hs
    | some call => exact hs.advance contended hi

theorem count_add (e : ℕ) :
    s.count Call.isHolding e + s.count Call.isWaiting e + s.count Call.isLeaving e =
      s.calls.countP fun call => call.entry == e := by
  unfold count
  induction s.calls with
  | nil => rfl
  | cons call calls ih =>
    have hone : ∀ b : Bool, (if call.isHolding && b then 1 else 0) +
        (if call.isWaiting && b then 1 else 0) + (if call.isLeaving && b then 1 else 0) =
          if b then 1 else 0 := by
      intro b
      cases call <;> cases b <;> rfl
    simp only [List.countP_cons, ← ih, ← hone (call.entry == e)]
    omega

theorem Inv.sound (hs : s.Inv) : s.Sound where
  exclusive := by
    intro path
    cases hlook : s.locks.lookup path with
    | none =>
      have hnone : s.calls.countP (fun call => call.isHolding && call.path == path) = 0 := by
        rw [List.countP_eq_zero]
        intro call hcall h
        simp only [Bool.and_eq_true, beq_iff_eq] at h
        have hknown := hs.known call hcall
        rw [h.2, hlook] at hknown
        cases hknown
      omega
    | some e =>
      -- all holders of the path hold the mutex of one entry
      have hle : s.calls.countP (fun call => call.isHolding && call.path == path) ≤
          s.count Call.isHolding e := by
        apply List.countP_mono_left
        intro call hcall h
        simp only [Bool.and_eq_true, beq_iff_eq] at h ⊢
        have hknown := hs.known call hcall
        rw [h.2, hlook] at hknown
        exact ⟨h.1, (Option.some.inj hknown).symm⟩
      rw [hs.mutex e] at hle
      split_ifs at hle <;> omega
  registered := by
    intro e
    rw [hs.refs e, Nat.cast_pos, List.countP_pos_iff]
    constructor
    · rintro ⟨path, h⟩
      obtain ⟨call, hcall, heq⟩ := hs.used path e h
      exact ⟨call, hcall, by simpa using heq⟩
    · rintro ⟨call, hcall, heq⟩
      rw [beq_iff_eq] at heq
      exact ⟨call.path, heq ▸ hs.known call hcall⟩
  refCount := by
    intro e
    rw [hs.refs e, ← count_add]
    push_cast
    rfl
  unique := by
    intro call hcall call' hcall' hpath
    have h := hs.known call hcall
    rw [hpath, hs.known call' hcall'] at h
    exact (Option.some.inj h).symm
  empty := by
    intro hnil
    rw [List.eq_nil_iff_forall_not_mem]
    rintro ⟨path, e⟩ hmem
    obtain ⟨call, hcall, -⟩ := hs.used path e (Dict.mem_items.mp hmem)
    rw [hnil] at hcall
    cases hcall

/-- The manager is sound in every interleaving. -/
theorem sound_run (ops : List Op) : (run step new ops).Sound :=
  (run_keeps LockManager.Inv (fun _ op hs => hs.step op) ops inv_new).sound

theorem leaving_counted :
    let s := run step new [.lock [97], .advance 0 false, .advance 0 false]
    (s.entries 0).refCount = 1 ∧ s.count Call.isHolding 0 + s.count Call.isWaiting 0 = 0 := by
  decide

end LockManager

end GoStream.Locks
