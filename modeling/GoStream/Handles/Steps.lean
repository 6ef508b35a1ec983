import GoStream.Handles.System

/-!
# What a step can do
-/

namespace GoStream.Handles

open Foundations

inductive Key where
  | lock
  | release (h : ℕ)
  | pump (p : ℕ)
  deriving DecidableEq, Repr

def Thread.key : Thread → Option Key
  | .startFound _ _ => some .lock
  | .readFound _ _ => some .lock
  | .releaseFound h _ => some (.release h)
  | .pumpStart p => some (.pump p)
  | .pumpRunning p => some (.pump p)
  | .pumpEnding p _ => some (.pump p)
  | _ => none

def Effect.Quiet : Effect → Prop
  | .nothing => True
  | .openHandle _ _ => True
  | .once _ => True
  | .resolve _ _ => True
  | .remove _ => True
  | _ => False

inductive Does (s : System) (moved : Option Thread) : Effect → Bool → List Thread → Prop where
  | quiet {e : Effect} {next : List Thread} (he : e.Quiet)
      (hmoved : moved.bind Thread.key ≠ some .lock) (hnext : ∀ t ∈ next, t.key = none) :
      Does s moved e s.lock next
  | find {h p : ℕ} {x : Handle} {t : Thread} (ht : t = .startFound h p ∨ t = .readFound h p)
      (hlock : s.lock = false) (hx : s.registry.handles[h]? = some x)
      (hentry : s.registry.activePumps x.path = some p) : Does s moved .nothing true [t]
  | attach {h p : ℕ} {inherit : Bool} {next : List Thread}
      (hmoved : moved = some (.startFound h p) ∨ moved = some (.readFound h p))
      (hnext : ∀ t ∈ next, t.key = none) : Does s moved (.attach h p inherit) false next
  | create {h : ℕ} {x : Handle} {primary : Bool} {next : List Thread} (hlock : s.lock = false)
      (hx : s.registry.handles[h]? = some x) (hentry : s.registry.activePumps x.path = none)
      (hnext : ∀ t ∈ next, t.key = none) :
      Does s moved (.create h primary) false (.pumpStart s.registry.pumps.length :: next)
  | beginRelease {h p : ℕ} {x : Handle} (hx : s.registry.handles[h]? = some x)
      (hentry : s.registry.activePumps x.path = some p) (hslot : x.hasSlot = true)
      (hmoved : moved = none) : Does s moved (.beginRelease h p) s.lock [.releaseFound h p]
  | returnEarly {h p : ℕ} {x : Handle} (hx : s.registry.handles[h]? = some x)
      (hentry : s.registry.activePumps x.path = some p) (hslot : x.hasSlot = false)
      (hmoved : moved = none) : Does s moved (.returnEarly h p) s.lock []
  | close {h : ℕ} {x : Handle} (hx : s.registry.handles[h]? = some x)
      (hentry : s.registry.activePumps x.path = none) (hmoved : moved = none) :
      Does s moved (.close h) s.lock []
  | decrement {h p : ℕ} (hmoved : moved = some (.releaseFound h p)) :
      Does s moved (.decrement h p) s.lock []
  | run {p : ℕ} {ps : NativePumpState} {hash : Bytes} (hmoved : moved = some (.pumpStart p))
      (hps : s.registry.pumps[p]? = some ps) :
      Does s moved (.resolve ps.creator hash) s.lock [.pumpRunning p]
  | ending {p : ℕ} {ps : NativePumpState} (hmoved : moved = some (.pumpRunning p))
      (hps : s.registry.pumps[p]? = some ps) :
      Does s moved .nothing s.lock
        [.pumpEnding p (decide (s.registry.activePumps ps.path = some p))]
  | ended {p : ℕ} {registered : Bool} (hmoved : moved = some (.pumpEnding p registered)) :
      Does s moved (.endPump p registered) s.lock []
  | cancel {path : Bytes} {p : ℕ} (hmoved : moved = some (.timerExpired path p)) :
      Does s moved (.cancel path p) s.lock []

namespace System

variable {limit : ℕ} {s : System} {op : Op}

def moved (s : System) : Op → Option Thread
  | .advance i _ => s.threads[i]?
  | _ => none

theorem does_turn (choice : Choice) (t : Thread) :
    Does s (some t) (s.turn limit choice t).effect (s.turn limit choice t).lock
      (s.turn limit choice t).next := by
  have hstay : ∀ {t : Thread} {next : List Thread}, t.key ≠ some .lock →
      (∀ u ∈ next, u.key = none) → Does s (some t) .nothing s.lock next :=
    fun ht hnext => .quiet trivial ht hnext
  cases t with
  | startLock h =>
    simp only [turn]
    split
    · exact hstay nofun nofun
    · next x hx =>
      split
      · exact hstay nofun (by simp [Thread.key])
      · next hlock =>
        split
        · next p hp => exact .find (.inl rfl) (by simpa using hlock) hx hp
        · exact hstay nofun (by simp [Thread.key])
  | startFound h p => exact .attach (.inl rfl) (by simp [turn, stay])
  | startSlot h | timerFound path p =>
    simp only [turn]
    split_ifs
    · exact hstay nofun (by simp [Thread.key])
    · exact hstay nofun nofun
  | startHeld h =>
    simp only [turn]
    split
    · exact hstay nofun nofun
    · next x hx =>
      split
      · exact hstay nofun (by simp [Thread.key])
      · next hlock =>
        have hfree : s.lock = false := by simpa using hlock
        split
        · next p hp => exact .find (.inl rfl) hfree hx hp
        · next hnone =>
          simp only [stay, hfree]
          exact .create hfree hx hnone nofun
  | readLock h =>
    simp only [turn]
    split
    · exact hstay nofun nofun
    · next x hx =>
      split
      · exact hstay nofun (by simp [Thread.key])
      · next hlock =>
        have hfree : s.lock = false := by simpa using hlock
        split
        · next p hp => exact .find (.inr rfl) hfree hx hp
        · next hnone =>
          split
          · simp only [stay, hfree]
            exact .create hfree hx hnone (by simp [Thread.key])
          · exact hstay nofun (by simp [Thread.key])
  | readFound h p => exact .attach (.inr rfl) (by simp [turn, Thread.key])
  | readWait h =>
    simp only [turn]
    split_ifs
    · exact hstay nofun nofun
    · exact hstay nofun (by simp [Thread.key])
    · exact hstay nofun (by simp [Thread.key])
  | tempSlot => exact hstay nofun nofun
  | releaseFound h p => exact .decrement rfl
  | pumpStart p =>
    simp only [turn]
    split
    · next ps hps =>
      split_ifs
      · exact .run rfl hps
      · exact hstay nofun nofun
    · exact hstay nofun nofun
  | pumpRunning p =>
    simp only [turn]
    split
    · next ps hps => exact .ending rfl hps
    · exact hstay nofun nofun
  | pumpEnding p registered => exact .ended rfl
  | timerExpired path p => exact .cancel rfl
  | stopFound path => exact .quiet trivial nofun nofun

theorem does_plan : Does s (s.moved op) (s.plan limit op).effect (s.plan limit op).lock
    (s.plan limit op).next := by
  have hstay : ∀ {next : List Thread}, (∀ u ∈ next, u.key = none) →
      Does s none .nothing s.lock next := fun hnext => .quiet trivial nofun hnext
  cases op with
  | openFile path hash | resolve h hash => exact .quiet trivial nofun nofun
  | start h healthy =>
    simp only [plan, startPump, moved]
    split
    · split_ifs
      · exact hstay nofun
      · exact .quiet trivial nofun nofun
      · exact .quiet trivial nofun (by simp [Thread.key])
    · exact hstay nofun
  | read h | prefetch | stop path =>
    simp only [plan, moved]
    split_ifs
    · exact hstay (by simp [Thread.key])
    · exact hstay nofun
  | release h =>
    simp only [plan, release, moved]
    split
    · next x hx =>
      split
      · next p hp =>
        split_ifs with hslot
        · exact .beginRelease hx hp hslot rfl
        · exact .returnEarly hx hp (by simpa using hslot) rfl
      · next hnone => exact .close hx hnone rfl
    · exact hstay nofun
  | timer path =>
    simp only [plan, moved]
    split_ifs
    · split
      · exact hstay (by simp [Thread.key])
      · exact hstay nofun
    · exact hstay nofun
  | advance i choice =>
    simp only [plan, moved]
    cases ht : s.threads[i]? with
    | none => exact hstay nofun
    | some t => exact does_turn choice t

end System

namespace Effect

def calls : Effect → Option ℕ
  | .beginRelease h _ => some h
  | .returnEarly h _ => some h
  | .close h => some h
  | _ => none

def phases : Effect → Option ℕ
  | .decrement h _ => some h
  | e => e.calls

def countsUp : Effect → Option ℕ
  | .attach h _ _ => some h
  | .create h _ => some h
  | _ => none

def counts : Effect → Option ℕ
  | .decrement h _ => some h
  | e => e.countsUp

theorem calls_or_decrement {e : Effect} {k : ℕ} (h : e.phases = some k) :
    e.calls = some k ∨ ∃ p, e = .decrement k p := by
  cases e with
  | decrement h' p =>
    obtain rfl := Option.some.inj h
    exact .inr ⟨p, rfl⟩
  | _ => exact .inl h

end Effect

structure Frame (e : Effect) (k : ℕ) (x y : Handle) : Prop where
  path : y.path = x.path
  phase : e.phases ≠ some k → y.phase = x.phase
  counted : e.counts ≠ some k → y.counted = x.counted
  unreleased : e.calls ≠ some k → y.phase ≠ .released → x.phase ≠ .released
  attached : e.countsUp ≠ some k → y.phase ≠ .released → y.attached = x.attached ∨
    x.phase = .opened ∧ ∃ p registered, e = .endPump p registered ∧ x.attached = some p

theorem Frame.refl (e : Effect) (k : ℕ) (x : Handle) : Frame e k x x :=
  ⟨rfl, fun _ => rfl, fun _ => rfl, fun _ h => h, fun _ _ => .inl rfl⟩

namespace Registry

variable {r : Registry} {k : ℕ} {x : Handle}

theorem frame_set {e : Effect} {h : ℕ} {x' y' : Handle} (hx : r.handles[k]? = some x)
    (hx' : r.handles[h]? = some x') (hframe : Frame e h x' y') :
    ∃ y, (r.handles.set h y')[k]? = some y ∧ Frame e k x y := by
  rw [getElem?_set_handles hx']
  rcases eq_or_ne k h with rfl | hk
  · obtain rfl := Option.some.inj (hx.symm.trans hx')
    exact ⟨y', if_pos rfl, hframe⟩
  · exact ⟨x, by rw [if_neg hk, hx], .refl e k x⟩

theorem frame_modify {e : Effect} {h : ℕ} {f : Handle → Handle} (hx : r.handles[k]? = some x)
    (hframe : ∀ x, Frame e h x (f x)) :
    ∃ y, (r.modify h f).handles[k]? = some y ∧ Frame e k x y := by
  refine ⟨_, getElem?_modify hx f, ?_⟩
  split_ifs with hk
  · rw [hk]
    exact hframe x
  · exact .refl e k x

theorem frame_apply (e : Effect) (hx : r.handles[k]? = some x) :
    ∃ y, (r.apply e).handles[k]? = some y ∧ Frame e k x y := by
  have hsaved : ∀ h p, (r.savePosition h p).handles[k]? = some x := fun h p => by
    rw [handles_savePosition]
    exact hx
  cases e with
  | nothing | remove path | cancel path p => exact ⟨x, hx, .refl _ k x⟩
  | openHandle path hash =>
    refine ⟨x, ?_, .refl _ k x⟩
    exact (List.getElem?_append_left (List.getElem?_eq_some_iff.mp hx).1).trans hx
  | once h | resolve h hash =>
    exact frame_modify hx fun x => ⟨rfl, fun _ => rfl, fun _ => rfl, fun _ h => h, fun _ _ => .inl rfl⟩
  | attach h p inherit =>
    simp only [apply, attach]
    split
    · next x' ps hx' _ =>
      exact frame_set hx hx'
        ⟨rfl, fun _ => rfl, fun h => absurd rfl h, fun _ h => h, fun h => absurd rfl h⟩
    · exact ⟨x, hx, .refl _ k x⟩
  | create h primary =>
    simp only [apply, create]
    split
    · next x' hx' =>
      exact frame_set hx hx'
        ⟨rfl, fun _ => rfl, fun h => absurd rfl h, fun _ h => h, fun h => absurd rfl h⟩
    · exact ⟨x, hx, .refl _ k x⟩
  | endPump p registered =>
    simp only [apply, endPump]
    split
    · next ps _ =>
      have hx' : (if registered then r.remove ps.path else r).handles[k]? = some x := by
        split_ifs <;> exact hx
      refine frame_modify hx' fun x => ⟨rfl, fun _ => rfl, fun _ => rfl, fun _ h => h, fun _ _ => ?_⟩
      dsimp only
      split_ifs with hcleared
      · exact .inr ⟨hcleared.1, p, registered, rfl, hcleared.2⟩
      · exact .inl rfl
    · exact ⟨x, hx, .refl _ k x⟩
  | beginRelease h p =>
    exact frame_modify (hsaved h p) fun x =>
      ⟨rfl, fun h => absurd rfl h, fun _ => rfl, fun h => absurd rfl h, fun _ _ => .inl rfl⟩
  | returnEarly h p =>
    exact frame_modify (hsaved h p) fun x =>
      ⟨rfl, fun h => absurd rfl h, fun _ => rfl, fun h => absurd rfl h, fun _ h => absurd rfl h⟩
  | close h =>
    exact frame_modify hx fun x =>
      ⟨rfl, fun h => absurd rfl h, fun _ => rfl, fun h => absurd rfl h, fun _ h => absurd rfl h⟩
  | decrement h p =>
    simp only [apply, decrement]
    split
    · next x' ps hx' _ =>
      exact frame_set hx hx'
        ⟨rfl, fun h => absurd rfl h, fun h => absurd rfl h, fun _ h => absurd rfl h,
          fun _ h => absurd rfl h⟩
    · exact ⟨x, hx, .refl _ k x⟩

structure PumpFrame (e : Effect) (p : ℕ) (ps ps' : NativePumpState) : Prop where
  path : ps'.path = ps.path
  creator : ps'.creator = ps.creator
  refCount : (∀ h inherit, e ≠ .attach h p inherit) → (∀ h, e ≠ .decrement h p) →
    ps'.refCount = ps.refCount

theorem PumpFrame.refl (e : Effect) (p : ℕ) (ps : NativePumpState) : PumpFrame e p ps ps :=
  ⟨rfl, rfl, fun _ _ => rfl⟩

theorem pumps_modify (r : Registry) (h : ℕ) (f : Handle → Handle) :
    (r.modify h f).pumps = r.pumps := by
  unfold modify
  split <;> rfl

theorem pumpFrame_apply (e : Effect) {p : ℕ} {ps : NativePumpState} (hps : r.pumps[p]? = some ps) :
    ∃ ps', (r.apply e).pumps[p]? = some ps' ∧ PumpFrame e p ps ps' := by
  have hset : ∀ {q : ℕ} {qs qs' : NativePumpState}, r.pumps[q]? = some qs →
      PumpFrame e q qs qs' → ∃ ps', (r.pumps.set q qs')[p]? = some ps' ∧ PumpFrame e p ps ps' := by
    intro q qs qs' hqs hframe
    rcases eq_or_ne p q with rfl | hpq
    · obtain rfl := Option.some.inj (hps.symm.trans hqs)
      exact ⟨qs', List.getElem?_set_self (List.getElem?_eq_some_iff.mp hps).1, hframe⟩
    · exact ⟨ps, by rw [List.getElem?_set_ne (Ne.symm hpq), hps], .refl e p ps⟩
  have hsaved : ∀ h q, ∃ ps', (r.savePosition h q).pumps[p]? = some ps' ∧ PumpFrame e p ps ps' := by
    intro h q
    unfold savePosition
    split
    · next x qs _ hqs =>
      split_ifs
      · exact hset hqs ⟨rfl, rfl, fun _ _ => rfl⟩
      · exact ⟨ps, hps, .refl e p ps⟩
    · exact ⟨ps, hps, .refl e p ps⟩
  cases e with
  | attach h q inherit =>
    simp only [apply, attach]
    split
    · next x qs _ hqs => exact hset hqs ⟨rfl, rfl, fun hne => absurd rfl (hne h inherit)⟩
    · exact ⟨ps, hps, .refl _ p ps⟩
  | create h primary =>
    simp only [apply, create]
    split
    · refine ⟨ps, ?_, .refl _ p ps⟩
      exact (List.getElem?_append_left (List.getElem?_eq_some_iff.mp hps).1).trans hps
    · exact ⟨ps, hps, .refl _ p ps⟩
  | decrement h q =>
    simp only [apply, decrement]
    split
    · next x qs _ hqs => exact hset hqs ⟨rfl, rfl, fun _ hne => absurd rfl (hne h)⟩
    · exact ⟨ps, hps, .refl _ p ps⟩
  | endPump q registered =>
    simp only [apply, endPump]
    split
    · rw [pumps_modify]
      exact ⟨ps, by split_ifs <;> exact hps, .refl _ p ps⟩
    · exact ⟨ps, hps, .refl _ p ps⟩
  | beginRelease h q => rw [apply, beginRelease, pumps_modify]; exact hsaved h q
  | returnEarly h q => rw [apply, returnEarly, pumps_modify]; exact hsaved h q
  | close h => rw [apply, close, pumps_modify]; exact ⟨ps, hps, .refl _ p ps⟩
  | once h => rw [apply, once, pumps_modify]; exact ⟨ps, hps, .refl _ p ps⟩
  | resolve h hash => rw [apply, resolve, pumps_modify]; exact ⟨ps, hps, .refl _ p ps⟩
  | _ => exact ⟨ps, hps, .refl _ p ps⟩

theorem length_pumps_apply (e : Effect) : r.pumps.length ≤ (r.apply e).pumps.length := by
  by_contra hlt
  have hp : (r.apply e).pumps.length < r.pumps.length := by omega
  obtain ⟨ps', hps', _⟩ := pumpFrame_apply e (List.getElem?_eq_getElem hp)
  exact absurd (List.getElem?_eq_some_iff.mp hps').1 (lt_irrefl _)

theorem activePumps_modify (r : Registry) (h : ℕ) (f : Handle → Handle) :
    (r.modify h f).activePumps = r.activePumps := by
  unfold modify
  split <;> rfl

theorem activePumps_savePosition (h p : ℕ) :
    (r.savePosition h p).activePumps = r.activePumps := by
  unfold savePosition
  split
  · split_ifs <;> rfl
  · rfl

theorem activePumps_remove (path q : Bytes) :
    (r.remove path).activePumps q = r.activePumps q ∨ (r.remove path).activePumps q = none := by
  rcases eq_or_ne q path with rfl | hq
  · exact .inr (Function.update_self _ _ _)
  · exact .inl (Function.update_of_ne hq _ _)

theorem activePumps_apply {e : Effect} (hne : ∀ h primary, e ≠ .create h primary) (path : Bytes) :
    (r.apply e).activePumps path = r.activePumps path ∨ (r.apply e).activePumps path = none := by
  cases e with
  | create h primary => exact absurd rfl (hne h primary)
  | attach h p inherit => simp only [apply, attach]; split <;> exact .inl rfl
  | decrement h p => simp only [apply, decrement]; split <;> exact .inl rfl
  | remove q | cancel q p => exact activePumps_remove q path
  | endPump p registered =>
    simp only [apply, endPump]
    split
    · next ps _ =>
      rw [activePumps_modify]
      split_ifs
      · exact activePumps_remove ps.path path
      · exact .inl rfl
    · exact .inl rfl
  | beginRelease h p =>
    rw [apply, beginRelease, activePumps_modify, activePumps_savePosition]
    exact .inl rfl
  | returnEarly h p =>
    rw [apply, returnEarly, activePumps_modify, activePumps_savePosition]
    exact .inl rfl
  | close h => rw [apply, close, activePumps_modify]; exact .inl rfl
  | once h => rw [apply, once, activePumps_modify]; exact .inl rfl
  | resolve h hash => rw [apply, resolve, activePumps_modify]; exact .inl rfl
  | _ => exact .inl rfl

end Registry

def ReleasesOpen (r : Registry) (e : Effect) : Prop :=
  ∀ h x, e.calls = some h → r.handles[h]? = some x → x.phase = .opened

namespace System

variable {limit : ℕ} {s : System} {op : Op}

structure Discipline (s : System) : Prop where
  exclusive : Exclusive Thread.key s.threads
  unlocked : s.lock = false → ∀ t ∈ s.threads, t.key ≠ some .lock
  pumps : ∀ t ∈ s.threads, ∀ p, t.key = some (.pump p) → p < s.registry.pumps.length
  releasing : ∀ t ∈ s.threads, ∀ h, t.key = some (.release h) →
    ∃ x, s.registry.handles[h]? = some x ∧ x.phase = .releasing

theorem discipline_start : Discipline start :=
  ⟨.nil, fun _ => nofun, nofun, nofun⟩

theorem mem_threads_of_mem_others {t : Thread} (ht : t ∈ s.others op) : t ∈ s.threads := by
  cases op with
  | advance i choice => exact List.mem_of_mem_eraseIdx ht
  | _ => exact ht

theorem Discipline.others (hd : Discipline s) : Exclusive Thread.key (s.others op) ∧
    ∀ k, (s.moved op).bind Thread.key = some k → ∀ u ∈ s.others op, u.key ≠ some k := by
  cases op with
  | advance i choice =>
    simp only [System.others, moved]
    cases ht : s.threads[i]? with
    | none =>
      refine ⟨hd.exclusive.sublist (List.eraseIdx_sublist _ _), ?_⟩
      intro k hk
      cases hk
    | some t => exact hd.exclusive.eraseIdx ht
  | _ =>
    refine ⟨hd.exclusive, ?_⟩
    intro k hk
    cases hk

theorem mem_threads_of_moved {t : Thread} (ht : s.moved op = some t) : t ∈ s.threads := by
  cases op with
  | advance i choice => exact List.mem_of_getElem? ht
  | _ => cases ht

theorem moved_of_decrement {h p : ℕ} {lock : Bool} {next : List Thread} {moved : Option Thread}
    (hdoes : Does s moved (.decrement h p) lock next) : moved = some (.releaseFound h p) := by
  cases hdoes with
  | quiet he => cases he
  | decrement hmoved => exact hmoved

theorem lock_of_create {h : ℕ} {primary lock : Bool} {next : List Thread} {moved : Option Thread}
    (hdoes : Does s moved (.create h primary) lock next) : s.lock = false := by
  cases hdoes with
  | quiet he => cases he
  | create hlock => exact hlock

theorem moved_of_endPump {p : ℕ} {registered lock : Bool} {next : List Thread}
    {moved : Option Thread} (hdoes : Does s moved (.endPump p registered) lock next) :
    moved = some (.pumpEnding p registered) := by
  cases hdoes with
  | quiet he => cases he
  | ended hmoved => exact hmoved

theorem Discipline.phases_ne (hd : Discipline s)
    (hopen : ReleasesOpen s.registry (s.plan limit op).effect) {u : Thread} {h : ℕ}
    (hu : u ∈ s.others op) (hkey : u.key = some (.release h)) :
    (s.plan limit op).effect.phases ≠ some h := by
  intro hphases
  obtain ⟨x, hx, hphase⟩ := hd.releasing u (mem_threads_of_mem_others hu) h hkey
  rcases Effect.calls_or_decrement hphases with hcalls | ⟨p, he⟩
  · rw [hopen h x hcalls hx] at hphase
    cases hphase
  · have hdoes := @does_plan limit s op
    rw [he] at hdoes
    exact hd.others.2 (.release h) (by rw [moved_of_decrement hdoes]; rfl) u hu hkey

inductive KeyFrom (s : System) (moved : Option Thread) (e : Effect) (lock : Bool) (t : Thread) :
    Key → Prop
  | locked (hfree : s.lock = false) (hlock : lock = true) : KeyFrom s moved e lock t .lock
  | release {h p : ℕ} {x : Handle} (ht : t = .releaseFound h p) (he : e = .beginRelease h p)
      (hx : s.registry.handles[h]? = some x) (hentry : s.registry.activePumps x.path = some p)
      (hslot : x.hasSlot = true) : KeyFrom s moved e lock t (.release h)
  | created {h : ℕ} {primary : Bool} {x : Handle} (ht : t = .pumpStart s.registry.pumps.length)
      (he : e = .create h primary) (hx : s.registry.handles[h]? = some x) :
      KeyFrom s moved e lock t (.pump s.registry.pumps.length)
  | kept {u : Thread} {p : ℕ} {ps : NativePumpState} (hmoved : moved = some u)
      (hu : u.key = some (.pump p)) (hps : s.registry.pumps[p]? = some ps)
      (ht : t = .pumpRunning p ∨
        t = .pumpEnding p (decide (s.registry.activePumps ps.path = some p))) :
      KeyFrom s moved e lock t (.pump p)

theorem keyFrom_of_does {moved : Option Thread} {e : Effect} {lock : Bool} {next : List Thread}
    (hdoes : Does s moved e lock next) {t : Thread} {k : Key} (ht : t ∈ next)
    (hk : t.key = some k) : KeyFrom s moved e lock t k := by
  have hnone : t.key ≠ none := by rw [hk]; nofun
  cases hdoes with
  | quiet _ _ hnext | attach _ hnext => exact absurd (hnext t ht) hnone
  | find hfound hlock =>
    rw [List.mem_singleton.mp ht] at hk
    rcases hfound with rfl | rfl <;> cases hk <;> exact .locked hlock rfl
  | create _ hx _ hnext =>
    rcases List.mem_cons.mp ht with rfl | ht
    · cases hk
      exact .created rfl rfl hx
    · exact absurd (hnext t ht) hnone
  | beginRelease hx hentry hslot =>
    obtain rfl := List.mem_singleton.mp ht
    cases hk
    exact .release rfl rfl hx hentry hslot
  | run hmoved hps =>
    obtain rfl := List.mem_singleton.mp ht
    cases hk
    exact .kept hmoved rfl hps (.inl rfl)
  | ending hmoved hps =>
    obtain rfl := List.mem_singleton.mp ht
    cases hk
    exact .kept hmoved rfl hps (.inr rfl)
  | _ => cases ht

theorem keyFrom_of_mem_next {t : Thread} {k : Key} (ht : t ∈ (s.plan limit op).next)
    (hk : t.key = some k) :
    KeyFrom s (s.moved op) (s.plan limit op).effect (s.plan limit op).lock t k :=
  keyFrom_of_does does_plan ht hk

theorem Discipline.free (hd : Discipline s)
    (hopen : ReleasesOpen s.registry (s.plan limit op).effect) :
    ∀ t ∈ (s.plan limit op).next, ∀ k, t.key = some k → ∀ u ∈ s.others op, u.key ≠ some k := by
  intro t ht k hk u hu hu'
  have hmem := mem_threads_of_mem_others hu
  cases keyFrom_of_mem_next ht hk with
  | locked hfree => exact hd.unlocked hfree u hmem hu'
  | release _ he =>
    obtain ⟨x, hx, hphase⟩ := hd.releasing u hmem _ hu'
    rw [hopen _ x (by rw [he]; rfl) hx] at hphase
    cases hphase
  | created => exact absurd (hd.pumps u hmem _ hu') (lt_irrefl _)
  | kept hmoved hkey => exact hd.others.2 _ (by rw [hmoved]; exact hkey) u hu hu'

theorem exclusive_next : Exclusive Thread.key (s.plan limit op).next := by
  have hdoes := @does_plan limit s op
  generalize (s.plan limit op).effect = e, (s.plan limit op).lock = lock,
    (s.plan limit op).next = next at *
  cases hdoes with
  | quiet _ _ hnext | attach _ hnext => exact .of_key_eq_none hnext
  | create _ _ _ hnext =>
    refine (Exclusive.singleton _).append (.of_key_eq_none hnext) fun t ht k hk => ?_
    rw [hnext t ht] at hk
    cases hk
  | find | beginRelease | run | ending => exact .singleton _
  | _ => exact .nil

theorem lock_of_does {moved : Option Thread} {e : Effect} {lock : Bool} {next : List Thread}
    (hdoes : Does s moved e lock next) (hlock : lock = false) :
    s.lock = false ∨ moved.bind Thread.key = some .lock := by
  cases hdoes with
  | find => cases hlock
  | attach hmoved => exact .inr (by rcases hmoved with h | h <;> rw [h] <;> rfl)
  | create hfree => exact .inl hfree
  | _ => exact .inl hlock

theorem Discipline.unlocked_step (hd : Discipline s) (hlock : (s.plan limit op).lock = false) :
    ∀ t ∈ s.others op ++ (s.plan limit op).next, t.key ≠ some .lock := by
  intro t ht hkey
  rcases List.mem_append.mp ht with ht | ht
  · rcases lock_of_does does_plan hlock with hfree | hmoved
    · exact hd.unlocked hfree t (mem_threads_of_mem_others ht) hkey
    · exact hd.others.2 .lock hmoved t ht hkey
  · cases keyFrom_of_mem_next ht hkey with
    | locked _ htaken =>
      rw [hlock] at htaken
      cases htaken

theorem pump_lt_of_mem_next
    (hpumps : ∀ t ∈ s.threads, ∀ p, t.key = some (.pump p) → p < s.registry.pumps.length) :
    ∀ t ∈ (s.plan limit op).next, ∀ p, t.key = some (.pump p) →
      p < (s.registry.apply (s.plan limit op).effect).pumps.length := by
  intro t ht p hp
  cases keyFrom_of_mem_next ht hp with
  | created _ he hx =>
    rw [he]
    simp [Registry.apply, Registry.create, hx]
  | kept hmoved hkey =>
    exact (hpumps _ (mem_threads_of_moved hmoved) p hkey).trans_le (Registry.length_pumps_apply _)

theorem effect_of_release_mem_next {t : Thread} {h : ℕ} (ht : t ∈ (s.plan limit op).next)
    (hkey : t.key = some (.release h)) : ∃ x p, s.registry.handles[h]? = some x ∧
      t = .releaseFound h p ∧ (s.plan limit op).effect = .beginRelease h p ∧
      s.registry.activePumps x.path = some p ∧ x.hasSlot = true := by
  cases keyFrom_of_mem_next ht hkey with
  | release ht he hx hentry hslot => exact ⟨_, _, hx, ht, he, hentry, hslot⟩

theorem discipline_step (hd : Discipline s)
    (hopen : ReleasesOpen s.registry (s.plan limit op).effect) : Discipline (s.step limit op) := by
  refine ⟨hd.others.1.append exclusive_next (hd.free hopen), hd.unlocked_step, ?_, ?_⟩
  · intro t ht p hp
    rcases List.mem_append.mp ht with ht | ht
    · exact (hd.pumps t (mem_threads_of_mem_others ht) p hp).trans_le
        (Registry.length_pumps_apply _)
    · exact pump_lt_of_mem_next hd.pumps t ht p hp
  · intro t ht h hkey
    rcases List.mem_append.mp ht with ht | ht
    · obtain ⟨x, hx, hphase⟩ := hd.releasing t (mem_threads_of_mem_others ht) h hkey
      obtain ⟨y, hy, hframe⟩ := Registry.frame_apply (s.plan limit op).effect hx
      exact ⟨y, hy, (hframe.phase (hd.phases_ne hopen ht hkey)).trans hphase⟩
    · obtain ⟨x, p, hx, _, heffect, _⟩ := effect_of_release_mem_next ht hkey
      refine ⟨{ x with phase := .releasing }, ?_, rfl⟩
      simp only [step, heffect]
      exact Registry.getElem?_beginRelease hx

end System

end GoStream.Handles
