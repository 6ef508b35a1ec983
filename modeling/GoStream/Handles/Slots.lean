import GoStream.Handles.RefCounts

/-!
# The slots of the pumps
-/

namespace GoStream.Handles

open Foundations

namespace Thread

def isPump : Thread → Bool
  | .pumpStart _ | .pumpRunning _ | .pumpEnding _ _ => true
  | _ => false

def isTemporary : Thread → Bool
  | .tempSlot => true
  | _ => false

def isStarting : Thread → Bool
  | .startHeld _ => true
  | _ => false

def hasToken (t : Thread) : Bool := t.isPump || t.isTemporary || t.isStarting

def starts : Thread → Option ℕ
  | .startLock h | .startSlot h | .startHeld h => some h
  | _ => none

end Thread

def KeepsSlot (r : Registry) : Thread → Prop
  | .pumpStart p => ∀ ps ∈ r.pumps[p]?, r.handles[ps.creator]?.map (·.hasReader) = some true
  | .pumpEnding p _ => ∀ ps ∈ r.pumps[p]?, r.handles[ps.creator]?.map (·.hasSlot) = some true
  | _ => True

namespace System

variable (s : System)

def pumpGoroutines : ℕ := s.threads.countP Thread.isPump

def temporaries : ℕ := s.threads.countP Thread.isTemporary

def starting : ℕ := s.threads.countP Thread.isStarting

structure SlotsConserved : Prop where
  slots : s.slots = s.pumpGoroutines + s.temporaries + s.starting
  entries : ∀ path p, s.registry.activePumps path = some p →
    ∃ t ∈ s.threads, t.key = some (.pump p)

def KeepsSlots (s : System) : Op → Prop
  | .advance i _ => ∀ t ∈ s.threads[i]?, KeepsSlot s.registry t
  | _ => True

structure Rooted : Prop where
  handles : ∀ t ∈ s.threads, ∀ h, t.starts = some h → h < s.registry.handles.length
  pumps : ∀ t ∈ s.threads, ∀ p, t.key = some (.pump p) → p < s.registry.pumps.length
  paths : ∀ path p, s.registry.activePumps path = some p → s.registry.pathOf p = some path
  ended : ∀ p, Thread.pumpEnding p false ∈ s.threads → ∀ path, s.registry.activePumps path ≠ some p

variable {s} {limit : ℕ} {op : Op}

theorem countP_hasToken (threads : List Thread) : threads.countP Thread.hasToken =
    threads.countP Thread.isPump + threads.countP Thread.isTemporary +
      threads.countP Thread.isStarting := by
  induction threads with
  | nil => rfl
  | cons t threads ih =>
    rw [List.countP_cons, List.countP_cons, List.countP_cons, List.countP_cons, ih]
    cases t <;> simp [Thread.hasToken, Thread.isPump, Thread.isTemporary, Thread.isStarting] <;>
      omega

theorem slots_eq_iff : s.slots = s.pumpGoroutines + s.temporaries + s.starting ↔
    s.slots = s.threads.countP Thread.hasToken := by
  rw [countP_hasToken]
  rfl

theorem countP_others (p : Thread → Bool) : (s.others op).countP p +
    ((s.moved op).elim 0 fun t => (p t).toNat) = s.threads.countP p := by
  cases op with
  | advance i choice =>
    rw [others, moved]
    cases ht : s.threads[i]? with
    | none =>
      rw [List.eraseIdx_of_length_le (List.getElem?_eq_none_iff.mp ht)]
      rfl
    | some t =>
      have hcount := countP_eraseIdx_add (p := p) ht
      rw [ite_eq_toNat] at hcount
      exact hcount
  | _ => rfl

theorem mem_others_or_moved {t : Thread} (ht : t ∈ s.threads) :
    t ∈ s.others op ∨ s.moved op = some t := by
  cases op with
  | advance i choice =>
    rw [others, moved]
    cases hi : s.threads[i]? with
    | none =>
      rw [List.eraseIdx_of_length_le (List.getElem?_eq_none_iff.mp hi)]
      exact .inl ht
    | some u =>
      by_cases hut : t = u
      · exact .inr (by rw [hut])
      · exact .inl (mem_eraseIdx_of_ne hi ht hut)
  | _ => exact .inl ht

def Even (s : System) (moved : Option Thread) (t : Turn) : Prop :=
  t.slots + (moved.elim 0 fun u => u.hasToken.toNat) = s.slots + t.next.countP Thread.hasToken

theorem even_stay {t : Thread} (ht : t.hasToken = false) : Even s (some t) s.stay := by
  simp [Even, stay, ht]

theorem even_pumpStart_iff {p : ℕ} {ps : NativePumpState} (hps : s.registry.pumps[p]? = some ps)
    (choice : Choice) : Even s (some (.pumpStart p)) (s.turn limit choice (.pumpStart p)) ↔
      s.registry.handles[ps.creator]?.map (·.hasReader) = some true := by
  rw [turn, hps]
  dsimp only
  split_ifs with hreader
  · exact iff_of_true rfl hreader
  · refine iff_of_false ?_ hreader
    simp [Even, stay, Thread.hasToken, Thread.isPump]

theorem even_pumpEnding_iff {p : ℕ} {ps : NativePumpState} (hps : s.registry.pumps[p]? = some ps)
    (hpos : 1 ≤ s.slots) (registered : Bool) (choice : Choice) :
    Even s (some (.pumpEnding p registered)) (s.turn limit choice (.pumpEnding p registered)) ↔
      s.registry.handles[ps.creator]?.map (·.hasSlot) = some true := by
  rw [turn, hps, Option.bind_some]
  split_ifs with hslot
  · refine iff_of_true ?_ hslot
    simp only [Even, stay, Option.elim_some, Thread.hasToken, Thread.isPump, List.countP_nil,
      Bool.true_or, Bool.toNat_true]
    omega
  · refine iff_of_false ?_ hslot
    simp [Even, stay, Thread.hasToken, Thread.isPump]

theorem even_turn (hs : Rooted s) {t : Thread} (ht : t ∈ s.threads)
    (hpos : t.hasToken = true → 1 ≤ s.slots) (hstart : ∀ p, t ≠ .pumpStart p)
    (hend : ∀ p registered, t ≠ .pumpEnding p registered) (choice : Choice) :
    Even s (some t) (s.turn limit choice t) := by
  cases t with
  | pumpStart p => exact absurd rfl (hstart p)
  | pumpEnding p registered => exact absurd rfl (hend p registered)
  | pumpRunning p =>
    have hps := List.getElem?_eq_getElem (hs.pumps _ ht p rfl)
    rw [turn, hps]
    rfl
  | startHeld h =>
    have hx := List.getElem?_eq_getElem (hs.handles _ ht h rfl)
    have hslots := hpos rfl
    rw [turn, hx]
    dsimp only
    split
    · rfl
    · split
      · simp only [Even, Option.elim_some]
        have hheld : (Thread.startHeld h).hasToken.toNat = 1 := rfl
        rw [hheld]
        simp [Thread.hasToken, Thread.isPump, Thread.isTemporary, Thread.isStarting]
        omega
      · rfl
  | tempSlot =>
    have hslots := hpos rfl
    have htemp : Thread.tempSlot.hasToken.toNat = 1 := rfl
    rw [turn, Even, Option.elim_some, htemp]
    simp only [stay, List.countP_nil]
    omega
  | startLock h | startSlot h | readLock h | readWait h | timerFound path p =>
    simp only [turn]
    repeat' split
    all_goals first | exact even_stay rfl | rfl
  | startFound h p | readFound h p | releaseFound h p | timerExpired path p | stopFound path => rfl

theorem slots_pos (hslots : s.slots = s.threads.countP Thread.hasToken) {t : Thread}
    (ht : t ∈ s.threads) (htoken : t.hasToken = true) : 1 ≤ s.slots := by
  rw [hslots]
  exact List.countP_pos_iff.mpr ⟨t, ht, htoken⟩

theorem even_advance_iff (hs : Rooted s) (hslots : s.slots = s.threads.countP Thread.hasToken)
    {t : Thread} (ht : t ∈ s.threads) (choice : Choice) :
    Even s (some t) (s.turn limit choice t) ↔ KeepsSlot s.registry t := by
  cases t with
  | pumpStart p =>
    have hps := List.getElem?_eq_getElem (hs.pumps _ ht p rfl)
    rw [even_pumpStart_iff hps, KeepsSlot, hps]
    simp
  | pumpEnding p registered =>
    have hps := List.getElem?_eq_getElem (hs.pumps _ ht p rfl)
    rw [even_pumpEnding_iff hps (slots_pos hslots ht rfl), KeepsSlot, hps]
    simp
  | _ =>
    refine iff_of_true (even_turn hs ht (slots_pos hslots ht) ?_ ?_ choice) trivial
    · exact fun p h => by cases h
    · exact fun p registered h => by cases h

theorem even_plan_iff (hs : Rooted s) (hslots : s.slots = s.threads.countP Thread.hasToken) :
    Even s (s.moved op) (s.plan limit op) ↔ s.KeepsSlots op := by
  cases op with
  | advance i choice =>
    rw [moved, plan, KeepsSlots]
    cases ht : s.threads[i]? with
    | none => exact iff_of_true rfl (by simp)
    | some t =>
      have hone : (∀ u ∈ some t, KeepsSlot s.registry u) ↔ KeepsSlot s.registry t := by simp
      rw [hone]
      exact even_advance_iff hs hslots (List.mem_of_getElem? ht) choice
  | openFile path hash | resolve h hash => exact iff_of_true rfl trivial
  | start h healthy =>
    refine iff_of_true ?_ trivial
    simp only [plan, startPump]
    repeat' split
    all_goals rfl
  | release h =>
    refine iff_of_true ?_ trivial
    simp only [plan, release]
    repeat' split
    all_goals rfl
  | read h | prefetch | timer path | stop path =>
    refine iff_of_true ?_ trivial
    simp only [plan]
    repeat' split
    all_goals rfl

theorem slots_step_iff (hs : Rooted s) (hslots : s.slots = s.threads.countP Thread.hasToken) :
    (s.step limit op).slots = (s.step limit op).threads.countP Thread.hasToken ↔
      s.KeepsSlots op := by
  have hothers := @countP_others s op Thread.hasToken
  rw [← @even_plan_iff s limit op hs hslots, Even]
  have hstep : (s.step limit op).slots = (s.plan limit op).slots := rfl
  have hthreads : (s.step limit op).threads = s.others op ++ (s.plan limit op).next := rfl
  rw [hstep, hthreads, List.countP_append]
  omega

theorem length_handles_apply (r : Registry) (e : Effect) :
    r.handles.length ≤ (r.apply e).handles.length := by
  by_contra hlt
  have hh : (r.apply e).handles.length < r.handles.length := by omega
  obtain ⟨y, hy, -⟩ := Registry.frame_apply e (List.getElem?_eq_getElem hh)
  exact absurd (List.getElem?_eq_some_iff.mp hy).1 (lt_irrefl _)

theorem starts_next (hs : Rooted s) : ∀ t ∈ (s.plan limit op).next, ∀ h, t.starts = some h →
    h < s.registry.handles.length := by
  have hnone : ∀ {next : List Thread}, (∀ t ∈ next, t.starts = none) → ∀ t ∈ next, ∀ h,
      t.starts = some h → h < s.registry.handles.length := by
    intro next hnext t ht h hh
    cases (hnext t ht).symm.trans hh
  have hone : ∀ {k : ℕ} {u : Thread}, k < s.registry.handles.length → u.starts = some k →
      ∀ t ∈ [u], ∀ h, t.starts = some h → h < s.registry.handles.length := by
    intro k u hk hu t ht h hh
    rw [List.mem_singleton.mp ht, hu] at hh
    rw [← Option.some.inj hh]
    exact hk
  cases op with
  | start h healthy =>
    simp only [plan, startPump]
    split
    · next x hx =>
      have hlt := (List.getElem?_eq_some_iff.mp hx).1
      split_ifs
      · exact hnone (by simp [stay])
      · exact hnone (by simp [stay])
      · exact hone hlt rfl
    · exact hnone (by simp [stay])
  | advance i choice =>
    rw [plan]
    cases ht : s.threads[i]? with
    | none => exact hnone (by simp [stay])
    | some t =>
      have hlt := hs.handles t (List.mem_of_getElem? ht)
      cases t with
      | startLock h | startSlot h | startHeld h =>
        simp only [turn]
        repeat' split
        all_goals first | exact hone (hlt h rfl) rfl | exact hnone (by simp [stay, Thread.starts])
      | _ =>
        simp only [turn]
        repeat' split
        all_goals exact hnone (by simp [stay, Thread.starts])
  | release h =>
    simp only [plan, release]
    repeat' split
    all_goals exact hnone (by simp [stay, Thread.starts])
  | _ =>
    simp only [plan]
    repeat' split
    all_goals exact hnone (by simp [stay, Thread.starts])

theorem pathOf_of_entry_apply {r : Registry}
    (hr : ∀ path p, r.activePumps path = some p → r.pathOf p = some path) (e : Effect)
    {path : Bytes} {p : ℕ} (hentry : (r.apply e).activePumps path = some p) :
    (r.apply e).pathOf p = some path := by
  have hold : r.activePumps path = some p → (r.apply e).pathOf p = some path :=
    fun h => Registry.pathOf_apply e (hr path p h)
  by_cases hcreate : ∃ h primary, e = .create h primary
  · obtain ⟨h, primary, rfl⟩ := hcreate
    cases hx : r.handles[h]? with
    | none =>
      have hsame : r.apply (.create h primary) = r := by simp [Registry.apply, Registry.create, hx]
      rw [hsame] at hentry
      exact hold hentry
    | some x =>
      by_cases hpath : path = x.path
      · have hp : p = r.pumps.length := by
          simpa [Registry.apply, Registry.create, hx, hpath, eq_comm] using hentry
        simp [Registry.apply, Registry.create, hx, Registry.pathOf, hp, hpath]
      · apply hold
        simpa [Registry.apply, Registry.create, hx, hpath] using hentry
  · have hne : ∀ h primary, e ≠ .create h primary := fun h primary he => hcreate ⟨h, primary, he⟩
    rcases Registry.activePumps_apply hne path with hsame | hnone
    · exact hold (hsame.symm.trans hentry)
    · cases hnone.symm.trans hentry

theorem ended_next (hs : Rooted s) {p : ℕ} (hp : Thread.pumpEnding p false ∈ (s.plan limit op).next)
    (path : Bytes) :
    (s.registry.apply (s.plan limit op).effect).activePumps path ≠ some p := by
  cases keyFrom_of_mem_next hp rfl with
  | created ht => cases ht
  | @kept _ _ ps _ _ hps ht =>
    rcases ht with ht | ht
    · cases ht
    · have hreg := (Thread.pumpEnding.inj ht).2
      refine gone_apply (List.getElem?_eq_some_iff.mp hps).1 (fun q hentry => ?_) path
      have hpath : s.registry.pathOf p = some ps.path := by simp [Registry.pathOf, hps]
      obtain rfl := Option.some.inj (hpath.symm.trans (hs.paths q p hentry))
      exact of_decide_eq_false hreg.symm hentry

theorem Rooted.step (hs : Rooted s) : Rooted (s.step limit op) where
  handles := by
    intro t ht h hh
    apply lt_of_lt_of_le _ (length_handles_apply s.registry (s.plan limit op).effect)
    rcases List.mem_append.mp ht with ht | ht
    · exact hs.handles t (mem_threads_of_mem_others ht) h hh
    · exact starts_next hs t ht h hh
  pumps := by
    intro t ht p hp
    rcases List.mem_append.mp ht with ht | ht
    · exact (hs.pumps t (mem_threads_of_mem_others ht) p hp).trans_le
        (Registry.length_pumps_apply _)
    · exact pump_lt_of_mem_next hs.pumps t ht p hp
  paths := fun path p => pathOf_of_entry_apply hs.paths (s.plan limit op).effect
  ended := by
    intro p hp path
    rcases List.mem_append.mp hp with hp | hp
    · have hmem := mem_threads_of_mem_others hp
      exact gone_apply (hs.pumps _ hmem p rfl) (hs.ended p hmem) path
    · exact ended_next hs hp path

theorem activePumps_endPump (hs : Rooted s) {p : ℕ} {registered : Bool}
    (ht : Thread.pumpEnding p registered ∈ s.threads) (path : Bytes) :
    (s.registry.endPump p registered).activePumps path ≠ some p := by
  obtain ⟨ps, hps⟩ : ∃ ps, s.registry.pumps[p]? = some ps :=
    ⟨_, List.getElem?_eq_getElem (hs.pumps _ ht p rfl)⟩
  unfold Registry.endPump
  rw [hps]
  dsimp only
  rw [Registry.activePumps_modify]
  cases registered with
  | false => exact hs.ended p ht path
  | true =>
    have hremoved : (s.registry.remove ps.path).activePumps =
        Function.update s.registry.activePumps ps.path none := rfl
    rw [if_pos rfl, hremoved]
    intro hentry
    by_cases hpath : path = ps.path
    · rw [hpath, Function.update_self] at hentry
      cases hentry
    · rw [Function.update_of_ne hpath] at hentry
      have hown : s.registry.pathOf p = some ps.path := by
        rw [Registry.pathOf, hps, Option.map_some]
      exact hpath (Option.some.inj ((hs.paths path p hentry).symm.trans hown))

theorem live_turn (hs : Rooted s) {t : Thread} (ht : t ∈ s.threads) {p : ℕ}
    (hkey : t.key = some (.pump p)) (hok : KeepsSlot s.registry t) (choice : Choice) {path : Bytes}
    (hentry : (s.registry.apply (s.turn limit choice t).effect).activePumps path = some p) :
    ∃ u ∈ (s.turn limit choice t).next, u.key = some (.pump p) := by
  have hps := List.getElem?_eq_getElem (hs.pumps _ ht p hkey)
  cases t with
  | pumpStart q =>
    obtain rfl := Key.pump.inj (Option.some.inj hkey)
    rw [turn, hps]
    dsimp only
    rw [if_pos (hok _ hps)]
    exact ⟨.pumpRunning q, List.mem_singleton_self _, rfl⟩
  | pumpRunning q =>
    obtain rfl := Key.pump.inj (Option.some.inj hkey)
    rw [turn, hps]
    exact ⟨_, List.mem_singleton_self _, rfl⟩
  | pumpEnding q registered =>
    obtain rfl := Key.pump.inj (Option.some.inj hkey)
    exact absurd hentry (activePumps_endPump hs ht path)
  | _ => cases hkey

theorem entry_new {path : Bytes} {p : ℕ}
    (hentry : (s.registry.apply (s.plan limit op).effect).activePumps path = some p)
    (hnew : s.registry.activePumps path ≠ some p) :
    ∃ u ∈ (s.plan limit op).next, u.key = some (.pump p) := by
  have hdoes := @does_plan limit s op
  generalize (s.plan limit op).effect = e, (s.plan limit op).lock = lock,
    (s.plan limit op).next = next at *
  have hold : (∀ h primary, e ≠ .create h primary) → False := by
    intro hne
    rcases Registry.activePumps_apply hne path with hsame | hnone
    · exact hnew (hsame.symm.trans hentry)
    · cases hnone.symm.trans hentry
  cases hdoes with
  | @create h x primary next hlock hx _ _ =>
    refine ⟨.pumpStart s.registry.pumps.length, List.mem_cons_self, ?_⟩
    by_cases hpath : path = x.path
    · have hp : p = s.registry.pumps.length := by
        simpa [Registry.apply, Registry.create, hx, hpath, eq_comm] using hentry
      rw [hp]
      rfl
    · refine absurd ?_ hnew
      simpa [Registry.apply, Registry.create, hx, hpath] using hentry
  | quiet he => exact (hold fun h primary heq => by rw [heq] at he; cases he).elim
  | _ => exact (hold fun h primary heq => by cases heq).elim

theorem entries_step (hs : Rooted s)
    (hentries : ∀ path p, s.registry.activePumps path = some p →
      ∃ t ∈ s.threads, t.key = some (.pump p))
    (hok : s.KeepsSlots op) {path : Bytes} {p : ℕ}
    (hentry : (s.step limit op).registry.activePumps path = some p) :
    ∃ t ∈ (s.step limit op).threads, t.key = some (.pump p) := by
  have hnext : (∃ u ∈ (s.plan limit op).next, u.key = some (.pump p)) →
      ∃ t ∈ (s.step limit op).threads, t.key = some (.pump p) :=
    fun ⟨u, hu, hkey⟩ => ⟨u, List.mem_append_right _ hu, hkey⟩
  by_cases hold : s.registry.activePumps path = some p
  · obtain ⟨t, ht, hkey⟩ := hentries path p hold
    rcases @mem_others_or_moved s op t ht with hother | hmoved
    · exact ⟨t, List.mem_append_left _ hother, hkey⟩
    · cases op with
      | advance i choice =>
        have hplan : s.plan limit (.advance i choice) = s.turn limit choice t := by
          rw [plan, show s.threads[i]? = some t from hmoved]
        apply hnext
        rw [step, hplan] at hentry
        rw [hplan]
        exact live_turn hs ht hkey (hok t hmoved) choice hentry
      | _ => cases hmoved
  · exact hnext (entry_new hentry hold)

theorem rooted_start : Rooted start :=
  ⟨by simp [start], by simp [start], fun path p h => absurd h (by simp [start, Registry.empty]),
    by simp [start]⟩

theorem slotsConserved_start : SlotsConserved start :=
  ⟨rfl, fun path p h => absurd h (by simp [start, Registry.empty])⟩

/-- When every slot taken has its owner. -/
theorem slotsConserved_iff (limit : ℕ) (ops : List Op) :
    (∀ pre, pre <+: ops → SlotsConserved (run (step limit) start pre)) ↔
      Meets KeepsSlots (step limit) start ops := by
  have hkeep : ∀ (s : System) op, Rooted s ∧ SlotsConserved s → s.KeepsSlots op →
      Rooted (s.step limit op) ∧ SlotsConserved (s.step limit op) := by
    intro s op ⟨hroot, hs⟩ hok
    refine ⟨hroot.step, ?_, fun path p => entries_step hroot hs.entries hok⟩
    exact slots_eq_iff.mpr ((slots_step_iff hroot (slots_eq_iff.mp hs.slots)).mpr hok)
  constructor
  · refine meets_of_good hkeep ?_ ops ⟨rooted_start, slotsConserved_start⟩
      fun _ _ => (trivial : True)
    intro s op ⟨hroot, hs⟩ _ hbad hgood
    exact hbad ((slots_step_iff hroot (slots_eq_iff.mp hs.slots)).mp (slots_eq_iff.mp hgood.slots))
  · exact Meets.good hkeep (fun _ hs => hs.2) ops ⟨rooted_start, slotsConserved_start⟩

def releasedFirst : List Op :=
  [.openFile [97] [98], .start 0 true, .advance 0 plain, .advance 0 plain, .advance 0 plain,
    .release 0, .advance 1 { plain with healthy := true }, .advance 0 plain]

def upgradedTwice : List Op :=
  [.openFile [97] [98], .start 0 true, .advance 0 plain, .advance 0 plain,
    .read 0, .advance 1 { plain with upgrade := true }, .advance 2 plain, .advance 1 plain,
    .stop [97], .advance 2 plain, .advance 0 plain, .advance 1 plain,
    .advance 0 plain, .advance 1 plain, .advance 0 plain, .advance 0 plain]

theorem slot_leaked :
    ((run (step 1) start releasedFirst).threads = [] ∧
      (run (step 1) start releasedFirst).slots = 1 ∧
      (run (step 1) start releasedFirst).registry.activePumps [97] = some 0) ∧
    (run (step 2) start upgradedTwice).threads = [] ∧
      (run (step 2) start upgradedTwice).slots = 1 := by
  decide +kernel

end System

end GoStream.Handles
