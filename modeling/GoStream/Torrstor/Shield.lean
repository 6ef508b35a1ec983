import GoStream.Foundations.Run
import GoStream.Foundations.Threads

/-!
# The adaptive shield
-/

namespace GoStream.Torrstor

open Foundations

structure ShieldVars where
  shieldActive : Bool
  isWatchdogRunning : Bool
  staticCorruptionCount : Int32
  strictCycleCount : Int32
  lastCorruptionUnix : ℤ

inductive Actor where
  | markTest
  | markCount
  | markCycle
  | markShield
  | markLoad
  | markSwap
  | watchSleep
  | watchElapsed (last : ℤ)
  | watchDecide (elapsed : ℤ)
  | watchShield
  | watchCount
  | watchRunning
  | resetShield
  | resetRunning
  | resetCount
  | resetCycle
  deriving DecidableEq, Repr

namespace Actor

def isCall : Actor → Bool
  | markTest | markCount | markCycle | markShield | markLoad | markSwap => true
  | _ => false

def isWatchdog : Actor → Bool
  | watchSleep | watchElapsed _ | watchDecide _ | watchShield | watchCount | watchRunning => true
  | _ => false

end Actor

def cleanNeeded (cycle : Int32) : ℤ :=
  let seconds := (30 * cycle).toInt
  let seconds := if seconds < 30 then 30 else seconds
  (if seconds > 120 then 120 else seconds) * 1000000000

def Actor.turn (adaptive responsive : Bool) (now : ℤ) (v : ShieldVars) :
    Actor → ShieldVars × Option Actor × Option Actor
  | .markTest =>
    (v, some (if adaptive && responsive && !v.shieldActive then .markCount else .markLoad), none)
  | .markCount =>
    let count := v.staticCorruptionCount + 1
    ({ v with staticCorruptionCount := count },
      some (if count > 1 then .markCycle else .markLoad), none)
  | .markCycle => ({ v with strictCycleCount := v.strictCycleCount + 1 }, some .markShield, none)
  | .markShield => ({ v with shieldActive := true }, some .markLoad, none)
  | .markLoad => (v, if v.staticCorruptionCount ≥ 1 then some .markSwap else none, none)
  | .markSwap =>
    ({ v with isWatchdogRunning := true }, none,
      if v.isWatchdogRunning then none else some .watchSleep)
  | .watchSleep => (v, some (.watchElapsed v.lastCorruptionUnix), none)
  | .watchElapsed last => (v, some (.watchDecide (now - last * 1000000000)), none)
  | .watchDecide elapsed =>
    (v, some (if elapsed > cleanNeeded v.strictCycleCount then .watchShield else .watchSleep), none)
  | .watchShield => ({ v with shieldActive := false }, some .watchCount, none)
  | .watchCount => ({ v with staticCorruptionCount := 0 }, some .watchRunning, none)
  | .watchRunning => ({ v with isWatchdogRunning := false }, none, none)
  | .resetShield => ({ v with shieldActive := false }, some .resetRunning, none)
  | .resetRunning => ({ v with isWatchdogRunning := false }, some .resetCount, none)
  | .resetCount => ({ v with staticCorruptionCount := 0 }, some .resetCycle, none)
  | .resetCycle => ({ v with strictCycleCount := 0 }, none, none)

structure Shield where
  vars : ShieldVars
  actors : List Actor
  now : ℤ

inductive Shield.Op where
  | tick (nanoseconds : ℕ)
  | markNotComplete
  | resetShield
  | advance (k : ℕ) (adaptive responsive : Bool)

namespace Shield

def start (now : ℤ) : Shield := ⟨⟨false, false, 0, 0, 0⟩, [], now⟩

variable (s : Shield)

def goOn (k : ℕ) : Option Actor → List Actor
  | some a => s.actors.set k a
  | none => s.actors.eraseIdx k

def advance (k : ℕ) (adaptive responsive : Bool) : Shield :=
  match s.actors[k]? with
  | none => s
  | some a =>
    let out := a.turn adaptive responsive s.now s.vars
    { s with vars := out.1, actors := s.goOn k out.2.1 ++ out.2.2.toList }

def step (s : Shield) : Op → Shield
  | .tick nanoseconds => { s with now := s.now + nanoseconds }
  | .markNotComplete =>
    { s with
      vars := { s.vars with lastCorruptionUnix := s.now / 1000000000 }
      actors := s.actors ++ [.markTest] }
  | .resetShield => { s with actors := s.actors ++ [.resetShield] }
  | .advance k adaptive responsive => s.advance k adaptive responsive

def calls : ℕ := s.actors.countP Actor.isCall

def watchdogs : ℕ := s.actors.countP Actor.isWatchdog

structure Guarded (s : Shield) : Prop where
  one : s.watchdogs ≤ 1
  alive : s.calls = 0 →
    s.vars.shieldActive = true ∨ s.vars.staticCorruptionCount > 0 → 1 ≤ s.watchdogs

def TimelyFor : Actor → Prop
  | .markSwap => s.vars.isWatchdogRunning = true ∨ s.watchdogs = 0
  | .markLoad =>
    s.vars.staticCorruptionCount ≥ 1 ∨ s.vars.shieldActive = false ∨ 1 ≤ s.watchdogs ∨ 2 ≤ s.calls
  | .watchRunning =>
    1 ≤ s.calls ∨ s.vars.shieldActive = false ∧ ¬ s.vars.staticCorruptionCount > 0
  | _ => True

def Timely (s : Shield) : Op → Prop
  | .advance k _ _ => ∀ a ∈ s.actors[k]?, s.TimelyFor a
  | _ => True

variable {s}

theorem countP_goOn_add {p : Actor → Bool} {k : ℕ} {a : Actor} (ha : s.actors[k]? = some a)
    (next : Option Actor) :
    (s.goOn k next).countP p + (if p a then 1 else 0) =
      s.actors.countP p + next.toList.countP p := by
  cases next with
  | none => exact countP_eraseIdx_add ha
  | some b =>
    rw [Option.toList_some, List.countP_singleton]
    exact countP_set_add b ha

theorem counts_advance {k : ℕ} {a : Actor} (ha : s.actors[k]? = some a)
    (adaptive responsive : Bool) (p : Actor → Bool) :
    (s.advance k adaptive responsive).actors.countP p + (if p a then 1 else 0) =
      s.actors.countP p + (a.turn adaptive responsive s.now s.vars).2.1.toList.countP p +
        (a.turn adaptive responsive s.now s.vars).2.2.toList.countP p := by
  have hgo := countP_goOn_add (p := p) ha (a.turn adaptive responsive s.now s.vars).2.1
  simp only [advance, ha, List.countP_append]
  omega

def Flagged (s : Shield) : Prop := s.vars.isWatchdogRunning = true → 1 ≤ s.watchdogs

theorem vars_advance {k : ℕ} {a : Actor} (ha : s.actors[k]? = some a)
    (adaptive responsive : Bool) :
    (s.advance k adaptive responsive).vars = (a.turn adaptive responsive s.now s.vars).1 := by
  simp only [advance, ha]

structure Stays (s s' : Shield) : Prop where
  calls : s'.calls = s.calls
  watchdogs : s'.watchdogs = s.watchdogs

theorem Stays.guarded_of_call {s' : Shield} (h : Stays s s') (hg : Guarded s)
    (hcall : 1 ≤ s.calls) : Guarded s' := by
  refine ⟨?_, fun hnone => ?_⟩
  · rw [h.watchdogs]
    exact hg.one
  · rw [h.calls] at hnone
    omega

theorem Stays.guarded_of_watchdog {s' : Shield} (h : Stays s s') (hg : Guarded s)
    (hdog : 1 ≤ s.watchdogs) : Guarded s' := by
  refine ⟨?_, fun _ _ => ?_⟩
  · rw [h.watchdogs]
    exact hg.one
  · rw [h.watchdogs]
    exact hdog

theorem Stays.guarded_of_cleared {s' : Shield} (h : Stays s s') (hg : Guarded s)
    (hshield : s'.vars.shieldActive = true → s.vars.shieldActive = true)
    (hcount : s'.vars.staticCorruptionCount > 0 → s.vars.staticCorruptionCount > 0) :
    Guarded s' := by
  refine ⟨?_, fun hnone hset => ?_⟩
  · rw [h.watchdogs]
    exact hg.one
  · rw [h.watchdogs]
    exact hg.alive (h.calls ▸ hnone) (hset.imp hshield hcount)

theorem stays_advance {k : ℕ} {a b : Actor} (ha : s.actors[k]? = some a)
    {adaptive responsive : Bool} {v : ShieldVars}
    (hturn : a.turn adaptive responsive s.now s.vars = (v, some b, none))
    (hcall : b.isCall = a.isCall) (hdog : b.isWatchdog = a.isWatchdog) :
    Stays s (s.advance k adaptive responsive) := by
  have hc := counts_advance ha adaptive responsive Actor.isCall
  have hw := counts_advance ha adaptive responsive Actor.isWatchdog
  rw [hturn] at hc hw
  simp only [Option.toList_some, Option.toList_none, List.countP_singleton, List.countP_nil, hcall,
    hdog, add_zero] at hc hw
  exact ⟨Nat.add_right_cancel hc, Nat.add_right_cancel hw⟩

theorem one_le_calls {k : ℕ} {a : Actor} (ha : s.actors[k]? = some a) (h : a.isCall = true) :
    1 ≤ s.calls := List.countP_pos_iff.mpr ⟨a, List.mem_of_getElem? ha, h⟩

theorem one_le_watchdogs {k : ℕ} {a : Actor} (ha : s.actors[k]? = some a)
    (h : a.isWatchdog = true) : 1 ≤ s.watchdogs :=
  List.countP_pos_iff.mpr ⟨a, List.mem_of_getElem? ha, h⟩

theorem guarded_call {k : ℕ} {a b : Actor} (ha : s.actors[k]? = some a) (hg : Guarded s)
    {adaptive responsive : Bool} {v : ShieldVars}
    (hturn : a.turn adaptive responsive s.now s.vars = (v, some b, none)) (hcall : a.isCall = true)
    (hcall' : b.isCall = true) : Guarded (s.advance k adaptive responsive) := by
  have hdog : ∀ {c : Actor}, c.isCall = true → c.isWatchdog = false := by
    intro c hc
    cases c <;> first | rfl | cases hc
  have hstays := stays_advance ha hturn (hcall'.trans hcall.symm)
    ((hdog hcall').trans (hdog hcall).symm)
  exact hstays.guarded_of_call hg (one_le_calls ha hcall)

theorem guarded_watchdog {k : ℕ} {a b : Actor} (ha : s.actors[k]? = some a) (hg : Guarded s)
    {adaptive responsive : Bool} {v : ShieldVars}
    (hturn : a.turn adaptive responsive s.now s.vars = (v, some b, none))
    (hdog : a.isWatchdog = true) (hdog' : b.isWatchdog = true) :
    Guarded (s.advance k adaptive responsive) := by
  have hcall : ∀ {c : Actor}, c.isWatchdog = true → c.isCall = false := by
    intro c hc
    cases c <;> first | rfl | cases hc
  have hstays := stays_advance ha hturn ((hcall hdog').trans (hcall hdog).symm)
    (hdog'.trans hdog.symm)
  exact hstays.guarded_of_watchdog hg (one_le_watchdogs ha hdog)

theorem not_pos_of_not_one_le {n : Int32} (h : ¬ n ≥ 1) : ¬ n > 0 := by
  have hone : (1 : Int32).toInt = 1 := rfl
  have hzero : (0 : Int32).toInt = 0 := rfl
  rw [ge_iff_le, Int32.le_iff_toInt_le, hone] at h
  rw [gt_iff_lt, Int32.lt_iff_toInt_lt, hzero]
  omega

theorem ends_advance {k : ℕ} {a : Actor} (ha : s.actors[k]? = some a) {adaptive responsive : Bool}
    {v : ShieldVars} (hturn : a.turn adaptive responsive s.now s.vars = (v, none, none)) :
    (s.advance k adaptive responsive).vars = v ∧
      (s.advance k adaptive responsive).calls + (if a.isCall then 1 else 0) = s.calls ∧
      (s.advance k adaptive responsive).watchdogs + (if a.isWatchdog then 1 else 0) =
        s.watchdogs := by
  have hv := vars_advance ha adaptive responsive
  have hc := counts_advance ha adaptive responsive Actor.isCall
  have hw := counts_advance ha adaptive responsive Actor.isWatchdog
  rw [hturn] at hv hc hw
  exact ⟨hv, hc, hw⟩

theorem guarded_markLoad_iff {k : ℕ} (ha : s.actors[k]? = some .markLoad) (hg : Guarded s)
    (adaptive responsive : Bool) :
    Guarded (s.advance k adaptive responsive) ↔ s.TimelyFor .markLoad := by
  by_cases hcount : s.vars.staticCorruptionCount ≥ 1
  · have hturn : Actor.markLoad.turn adaptive responsive s.now s.vars =
        (s.vars, some .markSwap, none) := by
      simp only [Actor.turn, if_pos hcount]
    exact iff_of_true (guarded_call ha hg hturn rfl rfl) (.inl hcount)
  · have hturn : Actor.markLoad.turn adaptive responsive s.now s.vars = (s.vars, none, none) := by
      simp only [Actor.turn, if_neg hcount]
    obtain ⟨hv, hc, hw⟩ := ends_advance ha hturn
    simp only [Actor.isCall, Actor.isWatchdog, if_true, Bool.false_eq_true, if_false,
      add_zero] at hc hw
    constructor
    · intro h
      by_cases hoff : s.vars.shieldActive = true
      · have halive := h.alive
        rw [hv, hw] at halive
        by_cases hlast : 2 ≤ s.calls
        · exact .inr (.inr (.inr hlast))
        · exact .inr (.inr (.inl (halive (by omega) (.inl hoff))))
      · exact .inr (.inl (by simpa using hoff))
    · rintro (h | h | h | h)
      · exact absurd h hcount
      · refine ⟨hw ▸ hg.one, fun _ hset => ?_⟩
        rw [hv, h] at hset
        rcases hset with hset | hset
        · cases hset
        · exact absurd hset (not_pos_of_not_one_le hcount)
      · exact ⟨hw ▸ hg.one, fun _ _ => hw ▸ h⟩
      · exact ⟨hw ▸ hg.one, fun hnone => by omega⟩

theorem guarded_markSwap_iff {k : ℕ} (ha : s.actors[k]? = some .markSwap) (hg : Guarded s)
    (hf : Flagged s) (adaptive responsive : Bool) :
    Guarded (s.advance k adaptive responsive) ↔ s.TimelyFor .markSwap := by
  by_cases hrunning : s.vars.isWatchdogRunning = true
  · have hturn : Actor.markSwap.turn adaptive responsive s.now s.vars =
        ({ s.vars with isWatchdogRunning := true }, none, none) := by
      simp only [Actor.turn, if_pos hrunning]
    obtain ⟨-, -, hw⟩ := ends_advance ha hturn
    simp only [Actor.isWatchdog, Bool.false_eq_true, if_false, add_zero] at hw
    refine iff_of_true ⟨hw ▸ hg.one, fun _ _ => hw ▸ hf hrunning⟩ (.inl hrunning)
  · have hw := counts_advance ha adaptive responsive Actor.isWatchdog
    have hdogs : (s.advance k adaptive responsive).watchdogs = s.watchdogs + 1 := by
      simpa [watchdogs, Actor.turn, hrunning, Actor.isWatchdog] using hw
    constructor
    · intro h
      have hone := h.one
      exact .inr (by omega)
    · rintro (h | h)
      · exact absurd h hrunning
      · exact ⟨by omega, fun _ _ => by omega⟩

theorem guarded_watchRunning_iff {k : ℕ} (ha : s.actors[k]? = some .watchRunning)
    (hg : Guarded s) (adaptive responsive : Bool) :
    Guarded (s.advance k adaptive responsive) ↔ s.TimelyFor .watchRunning := by
  have hturn : Actor.watchRunning.turn adaptive responsive s.now s.vars =
      ({ s.vars with isWatchdogRunning := false }, none, none) := rfl
  obtain ⟨hv, hc, hw⟩ := ends_advance ha hturn
  simp only [Actor.isCall, Actor.isWatchdog, if_true, Bool.false_eq_true, if_false,
    add_zero] at hc hw
  have hone := hg.one
  constructor
  · intro h
    have halive := h.alive
    rw [hv, hc] at halive
    by_cases hcalls : s.calls = 0
    · refine .inr ⟨?_, fun hcount => ?_⟩
      · by_contra hon
        have hdog := halive hcalls (.inl (by simpa using hon))
        omega
      · have hdog := halive hcalls (.inr hcount)
        omega
    · exact .inl (by omega)
  · intro h
    refine ⟨by omega, fun hnone hset => ?_⟩
    rw [hv] at hset
    rcases h with h | ⟨hoff, hcount⟩
    · omega
    · rcases hset with hset | hset
      · rw [hoff] at hset
        cases hset
      · exact absurd hset hcount

theorem guarded_advance_iff {k : ℕ} {a : Actor} (ha : s.actors[k]? = some a) (hg : Guarded s)
    (hf : Flagged s) (adaptive responsive : Bool) :
    Guarded (s.advance k adaptive responsive) ↔ s.TimelyFor a := by
  have hv := vars_advance ha adaptive responsive
  have hclear : ∀ {b : Actor} {v : ShieldVars},
      a.turn adaptive responsive s.now s.vars = (v, some b, none) → b.isCall = a.isCall →
      b.isWatchdog = a.isWatchdog → (v.shieldActive = true → s.vars.shieldActive = true) →
      (v.staticCorruptionCount > 0 → s.vars.staticCorruptionCount > 0) →
      Guarded (s.advance k adaptive responsive) := by
    intro b v hturn hcall hdog hshield hcount
    rw [hturn] at hv
    exact (stays_advance ha hturn hcall hdog).guarded_of_cleared hg (by rwa [hv]) (by rwa [hv])
  cases a with
  | markTest | markCount =>
    refine iff_of_true (guarded_call ha hg rfl rfl ?_) trivial
    split_ifs <;> rfl
  | markCycle | markShield => exact iff_of_true (guarded_call ha hg rfl rfl rfl) trivial
  | markLoad => exact guarded_markLoad_iff ha hg adaptive responsive
  | markSwap => exact guarded_markSwap_iff ha hg hf adaptive responsive
  | watchSleep | watchElapsed last | watchShield | watchCount =>
    exact iff_of_true (guarded_watchdog ha hg rfl rfl rfl) trivial
  | watchDecide elapsed =>
    refine iff_of_true (guarded_watchdog ha hg rfl rfl ?_) trivial
    split_ifs <;> rfl
  | watchRunning => exact guarded_watchRunning_iff ha hg adaptive responsive
  | resetShield =>
    exact iff_of_true (hclear rfl rfl rfl (fun h => by cases h) fun h => h) trivial
  | resetRunning => exact iff_of_true (hclear rfl rfl rfl (fun h => h) fun h => h) trivial
  | resetCount =>
    exact iff_of_true (hclear rfl rfl rfl (fun h => h) fun h => (Int32.lt_irrefl h).elim) trivial
  | resetCycle =>
    have hturn : Actor.resetCycle.turn adaptive responsive s.now s.vars =
      ({ s.vars with strictCycleCount := 0 }, none, none) := rfl
    obtain ⟨hv', hc, hw⟩ := ends_advance ha hturn
    have hstays : Stays s (s.advance k adaptive responsive) := ⟨hc, hw⟩
    exact iff_of_true (hstays.guarded_of_cleared hg (by rw [hv']; exact id)
      (by rw [hv']; exact id)) trivial

theorem watchdog_goes_on {a : Actor} (ha : a ≠ .watchRunning) (adaptive responsive : Bool)
    (now : ℤ) (v : ShieldVars) :
    (if a.isWatchdog then 1 else 0) ≤
      (a.turn adaptive responsive now v).2.1.toList.countP Actor.isWatchdog := by
  cases a with
  | watchRunning => exact absurd rfl ha
  | watchDecide elapsed =>
    simp only [Actor.turn]
    split_ifs <;> simp [Actor.isWatchdog]
  | watchSleep | watchElapsed last | watchShield | watchCount => exact le_rfl
  | _ => exact Nat.zero_le _

theorem flagged_advance {k : ℕ} {a : Actor} (ha : s.actors[k]? = some a) (hf : Flagged s)
    (adaptive responsive : Bool) : Flagged (s.advance k adaptive responsive) := by
  have hw : (s.advance k adaptive responsive).watchdogs + (if a.isWatchdog then 1 else 0) =
      s.watchdogs + _ + _ := counts_advance ha adaptive responsive Actor.isWatchdog
  have hv := vars_advance ha adaptive responsive
  intro hflag
  rw [hv] at hflag
  by_cases hlast : a = .watchRunning
  · subst hlast
    cases hflag
  · have hstay := watchdog_goes_on hlast adaptive responsive s.now s.vars
    by_cases hflag' : s.vars.isWatchdogRunning = true
    · have hold := hf hflag'
      omega
    · -- the flag is new, and a watchdog was started with it
      have hstart : (a.turn adaptive responsive s.now s.vars).2.2.toList.countP
          Actor.isWatchdog = 1 := by
        cases a with
        | markSwap => simp [Actor.turn, hflag', Actor.isWatchdog]
        | resetRunning => cases hflag
        | watchRunning => exact absurd rfl hlast
        | _ => exact absurd hflag hflag'
      omega

theorem Flagged.step (hf : Flagged s) (op : Op) : Flagged (s.step op) := by
  cases op with
  | tick nanoseconds => exact hf
  | markNotComplete | resetShield =>
    intro hflag
    rw [watchdogs, Shield.step, List.countP_append]
    exact Nat.le_add_right_of_le (hf hflag)
  | advance k adaptive responsive =>
    cases ha : s.actors[k]? with
    | none =>
      have hsame : s.step (.advance k adaptive responsive) = s := by
        simp only [Shield.step, Shield.advance, ha]
      rw [hsame]
      exact hf
    | some a => exact flagged_advance ha hf adaptive responsive

theorem guarded_step_iff (hg : Guarded s) (hf : Flagged s) (op : Op) :
    Guarded (s.step op) ↔ s.Timely op := by
  cases op with
  | tick nanoseconds => exact iff_of_true ⟨hg.one, hg.alive⟩ trivial
  | markNotComplete =>
    refine iff_of_true ⟨?_, fun hnone => ?_⟩ trivial
    · rw [watchdogs, Shield.step, List.countP_append]
      exact hg.one
    · rw [calls, Shield.step, List.countP_append] at hnone
      simp [Actor.isCall] at hnone
  | resetShield =>
    refine iff_of_true ⟨?_, fun hnone => ?_⟩ trivial
    · rw [watchdogs, Shield.step, List.countP_append]
      exact hg.one
    · rw [calls, Shield.step, List.countP_append] at hnone
      rw [watchdogs, Shield.step, List.countP_append]
      exact hg.alive hnone
  | advance k adaptive responsive =>
    cases ha : s.actors[k]? with
    | none =>
      have hsame : s.step (.advance k adaptive responsive) = s := by
        simp only [Shield.step, Shield.advance, ha]
      rw [hsame]
      exact iff_of_true hg (by simp [Timely, ha])
    | some a =>
      have htimely : s.Timely (.advance k adaptive responsive) ↔ s.TimelyFor a := by
        simp [Timely, ha]
      rw [htimely]
      exact guarded_advance_iff ha hg hf adaptive responsive

def clearedInBetween : List Op :=
  [.markNotComplete, .advance 0 true true, .advance 0 true true, .advance 0 true true,
    .advance 0 true true, .tick 40000000000, .advance 0 true true, .advance 0 true true,
    .advance 0 true true, .markNotComplete, .advance 1 true true, .advance 1 true true,
    .advance 1 true true, .advance 0 true true, .advance 1 true true, .advance 0 true true,
    .advance 1 true true, .advance 0 true true]

def resetInBetween : List Op :=
  [.markNotComplete, .advance 0 true true, .advance 0 true true, .advance 0 true true,
    .advance 0 true true, .resetShield, .advance 1 true true, .advance 1 true true,
    .advance 1 true true, .advance 1 true true, .markNotComplete, .advance 1 true true,
    .advance 1 true true, .advance 1 true true, .advance 1 true true]

end Shield

end GoStream.Torrstor
