import GoStream.Scheduler.Jobs
import Mathlib.Data.List.TakeWhile

/-!
# The days of a daily job
-/

namespace GoStream.Scheduling

open Foundations

structure DailyJobConfig.ClockTime (c : DailyJobConfig) : Prop where
  hour_nonneg : 0 ≤ c.hour
  hour_lt : c.hour < 24
  minute_nonneg : 0 ≤ c.minute
  minute_lt : c.minute < 60

namespace DailyJobConfig

variable {c : DailyJobConfig}

def slot (c : DailyJobConfig) (d : ℤ) : ℤ := date d c.hour c.minute

def onDay (c : DailyJobConfig) (d : ℤ) : Bool := c.daysOfWeek.contains ((d + 1) % 7)

theorem slot_bounds (hc : c.ClockTime) (d : ℤ) :
    d * oneDay ≤ c.slot d ∧ c.slot d + oneMinute ≤ (d + 1) * oneDay := by
  obtain ⟨h0, h1, h2, h3⟩ := hc
  unfold slot date oneDay oneHour oneMinute
  constructor
  · omega
  · omega

theorem slot_add (c : DailyJobConfig) (d k : ℤ) : c.slot d + k * oneDay = c.slot (d + k) := by
  unfold slot date oneDay oneHour oneMinute
  omega

end DailyJobConfig

theorem dayOf_eq_iff {t : ℤ} {d : ℤ} : dayOf t = d ↔ d * oneDay ≤ t ∧ t < (d + 1) * oneDay := by
  unfold dayOf oneDay oneHour oneMinute
  omega

theorem dayOf_mono {t u : ℤ} (h : t ≤ u) : dayOf t ≤ dayOf u := by
  unfold dayOf oneDay oneHour oneMinute
  omega

namespace DailyJobConfig

variable {c : DailyJobConfig} (hc : c.ClockTime)

include hc

theorem dayOf_slot (d : ℤ) : dayOf (c.slot d) = d := by
  obtain ⟨hlow, hhigh⟩ := slot_bounds hc d
  have hminute : 0 < oneMinute := by decide
  exact dayOf_eq_iff.mpr ⟨hlow, by omega⟩

theorem contains_weekday_slot (d : ℤ) : c.daysOfWeek.contains (weekday (c.slot d)) = c.onDay d := by
  rw [weekday, dayOf_slot hc, onDay]

theorem succ_le_slot {d e : ℤ} (h : d < e) : (d + 1) * oneDay ≤ c.slot e := by
  have hmono : (d + 1) * oneDay ≤ e * oneDay := Int.mul_le_mul_of_nonneg_right h (by decide)
  exact hmono.trans (slot_bounds hc e).1

theorem lt_slot_of_dayOf_lt {t d : ℤ} (h : dayOf t < d) : t < c.slot d :=
  (dayOf_eq_iff.mp rfl).2.trans_le (succ_le_slot hc h)

theorem le_dayOf_of_slot_le {t d : ℤ} (h : c.slot d ≤ t) : d ≤ dayOf t := by
  have hle := dayOf_mono h
  rwa [dayOf_slot hc] at hle

theorem slot_lt_slot_iff {d e : ℤ} : c.slot d < c.slot e ↔ d < e := by
  constructor
  · intro h
    have hle := le_dayOf_of_slot_le hc h.le
    rw [dayOf_slot hc] at hle
    exact hle.lt_of_ne (by rintro rfl; exact lt_irrefl _ h)
  · intro h
    apply lt_slot_of_dayOf_lt hc
    rwa [dayOf_slot hc]

end DailyJobConfig

theorem shouldRunDaily_iff {c : DailyJobConfig} (hc : c.ClockTime) (state : JobState) (now : ℤ) :
    shouldRunDaily state c now = true ↔ c.enabled = true ∧ (∀ next ∈ state.nextRun, next ≤ now) ∧
      c.onDay (dayOf now) = true ∧ c.slot (dayOf now) ≤ now ∧
      ∀ last ∈ state.lastRun, dayOf last < dayOf now := by
  have hslot := DailyJobConfig.contains_weekday_slot hc (dayOf now)
  unfold DailyJobConfig.slot at hslot ⊢
  unfold shouldRunDaily
  cases hnext : state.nextRun <;> cases hlast : state.lastRun <;>
    simp [hslot, -List.contains_eq_mem]

theorem findSome?_range {α : Type*} {f : ℕ → Option α} {n k : ℕ} (hk : k < n)
    (hf : (f k).isSome = true) :
    ∃ m x, m ≤ k ∧ f m = some x ∧ (List.range n).findSome? f = some x := by
  induction n with
  | zero => omega
  | succ n ih =>
    rw [List.range_succ, List.findSome?_append]
    by_cases hlt : k < n
    · obtain ⟨m, x, hm, hx, hfound⟩ := ih hlt
      exact ⟨m, x, hm, hx, by rw [hfound, Option.some_or]⟩
    · obtain rfl : k = n := by omega
      cases hfirst : (List.range k).findSome? f with
      | none =>
        obtain ⟨x, hx⟩ := Option.isSome_iff_exists.mp hf
        exact ⟨k, x, le_rfl, hx, by simp [hx]⟩
      | some x =>
        obtain ⟨m, hm, hx⟩ := List.exists_of_findSome?_eq_some hfirst
        exact ⟨m, x, (List.mem_range.mp hm).le, hx, by rw [Option.some_or]⟩

section NextRun

variable {c : DailyJobConfig} (hc : c.ClockTime) {now next : ℤ}

theorem nextCandidate_eq (c : DailyJobConfig) (now : ℤ) (k : ℕ) :
    date (dayOf now) c.hour c.minute + k * oneDay = c.slot (dayOf now + k) := c.slot_add _ _

include hc

theorem nextCandidate_eq_some_iff {k : ℕ} : nextCandidate c now k = some next ↔
    next = c.slot (dayOf now + k) ∧ c.onDay (dayOf now + k) = true ∧ (k ≠ 0 ∨ now < next) := by
  have hday := DailyJobConfig.contains_weekday_slot hc (dayOf now + k)
  unfold nextCandidate
  dsimp only
  rw [nextCandidate_eq, hday]
  constructor
  · intro h
    split_ifs at h with hcond
    · obtain rfl := Option.some.inj h
      simpa using hcond
  · rintro ⟨rfl, hon, hlater⟩
    rw [if_pos]
    simpa [hon] using hlater

theorem nextRunTime_eq_some (h : nextRunTime c now = some next) :
    now < next ∧ ∃ d, next = c.slot d ∧ c.onDay d = true := by
  unfold nextRunTime at h
  split_ifs at h with henabled
  obtain ⟨k, hk, hnext⟩ := List.exists_of_findSome?_eq_some h
  obtain ⟨rfl, hon, hlater⟩ := (nextCandidate_eq_some_iff hc).mp hnext
  refine ⟨?_, dayOf now + k, rfl, hon⟩
  rcases hlater with hk | hlt
  · exact DailyJobConfig.lt_slot_of_dayOf_lt hc (by omega)
  · exact hlt

theorem nextRunTime_le (henabled : c.enabled = true) {d : ℤ} (hd : c.onDay d = true)
    (hnow : now < c.slot d) : ∃ next, nextRunTime c now = some next ∧ next ≤ c.slot d := by
  have hday : dayOf now ≤ d := by
    have hle := dayOf_mono hnow.le
    rwa [DailyJobConfig.dayOf_slot hc] at hle
  -- the same day of the week, at most seven days ahead
  obtain ⟨k, hk, hkd, hmod, hlater⟩ : ∃ k : ℕ, k < 8 ∧ dayOf now + k ≤ d ∧
      (dayOf now + k + 1) % 7 = (d + 1) % 7 ∧ (k ≠ 0 ∨ dayOf now + k = d) := by
    by_cases hnear : d - dayOf now < 8
    · exact ⟨(d - dayOf now).toNat, by omega, by omega, by congr 1; omega, by omega⟩
    · exact ⟨((d - dayOf now - 1) % 7 + 1).toNat, by omega, by omega, by omega, by omega⟩
  have hcand : nextCandidate c now k = some (c.slot (dayOf now + k)) := by
    rw [nextCandidate_eq_some_iff hc]
    refine ⟨rfl, ?_, ?_⟩
    · rw [DailyJobConfig.onDay, hmod]
      exact hd
    · rcases hlater with h | h
      · exact .inl h
      · exact .inr (by rw [h]; exact hnow)
  obtain ⟨m, next, hm, hnext, hfound⟩ :=
    findSome?_range (f := nextCandidate c now) hk (by rw [hcand]; rfl)
  refine ⟨next, by rw [nextRunTime, henabled]; exact hfound, ?_⟩
  obtain ⟨rfl, -, -⟩ := (nextCandidate_eq_some_iff hc).mp hnext
  by_contra hlt
  have := (DailyJobConfig.slot_lt_slot_iff hc).mp (not_le.mp hlt)
  omega

theorem nextRunTime_later (henabled : c.enabled = true) {d : ℤ} (hd : c.onDay d = true)
    (hnow : c.slot d ≤ now) : ∃ next, nextRunTime c now = some next ∧ (d + 1) * oneDay ≤ next := by
  have hnext : ∃ next, nextRunTime c now = some next := by
    -- the same day of the week in some later week
    have hk : c.onDay (d + 7 * (dayOf now - d + 1)) = true := by
      rw [DailyJobConfig.onDay] at hd ⊢
      rwa [show (d + 7 * (dayOf now - d + 1) + 1) % 7 = (d + 1) % 7 by omega]
    have hle : d ≤ dayOf now := DailyJobConfig.le_dayOf_of_slot_le hc hnow
    have hlt : now < c.slot (d + 7 * (dayOf now - d + 1)) :=
      DailyJobConfig.lt_slot_of_dayOf_lt hc (by omega)
    obtain ⟨next, hnext, -⟩ := nextRunTime_le hc henabled hk hlt
    exact ⟨next, hnext⟩
  obtain ⟨next, hnext⟩ := hnext
  obtain ⟨hlt, e, rfl, -⟩ := nextRunTime_eq_some hc hnext
  have hde : d < e := (DailyJobConfig.slot_lt_slot_iff hc).mp (hnow.trans_lt hlt)
  exact ⟨_, hnext, DailyJobConfig.succ_le_slot hc hde⟩

end NextRun

structure DailyJobConfig.Admits (c : DailyJobConfig) (t : ℤ) : Prop where
  hour : t % oneDay / oneHour = c.hour
  minute : t % oneHour / oneMinute = c.minute
  seconds : t % oneMinute = 0
  weekday : weekday t ∈ c.daysOfWeek

section Earliest

variable {c : DailyJobConfig} (hc : c.ClockTime)

include hc

theorem admits_iff {t : ℤ} : c.Admits t ↔ ∃ d, t = c.slot d ∧ c.onDay d = true := by
  constructor
  · rintro ⟨hhour, hminute, hseconds, hweekday⟩
    refine ⟨dayOf t, ?_, by simpa [DailyJobConfig.onDay] using (show (dayOf t + 1) % 7 ∈ _ from hweekday)⟩
    unfold DailyJobConfig.slot date dayOf oneDay oneHour oneMinute at *
    omega
  · rintro ⟨d, rfl, hon⟩
    have hday := DailyJobConfig.contains_weekday_slot hc d
    rw [hon, List.contains_iff_mem] at hday
    obtain ⟨h0, h1, h2, h3⟩ := hc
    refine ⟨?_, ?_, ?_, hday⟩
    all_goals
      unfold DailyJobConfig.slot date oneDay oneHour oneMinute
      omega

theorem nextRunTime_eq_none_iff (henabled : c.enabled = true) (now : ℤ) :
    nextRunTime c now = none ↔ ∀ d ∈ c.daysOfWeek, ¬(0 ≤ d ∧ d ≤ 6) := by
  constructor
  · intro hnone d hd hrange
    -- one of the next seven days falls on `d`
    obtain ⟨e, hlater, hmod⟩ : ∃ e, dayOf now < e ∧ (e + 1) % 7 = d :=
      ⟨dayOf now + 7 - (dayOf now + 1 - d) % 7, by omega, by omega⟩
    have hon : c.onDay e = true := by
      rw [DailyJobConfig.onDay, hmod]
      exact List.contains_iff_mem.mpr hd
    obtain ⟨next, hnext, -⟩ := nextRunTime_le hc henabled hon
      (DailyJobConfig.lt_slot_of_dayOf_lt hc hlater)
    rw [hnone] at hnext
    cases hnext
  · intro hnone
    cases hnext : nextRunTime c now with
    | none => rfl
    | some next =>
      obtain ⟨-, d, -, hon⟩ := nextRunTime_eq_some hc hnext
      rw [DailyJobConfig.onDay, List.contains_iff_mem] at hon
      exact absurd (by omega) (hnone _ hon)

/-- The next run is the earliest admissible time. -/
theorem nextRunTime_earliest (henabled : c.enabled = true) (now : ℤ) :
    (∀ next, nextRunTime c now = some next ↔ IsLeast { t | now < t ∧ c.Admits t } next) ∧
      (nextRunTime c now = none ↔ ∀ d ∈ c.daysOfWeek, ¬(0 ≤ d ∧ d ≤ 6)) ∧
      (0 ≤ now → nextRunTime c now ≠ some 0) := by
  have hleast : ∀ next, nextRunTime c now = some next →
      IsLeast { t | now < t ∧ c.Admits t } next := by
    intro next hnext
    obtain ⟨hlt, hslot⟩ := nextRunTime_eq_some hc hnext
    refine ⟨⟨hlt, (admits_iff hc).mpr hslot⟩, ?_⟩
    rintro t ⟨ht, hadmits⟩
    obtain ⟨d, rfl, hon⟩ := (admits_iff hc).mp hadmits
    obtain ⟨first, hfirst, hle⟩ := nextRunTime_le hc henabled hon ht
    rw [hnext] at hfirst
    exact Option.some.inj hfirst ▸ hle
  refine ⟨fun next => ⟨hleast next, fun hnext => ?_⟩, nextRunTime_eq_none_iff hc henabled now, ?_⟩
  · obtain ⟨d, hd, hon⟩ := (admits_iff hc).mp hnext.1.2
    obtain ⟨first, hfirst, -⟩ := nextRunTime_le hc henabled hon (hd ▸ hnext.1.1)
    rw [hfirst, (hleast first hfirst).unique hnext]
  · intro hnow hzero
    exact absurd (nextRunTime_eq_some hc hzero).1 (by omega)

end Earliest

theorem nextRunTime_earliest_week :
    nextRunTime ⟨true, [1], 3, 0⟩ (4 * oneHour) = some (7 * oneDay + 3 * oneHour) ∧
      IsLeast { t | 4 * oneHour < t ∧ DailyJobConfig.Admits ⟨true, [1], 3, 0⟩ t }
        (7 * oneDay + 3 * oneHour) :=
  have hnext : nextRunTime ⟨true, [1], 3, 0⟩ (4 * oneHour) = some (7 * oneDay + 3 * oneHour) := by
    decide
  ⟨hnext, ((nextRunTime_earliest (c := ⟨true, [1], 3, 0⟩)
    ⟨by decide, by decide, by decide, by decide⟩ rfl (4 * oneHour)).1 _).mp hnext⟩

def dailyConfig (cfg : SchedulerConfig) (name : Bytes) : Option DailyJobConfig :=
  if name = ascii "movies" then some cfg.moviesSync
  else if name = ascii "tv" then some cfg.tvSync
  else if name = ascii "watchlist" then none
  else if (ascii "tv:").isPrefixOf name then
    (cfg.tvChannels.find? fun ch => ch.name = Utils.trimPrefix name (ascii "tv:")).map
      TVChannelSchedule.toDailyJobConfig
  else none

theorem shouldRun_of_daily {cfg : SchedulerConfig} {name : Bytes} {c : DailyJobConfig}
    (h : dailyConfig cfg name = some c) (state : JobState) (now : ℤ) :
    shouldRun cfg name state now = (!state.running && shouldRunDaily state c now) := by
  unfold dailyConfig at h
  unfold shouldRun
  cases state.running with
  | true => rfl
  | false =>
    simp only [Bool.not_false, Bool.true_and]
    split_ifs at h ⊢ with h₁ h₂ h₃ h₄ <;> simp_all
    cases hfind : cfg.tvChannels.find? fun ch => ch.name = Utils.trimPrefix name (ascii "tv:") <;>
      simp_all

theorem nextRunOf_of_daily {cfg : SchedulerConfig} {name : Bytes} {c : DailyJobConfig}
    (h : dailyConfig cfg name = some c) (state : JobState) (now : ℤ) :
    nextRunOf cfg name state now = nextRunTime c now := by
  unfold dailyConfig at h
  unfold nextRunOf
  split_ifs at h ⊢ with h₁ h₂ h₃ h₄ <;> simp_all
  cases hfind : cfg.tvChannels.find? fun ch => ch.name = Utils.trimPrefix name (ascii "tv:") <;>
    simp_all

inductive Action where
  | tick
  | check (name : Bytes)
  | update (name : Bytes)
  | trigger (name : Bytes)
  | stop (name : Bytes)
  | cancel (k : ℕ)
  | proceed (i : ℕ) (r : Result)
  deriving DecidableEq

def Action.op (now : ℤ) : Action → Op
  | .tick => .tick
  | .check name => .check name now
  | .update name => .update name now
  | .trigger name => .trigger name
  | .stop name => .stop name
  | .cancel k => .cancel k
  | .proceed i r => .proceed i r now

theorem Action.op_eq_update {a : Action} {now t : ℤ} {name : Bytes}
    (h : a.op now = .update name t) : t = now := by
  cases a <;> rw [Action.op] at h <;> cases h
  rfl

theorem Action.op_eq_check {a : Action} {now t : ℤ} {name : Bytes}
    (h : a.op now = .check name t) : a = .check name := by
  cases a <;> rw [Action.op] at h <;> cases h
  rfl

theorem Action.op_eq_trigger {a : Action} {now : ℤ} {name : Bytes}
    (h : a.op now = .trigger name) : a = .trigger name := by
  cases a <;> rw [Action.op] at h <;> cases h
  rfl

abbrev Event := ℤ × Action

def elapse (s : Scheduler) (e : Event) : Scheduler := s.step (e.2.op e.1)

def isTick (name : Bytes) (s : Scheduler) (e : Event) : Bool :=
  e.2 = .check name && s.toCheck.contains name

def isStart (name : Bytes) (s : Scheduler) (e : Event) : Bool :=
  e.2 = .check name && (s.starts (e.2.op e.1)).isSome

def timesOf (kind : Scheduler → Event → Bool) : Scheduler → List Event → List ℤ
  | _, [] => []
  | s, e :: es =>
    if kind s e then e.1 :: timesOf kind (elapse s e) es else timesOf kind (elapse s e) es

theorem timesOf_append (kind : Scheduler → Event → Bool) (s : Scheduler) (es fs : List Event) :
    timesOf kind s (es ++ fs) = timesOf kind s es ++ timesOf kind (run elapse s es) fs := by
  induction es generalizing s with
  | nil => rfl
  | cons e es ih =>
    rw [List.cons_append, timesOf, timesOf, ih, run_cons]
    split_ifs
    · rfl
    · rfl

theorem timesOf_sublist (kind : Scheduler → Event → Bool) (s : Scheduler) (es : List Event) :
    (timesOf kind s es).Sublist (es.map Prod.fst) := by
  induction es generalizing s with
  | nil => exact List.Sublist.refl _
  | cons e es ih =>
    rw [timesOf, List.map_cons]
    split_ifs
    · exact (ih _).cons_cons e.1
    · exact (ih _).cons e.1

theorem mem_of_mem_timesOf {kind : Scheduler → Event → Bool} {s : Scheduler} {es : List Event}
    {t : ℤ} (h : t ∈ timesOf kind s es) : ∃ e ∈ es, e.1 = t :=
  List.mem_map.mp ((timesOf_sublist kind s es).subset h)

theorem le_of_mem_dropWhile {es : List Event} (hordered : es.Pairwise fun e f => e.1 ≤ f.1) {t : ℤ}
    {e : Event} (he : e ∈ es.dropWhile fun e => e.1 < t) : t ≤ e.1 := by
  induction es with
  | nil => cases he
  | cons f es ih =>
    obtain ⟨hfirst, hrest⟩ := List.pairwise_cons.mp hordered
    rw [List.dropWhile_cons] at he
    split_ifs at he with hlt
    · exact ih hrest he
    · have hle : t ≤ f.1 := by simpa using hlt
      rcases List.mem_cons.mp he with rfl | he
      · exact hle
      · exact hle.trans (hfirst e he)

inductive Turn (s : Scheduler) (op : Op) (s' : Scheduler) : Prop
  | begin (checked : s.toCheck = []) (updated : s.toUpdate = []) (check : s'.toCheck = s.jobs.keys)
      (update : s'.toUpdate = s.jobs.keys)
  | check (name : Bytes) (now : ℤ) (is_check : op = .check name now) (mem : name ∈ s.toCheck)
      (check : s'.toCheck = s.toCheck.erase name) (update : s'.toUpdate = s.toUpdate)
  | update (name : Bytes) (now : ℤ) (is_update : op = .update name now) (checked : s.toCheck = [])
      (mem : name ∈ s.toUpdate) (check : s'.toCheck = [])
      (update : s'.toUpdate = s.toUpdate.erase name)
  | frame (check : s'.toCheck = s.toCheck) (update : s'.toUpdate = s.toUpdate)

namespace Scheduler

theorem runJob_frame (s : Scheduler) (i : ℕ) (r : Result) (now : ℤ) :
    (s.runJob i r now).toCheck = s.toCheck ∧ (s.runJob i r now).toUpdate = s.toUpdate ∧
      (s.runJob i r now).cfg = s.cfg ∧ (s.runJob i r now).jobs = s.jobs := by
  unfold runJob
  cases s.runs[i]? with
  | none => exact ⟨rfl, rfl, rfl, rfl⟩
  | some run =>
    dsimp only
    cases run.stage <;> exact ⟨rfl, rfl, rfl, rfl⟩

theorem cancelRun_frame (s : Scheduler) (i : ℕ) :
    (s.cancelRun i).toCheck = s.toCheck ∧ (s.cancelRun i).toUpdate = s.toUpdate ∧
      (s.cancelRun i).cfg = s.cfg ∧ (s.cancelRun i).jobs = s.jobs := by
  unfold cancelRun
  cases s.runs[i]? <;> exact ⟨rfl, rfl, rfl, rfl⟩

theorem triggerRun_frame {s s' : Scheduler} {name : Bytes} (h : s.triggerRun name = .ok s') :
    s'.toCheck = s.toCheck ∧ s'.toUpdate = s.toUpdate ∧ s'.cfg = s.cfg ∧ s'.jobs = s.jobs := by
  unfold triggerRun at h
  cases hjob : s.jobs.lookup name with
  | none => rw [hjob] at h; cases h
  | some syncer =>
    rw [hjob] at h
    dsimp only at h
    split_ifs at h
    obtain rfl := Except.ok.inj h
    exact ⟨rfl, rfl, rfl, rfl⟩

theorem checkJob_frame (s : Scheduler) (name : Bytes) (now : ℤ) :
    (s.checkJob name now).toUpdate = s.toUpdate ∧ (s.checkJob name now).cfg = s.cfg ∧
      (s.checkJob name now).jobs = s.jobs := by
  unfold checkJob
  cases s.jobs.lookup name with
  | none => exact ⟨rfl, rfl, rfl⟩
  | some syncer =>
    dsimp only
    split_ifs
    · exact ⟨rfl, rfl, rfl⟩
    · exact ⟨rfl, rfl, rfl⟩

theorem step_turn (s : Scheduler) (op : Op) :
    Turn s op (s.step op) ∧ (s.step op).cfg = s.cfg ∧ (s.step op).jobs = s.jobs := by
  cases op with
  | tick =>
    simp only [step]
    split_ifs with hidle
    · rw [Bool.and_eq_true, List.isEmpty_iff, List.isEmpty_iff] at hidle
      exact ⟨.begin hidle.1 hidle.2 rfl rfl, rfl, rfl⟩
    · exact ⟨.frame rfl rfl, rfl, rfl⟩
  | check name now =>
    have hframe := s.checkJob_frame name now
    simp only [step]
    split_ifs with hmem
    · exact ⟨.check name now rfl (List.contains_iff_mem.mp hmem) rfl hframe.1, hframe.2⟩
    · exact ⟨.frame rfl rfl, rfl, rfl⟩
  | update name now =>
    simp only [step]
    split_ifs with hguard
    · rw [Bool.and_eq_true, List.isEmpty_iff, List.contains_iff_mem] at hguard
      rw [updateNextRun_eq]
      exact ⟨.update name now rfl hguard.1 hguard.2 hguard.1 rfl, rfl, rfl⟩
    · exact ⟨.frame rfl rfl, rfl, rfl⟩
  | trigger name =>
    simp only [step]
    cases htrigger : s.triggerRun name with
    | error e => exact ⟨.frame rfl rfl, rfl, rfl⟩
    | ok s' =>
      obtain ⟨hcheck, hupdate, hcfg, hjobs⟩ := triggerRun_frame htrigger
      exact ⟨.frame hcheck hupdate, hcfg, hjobs⟩
  | stop name =>
    simp only [step]
    cases s.findCancel name <;> exact ⟨.frame rfl rfl, rfl, rfl⟩
  | cancel k =>
    simp only [step]
    cases s.stopping[k]? with
    | none => exact ⟨.frame rfl rfl, rfl, rfl⟩
    | some i =>
      obtain ⟨hcheck, hupdate, hcfg, hjobs⟩ := s.cancelRun_frame i
      exact ⟨.frame hcheck hupdate, hcfg, hjobs⟩
  | proceed i r now =>
    obtain ⟨hcheck, hupdate, hcfg, hjobs⟩ := s.runJob_frame i r now
    exact ⟨.frame hcheck hupdate, hcfg, hjobs⟩

def Recomputing (s : Scheduler) (name : Bytes) : Prop := name ∉ s.toCheck ∧ name ∈ s.toUpdate

def InProgress (s : Scheduler) (name : Bytes) : Prop :=
  ∃ r ∈ s.runs, r.job = name ∧ r.stage ≠ .reported ∧ r.stage ≠ .ended

instance (s : Scheduler) (name : Bytes) : Decidable (s.Recomputing name) :=
  inferInstanceAs (Decidable (name ∉ s.toCheck ∧ name ∈ s.toUpdate))

instance (s : Scheduler) (name : Bytes) : Decidable (s.InProgress name) :=
  inferInstanceAs (Decidable (∃ r ∈ s.runs, _))

end Scheduler

def Stage.flagged : Stage → Bool
  | .started | .inside | .returned _ => true
  | .spawned | .cleared _ | .reported | .ended => false

structure Keeps (name : Bytes) (c : DailyJobConfig) (s : Scheduler) : Prop where
  daily : dailyConfig s.cfg name = some c
  known : (s.jobs.lookup name).isSome = true
  nodup : s.toCheck.Nodup
  later : ∀ n ∈ s.toCheck, n ∈ s.toUpdate
  flagged : (s.tracker name).running = true →
    ∃ (i : ℕ) (r : JobRun), s.runs[i]? = some r ∧ r.job = name ∧ r.stage.flagged = true

namespace Advance

variable {i : ℕ} {cancels cancels' : Dict Bytes ℕ} {state state' : JobState} {r r' : JobRun}

theorem flagged (h : Advance i cancels state r cancels' state' r')
    (hrunning : state'.running = true) :
    r'.stage.flagged = true ∨ state.running = true ∧ r.stage.flagged = false := by
  cases h with
  | start | enter | leave => exact .inl rfl
  | clear => cases hrunning
  | report res status error now h | finish h => exact .inr ⟨hrunning, by rw [h]; rfl⟩
  | cancel =>
    cases hflag : r.stage.flagged with
    | true => exact .inl rfl
    | false => exact .inr ⟨hrunning, rfl⟩

theorem of_reported (h : Advance i cancels state r cancels' state' r')
    (hr : r.stage = .reported ∨ r.stage = .ended) :
    state' = state ∧ (r'.stage = .reported ∨ r'.stage = .ended) := by
  rcases hr with hr | hr
  · cases h with
    | finish => exact ⟨rfl, .inr rfl⟩
    | cancel => exact ⟨rfl, .inl hr⟩
    | start h | enter h | leave res h | clear res h | report res status error now h =>
      rw [hr] at h; cases h
  · exact ⟨(h.of_ended hr).2.1, .inr (h.of_ended hr).2.2⟩

theorem nextRun_eq (h : Advance i cancels state r cancels' state' r') :
    state'.nextRun = state.nextRun := by
  cases h <;> rfl

end Advance

section Step

variable {name : Bytes} {c : DailyJobConfig} {s : Scheduler}

theorem flagged_step (op : Op)
    (h : (s.tracker name).running = true →
      ∃ (i : ℕ) (r : JobRun), s.runs[i]? = some r ∧ r.job = name ∧ r.stage.flagged = true)
    (hrunning : ((s.step op).tracker name).running = true) :
    ∃ (i : ℕ) (r : JobRun), (s.step op).runs[i]? = some r ∧ r.job = name ∧
      r.stage.flagged = true := by
  cases s.step_effect op with
  | spawn job syncer _ hruns _ htracker =>
    rw [htracker] at hrunning
    obtain ⟨i, r, hi, hr⟩ := h hrunning
    refine ⟨i, r, ?_, hr⟩
    rw [hruns, List.getElem?_append_left (List.getElem?_eq_some_iff.mp hi).1]
    exact hi
  | advance i r r' state hi hadv hruns htracker =>
    have hset : (s.step op).runs[i]? = some r' := by
      rw [hruns, List.getElem?_set_self (List.getElem?_eq_some_iff.mp hi).1]
    -- a flag that this run has not set is that of another run, which is still there
    have hother : (s.tracker name).running = true → (r.job = name → r.stage.flagged = false) →
        ∃ (i : ℕ) (r : JobRun), (s.step op).runs[i]? = some r ∧ r.job = name ∧
          r.stage.flagged = true := by
      intro hold hnot
      obtain ⟨k, q, hk, hjob, hflag⟩ := h hold
      have hne : i ≠ k := by
        rintro rfl
        obtain rfl := Option.some.inj (hi.symm.trans hk)
        rw [hnot hjob] at hflag
        cases hflag
      exact ⟨k, q, by rw [hruns, List.getElem?_set_ne hne]; exact hk, hjob, hflag⟩
    rw [htracker] at hrunning
    by_cases hjob : r.job = name
    · rw [hjob, Function.update_self] at hrunning
      rcases hadv.flagged hrunning with hflag | ⟨hold, hnot⟩
      · exact ⟨i, r', hset, hadv.job_eq.1.trans hjob, hflag⟩
      · rw [hjob] at hold
        exact hother hold fun _ => hnot
    · rw [Function.update_of_ne (Ne.symm hjob)] at hrunning
      exact hother hrunning fun e => absurd e hjob
  | update n now _ _ _ hruns _ htracker =>
    rw [hruns]
    apply h
    rw [htracker] at hrunning
    by_cases hn : name = n
    · subst hn
      rwa [Function.update_self] at hrunning
    · rwa [Function.update_of_ne hn] at hrunning
  | frame hruns _ htracker =>
    rw [htracker] at hrunning
    rw [hruns]
    exact h hrunning

theorem Keeps.step (h : Keeps name c s) (op : Op) : Keeps name c (s.step op) := by
  obtain ⟨hturn, hcfg, hjobs⟩ := s.step_turn op
  refine ⟨by rw [hcfg]; exact h.daily, by rw [hjobs]; exact h.known, ?_, ?_,
    flagged_step op h.flagged⟩
  · cases hturn with
    | begin _ _ hcheck _ => rw [hcheck]; exact s.jobs.keys_nodup
    | check n now _ _ hcheck _ => rw [hcheck]; exact h.nodup.erase n
    | update n now _ _ _ hcheck _ => rw [hcheck]; exact List.nodup_nil
    | frame hcheck _ => rw [hcheck]; exact h.nodup
  · cases hturn with
    | begin _ _ hcheck hupdate => rw [hcheck, hupdate]; exact fun n hn => hn
    | check n now _ _ hcheck hupdate =>
      rw [hcheck, hupdate]
      exact fun m hm => h.later m (List.mem_of_mem_erase hm)
    | update n now _ _ _ hcheck _ => rw [hcheck]; exact fun m hm => absurd hm List.not_mem_nil
    | frame hcheck hupdate => rw [hcheck, hupdate]; exact h.later

theorem Keeps.elapse (h : Keeps name c s) (e : Event) : Keeps name c (elapse s e) := h.step _

theorem nextRun_step (h : Keeps name c s) (op : Op) :
    ((s.step op).tracker name).nextRun = (s.tracker name).nextRun ∨
      ∃ now, op = .update name now ∧ s.Recomputing name ∧
        ((s.step op).tracker name).nextRun = nextRunTime c now := by
  cases s.step_effect op with
  | spawn job syncer _ _ _ htracker | frame _ _ htracker => exact .inl (by rw [htracker])
  | advance i r r' state _ hadv _ htracker =>
    left
    rw [htracker]
    by_cases hjob : name = r.job
    · subst hjob
      rw [Function.update_self, hadv.nextRun_eq]
    · rw [Function.update_of_ne hjob]
  | update n now hop hchecked hmem _ _ htracker =>
    by_cases hn : name = n
    · subst hn
      refine .inr ⟨now, hop, ⟨by rw [hchecked]; exact List.not_mem_nil, hmem⟩, ?_⟩
      rw [htracker, Function.update_self]
      exact nextRunOf_of_daily h.daily _ now
    · exact .inl (by rw [htracker, Function.update_of_ne hn])

theorem not_recomputing_step {op : Op} (h : ¬ s.Recomputing name)
    (hop : ∀ now, op = .check name now → name ∉ s.toCheck) : ¬ (s.step op).Recomputing name := by
  rintro ⟨hnot, hmem⟩
  cases (s.step_turn op).1 with
  | begin _ _ hcheck hupdate =>
    rw [hcheck] at hnot
    rw [hupdate] at hmem
    exact hnot hmem
  | check n now hop' hn hcheck hupdate =>
    rw [hcheck] at hnot
    rw [hupdate] at hmem
    have hne : name ≠ n := by
      rintro rfl
      exact hop now hop' hn
    exact h ⟨fun hin => hnot ((List.mem_erase_of_ne hne).mpr hin), hmem⟩
  | update n now _ hchecked _ _ hupdate =>
    rw [hupdate] at hmem
    exact h ⟨by rw [hchecked]; exact List.not_mem_nil, List.mem_of_mem_erase hmem⟩
  | frame hcheck hupdate =>
    rw [hcheck] at hnot
    rw [hupdate] at hmem
    exact h ⟨hnot, hmem⟩

theorem recomputing_of_check (h : Keeps name c s) {now : ℤ} (hmem : name ∈ s.toCheck) :
    (s.step (.check name now)).Recomputing name := by
  have hcheck : (s.step (.check name now)).toCheck = s.toCheck.erase name := by
    simp only [Scheduler.step, if_pos (List.contains_iff_mem.mpr hmem)]
  have hupdate : (s.step (.check name now)).toUpdate = s.toUpdate := by
    simp only [Scheduler.step, if_pos (List.contains_iff_mem.mpr hmem)]
    exact (s.checkJob_frame name now).1
  rw [Scheduler.Recomputing, hcheck, hupdate]
  exact ⟨h.nodup.not_mem_erase, h.later name hmem⟩

theorem recomputing_step (h : Keeps name c s) (op : Op) (hre : s.Recomputing name) :
    (s.step op).Recomputing name ∨ ∃ now, op = .update name now ∧
      ((s.step op).tracker name).nextRun = nextRunTime c now := by
  obtain ⟨hnot, hmem⟩ := hre
  cases (s.step_turn op).1 with
  | begin _ hupdated _ _ =>
    rw [hupdated] at hmem
    cases hmem
  | check n now _ _ hcheck hupdate =>
    left
    rw [Scheduler.Recomputing, hcheck, hupdate]
    exact ⟨fun hin => hnot (List.mem_of_mem_erase hin), hmem⟩
  | update n now hop hchecked _ hcheck hupdate =>
    by_cases hn : name = n
    · subst hn
      subst hop
      refine .inr ⟨now, rfl, ?_⟩
      have hguard : (s.toCheck.isEmpty && s.toUpdate.contains name) = true := by
        rw [Bool.and_eq_true, List.isEmpty_iff, List.contains_iff_mem]
        exact ⟨hchecked, hmem⟩
      simp only [Scheduler.step, if_pos hguard, Scheduler.updateNextRun_eq, Scheduler.setTracker,
        Function.update_self]
      exact nextRunOf_of_daily h.daily _ now
    · left
      rw [Scheduler.Recomputing, hcheck, hupdate]
      exact ⟨List.not_mem_nil, (List.mem_erase_of_ne hn).mpr hmem⟩
  | frame hcheck hupdate =>
    left
    rw [Scheduler.Recomputing, hcheck, hupdate]
    exact ⟨hnot, hmem⟩

theorem quiet_step {op : Op} (hquiet : ¬ s.InProgress name)
    (hop : ∀ syncer, s.starts op ≠ some (name, syncer)) :
    ¬ (s.step op).InProgress name ∧
      ((s.step op).tracker name).lastRun = (s.tracker name).lastRun ∧
      ((s.step op).tracker name).running = (s.tracker name).running := by
  have hdone : ∀ r ∈ s.runs, r.job = name → r.stage = .reported ∨ r.stage = .ended := by
    intro r hr hjob
    by_contra hnot
    push Not at hnot
    exact hquiet ⟨r, hr, hjob, hnot⟩
  cases s.step_effect op with
  | spawn job syncer hstarts hruns _ htracker =>
    refine ⟨?_, by rw [htracker], by rw [htracker]⟩
    rintro ⟨r, hr, hjob, hstage⟩
    rw [hruns, List.mem_append, List.mem_singleton] at hr
    rcases hr with hr | rfl
    · exact hquiet ⟨r, hr, hjob, hstage⟩
    · exact hop syncer (by rw [hstarts, ← hjob])
  | advance i r r' state hi hadv hruns htracker =>
    have hr := List.mem_of_getElem? hi
    constructor
    · rintro ⟨q, hq, hjob, hstage⟩
      rw [hruns] at hq
      rcases List.mem_or_eq_of_mem_set hq with hq | rfl
      · exact hquiet ⟨q, hq, hjob, hstage⟩
      · rcases (hadv.of_reported (hdone r hr (hadv.job_eq.1.symm.trans hjob))).2 with h | h
        · exact hstage.1 h
        · exact hstage.2 h
    · by_cases hjob : name = r.job
      · have hstate := (hadv.of_reported (hdone r hr hjob.symm)).1
        rw [htracker, hjob, Function.update_self, hstate]
        exact ⟨rfl, rfl⟩
      · rw [htracker, Function.update_of_ne hjob]
        exact ⟨rfl, rfl⟩
  | update n now _ _ _ hruns _ htracker =>
    refine ⟨by rw [Scheduler.InProgress, hruns]; exact hquiet, ?_⟩
    rw [htracker]
    by_cases hn : name = n
    · subst hn
      rw [Function.update_self]
      exact ⟨rfl, rfl⟩
    · rw [Function.update_of_ne hn]
      exact ⟨rfl, rfl⟩
  | frame hruns _ htracker =>
    exact ⟨by rw [Scheduler.InProgress, hruns]; exact hquiet, by rw [htracker], by rw [htracker]⟩

end Step

section Days

variable {name : Bytes} {c : DailyJobConfig} {s : Scheduler} {d : ℤ}

def Scheduler.endedBefore (s : Scheduler) (name : Bytes) (d : ℤ) : Bool :=
  (s.tracker name).lastRun.all fun last => dayOf last < d

theorem isTick_iff {e : Event} :
    isTick name s e = true ↔ e.2 = .check name ∧ name ∈ s.toCheck := by
  simp [isTick]

theorem isStart_iff (h : Keeps name c s) {e : Event} : isStart name s e = true ↔
    isTick name s e = true ∧ (s.tracker name).running = false ∧
      shouldRunDaily (s.tracker name) c e.1 = true := by
  have hrun := shouldRun_of_daily h.daily (s.tracker name) e.1
  rw [isTick_iff, isStart, Bool.and_eq_true, decide_eq_true_eq, and_assoc, and_congr_right_iff]
  intro he
  rw [he, Action.op, Scheduler.starts, hrun]
  constructor
  · intro hsome
    split_ifs at hsome with hcond
    · simpa using hcond
    · cases hsome
  · intro hcond
    rw [if_pos (by simpa using hcond), Option.isSome_map]
    exact h.known

theorem of_isStart (hc : c.ClockTime) (h : Keeps name c s) {e : Event}
    (hstart : isStart name s e = true) :
    c.onDay (dayOf e.1) = true ∧ c.slot (dayOf e.1) ≤ e.1 := by
  obtain ⟨-, -, hrun⟩ := (isStart_iff h).mp hstart
  obtain ⟨-, -, hday, hslot, -⟩ := (shouldRunDaily_iff hc _ _).mp hrun
  exact ⟨hday, hslot⟩

theorem of_mem_starts (hc : c.ClockTime) (es : List Event) (h : Keeps name c s) {t : ℤ}
    (ht : t ∈ timesOf (isStart name) s es) : c.onDay (dayOf t) = true ∧ c.slot (dayOf t) ≤ t := by
  induction es generalizing s with
  | nil => cases ht
  | cons e es ih =>
    rw [timesOf] at ht
    split_ifs at ht with hstart
    · rcases List.mem_cons.mp ht with rfl | ht
      · exact of_isStart hc h hstart
      · exact ih (h.elapse e) ht
    · exact ih (h.elapse e) ht

def Scheduler.Served (s : Scheduler) (name : Bytes) (d : ℤ) : Prop :=
  s.Recomputing name ∨ ∃ next, (s.tracker name).nextRun = some next ∧ (d + 1) * oneDay ≤ next

variable (hc : c.ClockTime) (henabled : c.enabled = true) (hd : c.onDay d = true)

include hc

include henabled hd in
theorem served_step (h : Keeps name c s) {e : Event} (hserved : s.Served name d)
    (he : c.slot d ≤ e.1) : (elapse s e).Served name d := by
  have hupdate : ∀ now, e.2.op e.1 = .update name now →
      ((elapse s e).tracker name).nextRun = nextRunTime c now → (elapse s e).Served name d := by
    intro now hop hnext
    obtain ⟨next, hsome, hlater⟩ := nextRunTime_later hc henabled hd he
    exact .inr ⟨next, by rw [hnext, Action.op_eq_update hop, hsome], hlater⟩
  rcases hserved with hre | ⟨next, hnext, hlater⟩
  · rcases recomputing_step h (e.2.op e.1) hre with hre | ⟨now, hop, hnext⟩
    · exact .inl hre
    · exact hupdate now hop hnext
  · rcases nextRun_step h (e.2.op e.1) with hsame | ⟨now, hop, -, hnext'⟩
    · exact .inr ⟨next, hsame.trans hnext, hlater⟩
    · exact hupdate now hop hnext'

theorem not_isStart_of_served (h : Keeps name c s) {e : Event} (hserved : s.Served name d)
    (he : dayOf e.1 = d) : isStart name s e = false := by
  by_contra hstart
  rw [Bool.not_eq_false, isStart_iff h, isTick_iff] at hstart
  obtain ⟨⟨-, hmem⟩, -, hrun⟩ := hstart
  rcases hserved with ⟨hnot, -⟩ | ⟨next, hnext, hlater⟩
  · exact hnot hmem
  · obtain ⟨-, hdue, -⟩ := (shouldRunDaily_iff hc _ _).mp hrun
    have hle := hdue next hnext
    have hlt := (dayOf_eq_iff.mp he).2
    omega

include henabled hd in
theorem no_start_of_served (es : List Event) (h : Keeps name c s) (hserved : s.Served name d)
    (hes : ∀ e ∈ es, c.slot d ≤ e.1) :
    (timesOf (isStart name) s es).filter (fun t => dayOf t = d) = [] := by
  induction es generalizing s with
  | nil => rfl
  | cons e es ih =>
    have hrest := ih (h.elapse e) (served_step hc henabled hd h hserved (hes e List.mem_cons_self))
      fun f hf => hes f (List.mem_cons_of_mem _ hf)
    rw [timesOf]
    split_ifs with hstart
    · have hday : dayOf e.1 ≠ d := by
        intro hday
        rw [not_isStart_of_served hc h hserved hday] at hstart
        cases hstart
      rw [List.filter_cons_of_neg (by simpa using hday)]
      exact hrest
    · exact hrest

structure Scheduler.Waiting (s : Scheduler) (name : Bytes) (due : ℤ) : Prop where
  quiet : ¬ s.InProgress name
  computed : ¬ s.Recomputing name
  nextRun : ∀ next ∈ (s.tracker name).nextRun, next ≤ due

omit hc in
theorem Scheduler.Waiting.not_running {due : ℤ} (hwait : s.Waiting name due)
    (h : Keeps name c s) : (s.tracker name).running = false := by
  by_contra hrunning
  obtain ⟨i, r, hi, hjob, hflag⟩ := h.flagged (by simpa using hrunning)
  refine hwait.quiet ⟨r, List.mem_of_getElem? hi, hjob, ?_, ?_⟩
  · intro hstage
    rw [hstage] at hflag
    cases hflag
  · intro hstage
    rw [hstage] at hflag
    cases hflag

omit hc in
theorem Scheduler.Waiting.step {due : ℤ} (hwait : s.Waiting name due) (h : Keeps name c s)
    {e : Event} (htick : isTick name s e = false) (htrigger : e.2 ≠ .trigger name) :
    (elapse s e).Waiting name due ∧ (elapse s e).endedBefore name d = s.endedBefore name d := by
  have hnotick : ∀ now, e.2.op e.1 = .check name now → name ∉ s.toCheck := by
    intro now hop hmem
    rw [isTick_iff.mpr ⟨Action.op_eq_check hop, hmem⟩] at htick
    cases htick
  have hnostart : ∀ syncer, s.starts (e.2.op e.1) ≠ some (name, syncer) := by
    intro syncer hstarts
    rcases Scheduler.of_starts hstarts with ⟨now, hop, hmem⟩ | hop
    · exact hnotick now hop hmem
    · exact htrigger (Action.op_eq_trigger hop)
  obtain ⟨hquiet, hlast, -⟩ := quiet_step hwait.quiet hnostart
  refine ⟨⟨hquiet, not_recomputing_step hwait.computed hnotick, ?_⟩, ?_⟩
  · rcases nextRun_step h (e.2.op e.1) with hsame | ⟨now, -, hre, -⟩
    · rw [elapse, hsame]
      exact hwait.nextRun
    · exact absurd hre hwait.computed
  · rw [Scheduler.endedBefore, Scheduler.endedBefore, elapse, hlast]

include henabled hd in
theorem isStart_of_waiting (h : Keeps name c s) (hwait : s.Waiting name (c.slot d)) {e : Event}
    (htick : isTick name s e = true) (hslot : c.slot d ≤ e.1) (hday : dayOf e.1 = d) :
    isStart name s e = s.endedBefore name d := by
  rw [Bool.eq_iff_iff, isStart_iff h, shouldRunDaily_iff hc, hday]
  have hnext : ∀ next ∈ (s.tracker name).nextRun, next ≤ e.1 :=
    fun next hn => (hwait.nextRun next hn).trans hslot
  simp only [htick, hwait.not_running h, henabled, hd, hslot, true_and, Scheduler.endedBefore,
    Option.all_eq_true, decide_eq_true_eq]
  exact ⟨fun hall => hall.2, fun hall => ⟨hnext, hall⟩⟩

include henabled hd in
theorem starts_of_waiting (es : List Event) (h : Keeps name c s)
    (hwait : s.Waiting name (c.slot d)) (hordered : es.Pairwise fun e f => e.1 ≤ f.1)
    (hes : ∀ e ∈ es, c.slot d ≤ e.1) (htrigger : ∀ e ∈ es, dayOf e.1 = d → e.2 ≠ .trigger name)
    {a : ℤ} {as : List ℤ} (hticks : timesOf (isTick name) s es = a :: as) (ha : dayOf a = d) :
    (timesOf (isStart name) s es).filter (fun t => dayOf t = d) =
      if s.endedBefore name d then [a] else [] := by
  induction es generalizing s with
  | nil => cases hticks
  | cons e es ih =>
    obtain ⟨hfirst, hrest⟩ := List.pairwise_cons.mp hordered
    have hslot := hes e List.mem_cons_self
    have hslots : ∀ f ∈ es, c.slot d ≤ f.1 := fun f hf => hes f (List.mem_cons_of_mem _ hf)
    cases htick : isTick name s e with
    | true =>
      -- the tick: whatever it decides, the job is not due again on this day
      rw [timesOf, if_pos htick] at hticks
      obtain ⟨rfl, -⟩ := List.cons.inj hticks
      obtain ⟨hcheck, hmem⟩ := isTick_iff.mp htick
      have hserved : (elapse s e).Served name d := by
        rw [elapse, hcheck]
        exact .inl (recomputing_of_check h hmem)
      have hnone := no_start_of_served hc henabled hd es (h.elapse e) hserved hslots
      rw [timesOf, isStart_of_waiting hc henabled hd h hwait htick hslot ha]
      cases s.endedBefore name d with
      | true =>
        rw [if_pos rfl, if_pos rfl, List.filter_cons_of_pos (by simpa using ha), hnone]
      | false =>
        rw [if_neg Bool.false_ne_true, if_neg Bool.false_ne_true]
        exact hnone
    | false =>
      have hnotick : ¬ isTick name s e = true := by rw [htick]; exact Bool.false_ne_true
      have hnostart : ¬ isStart name s e = true := fun hstart =>
        hnotick ((isStart_iff h).mp hstart).1
      rw [timesOf, if_neg hnotick] at hticks
      -- the step is between the slot and the tick, so on the day
      have hday : dayOf e.1 = d := by
        obtain ⟨f, hf, hfa⟩ := mem_of_mem_timesOf (t := a) (hticks ▸ List.mem_cons_self)
        have hhigh := dayOf_mono (hfirst f hf)
        rw [hfa, ha] at hhigh
        exact le_antisymm hhigh (DailyJobConfig.le_dayOf_of_slot_le hc hslot)
      obtain ⟨hwait', hended⟩ := hwait.step (d := d) h htick (htrigger e List.mem_cons_self hday)
      rw [timesOf, if_neg hnostart, ← hended]
      exact ih (h.elapse e) hwait' hrest hslots
        (fun f hf => htrigger f (List.mem_cons_of_mem _ hf)) hticks

end Days

section Start

variable {cfg : SchedulerConfig} {jobs : Dict Bytes Bytes} {name : Bytes} {c : DailyJobConfig}
  {s : Scheduler} {t : ℤ}

theorem foldl_updateNextRun (start : ℤ) (names : List Bytes)
    (hdaily : dailyConfig s.cfg name = some c)
    (hname : name ∈ names ∨ (s.tracker name).nextRun = nextRunTime c start) :
    let s' := names.foldl (fun s n => s.updateNextRun n start) s
    (s'.tracker name).nextRun = nextRunTime c start ∧
      (s'.tracker name).running = (s.tracker name).running ∧
      s'.cfg = s.cfg ∧ s'.jobs = s.jobs ∧ s'.toCheck = s.toCheck := by
  induction names generalizing s with
  | nil => exact ⟨hname.resolve_left List.not_mem_nil, rfl, rfl, rfl, rfl⟩
  | cons n names ih =>
    have hupdated : name ∈ names ∨
        ((s.updateNextRun n start).tracker name).nextRun = nextRunTime c start := by
      rw [s.tracker_updateNextRun]
      by_cases hn : name = n
      · subst hn
        rw [Function.update_self]
        exact .inr (nextRunOf_of_daily hdaily _ start)
      · rw [Function.update_of_ne hn]
        exact hname.imp_left fun h => (List.mem_cons.mp h).resolve_left hn
    have hrunning : ((s.updateNextRun n start).tracker name).running =
        (s.tracker name).running := by
      rw [s.tracker_updateNextRun]
      by_cases hn : name = n
      · subst hn
        rw [Function.update_self]
      · rw [Function.update_of_ne hn]
    have hframe : (s.updateNextRun n start).cfg = s.cfg ∧ (s.updateNextRun n start).jobs = s.jobs ∧
        (s.updateNextRun n start).toCheck = s.toCheck := by
      rw [s.updateNextRun_eq]
      exact ⟨rfl, rfl, rfl⟩
    have hrest := ih (s := s.updateNextRun n start) (by rw [hframe.1]; exact hdaily) hupdated
    rw [hrunning, hframe.1, hframe.2.1, hframe.2.2] at hrest
    exact hrest

theorem newScheduler_keeps (loaded : Bytes → JobState) (start : ℤ) (hname : name ∈ jobs.keys)
    (hdaily : dailyConfig cfg name = some c) :
    Keeps name c (newScheduler cfg jobs loaded start) ∧
      ((newScheduler cfg jobs loaded start).tracker name).nextRun = nextRunTime c start := by
  obtain ⟨hnext, hrunning, hcfg, hjobs, hcheck⟩ :=
    foldl_updateNextRun start jobs.keys (s := loadTrackers cfg jobs loaded) hdaily (.inl hname)
  refine ⟨⟨?_, ?_, ?_, ?_, ?_⟩, hnext⟩
  · rw [newScheduler, hcfg]
    exact hdaily
  · rw [newScheduler, hjobs]
    exact AList.lookup_isSome.mpr (AList.mem_keys.mpr hname)
  · rw [newScheduler, hcheck]
    exact List.nodup_nil
  · rw [newScheduler, hcheck]
    exact fun n hn => absurd hn List.not_mem_nil
  · intro htrue
    rw [newScheduler, hrunning] at htrue
    simp only [loadTrackers, if_pos (List.contains_iff_mem.mpr hname)] at htrue
    cases htrue

theorem nextRun_run (es : List Event) (h : Keeps name c s)
    (hnext : ∃ u, u < t ∧ (s.tracker name).nextRun = nextRunTime c u) (hes : ∀ e ∈ es, e.1 < t) :
    Keeps name c (run elapse s es) ∧
      ∃ u, u < t ∧ ((run elapse s es).tracker name).nextRun = nextRunTime c u := by
  induction es generalizing s with
  | nil => exact ⟨h, hnext⟩
  | cons e es ih =>
    rw [run_cons]
    refine ih (h.elapse e) ?_ fun f hf => hes f (List.mem_cons_of_mem _ hf)
    rcases nextRun_step h (e.2.op e.1) with hsame | ⟨now, hop, -, hnow⟩
    · rw [elapse, hsame]
      exact hnext
    · rw [elapse, hnow, Action.op_eq_update hop]
      exact ⟨e.1, hes e List.mem_cons_self, rfl⟩

end Start

structure Operates (name : Bytes) (s : Scheduler) (start stop : ℤ) (es : List Event) : Prop where
  ordered : es.Pairwise fun e f => e.1 ≤ f.1
  since : ∀ e ∈ es, start ≤ e.1
  everyMinute : ∀ t, start ≤ t → t + oneMinute ≤ stop →
    ∃ a ∈ timesOf (isTick name) s es, t < a ∧ a ≤ t + oneMinute

def startsOn (name : Bytes) (s : Scheduler) (es : List Event) (d : ℤ) : List ℤ :=
  (timesOf (isStart name) s es).filter fun t => dayOf t = d

def RunsOnce (name : Bytes) (s : Scheduler) (es : List Event) (slot d : ℤ) : Prop :=
  ∃ a, (timesOf (isTick name) s es).find? (fun t => slot ≤ t) = some a ∧
    startsOn name s es d = [a]

def stateAt (s : Scheduler) (es : List Event) (t : ℤ) : Scheduler :=
  run elapse s (es.takeWhile fun e => e.1 < t)

theorem stateAt_keeps {name : Bytes} {c : DailyJobConfig} {s : Scheduler} (h : Keeps name c s)
    {t : ℤ} (hnext : ∃ u, u < t ∧ (s.tracker name).nextRun = nextRunTime c u) (es : List Event) :
    Keeps name c (stateAt s es t) ∧
      ∃ u, u < t ∧ ((stateAt s es t).tracker name).nextRun = nextRunTime c u :=
  nextRun_run _ h hnext fun e he => by simpa using List.mem_takeWhile_imp he

theorem timesOf_split (kind : Scheduler → Event → Bool) (s : Scheduler) (es : List Event) (t : ℤ) :
    timesOf kind s es = timesOf kind s (es.takeWhile fun e => e.1 < t) ++
      timesOf kind (stateAt s es t) (es.dropWhile fun e => e.1 < t) := by
  rw [stateAt, ← timesOf_append, List.takeWhile_append_dropWhile]

theorem lt_of_mem_timesOf_takeWhile {kind : Scheduler → Event → Bool} {s : Scheduler}
    {es : List Event} {t u : ℤ} (h : u ∈ timesOf kind s (es.takeWhile fun e => e.1 < t)) :
    u < t := by
  obtain ⟨e, he, rfl⟩ := mem_of_mem_timesOf h
  simpa using List.mem_takeWhile_imp he

theorem firstTick {name : Bytes} {c : DailyJobConfig} (hc : c.ClockTime) {s : Scheduler}
    {start stop d : ℤ} {es : List Event} (hop : Operates name s start stop es)
    (hstart : start < c.slot d) (hstop : c.slot d + oneMinute ≤ stop) :
    ∃ a as, timesOf (isTick name) (stateAt s es (c.slot d))
        (es.dropWhile fun e => e.1 < c.slot d) = a :: as ∧ dayOf a = d ∧
      (timesOf (isTick name) s es).find? (fun t => c.slot d ≤ t) = some a := by
  obtain ⟨hlow, hhigh⟩ := DailyJobConfig.slot_bounds hc d
  obtain ⟨b, hb, hlt, hle⟩ := hop.everyMinute (c.slot d - 1) (by omega) (by omega)
  have hsplit := timesOf_split (isTick name) s es (c.slot d)
  have hlater : b ∈ timesOf (isTick name) (stateAt s es (c.slot d))
      (es.dropWhile fun e => e.1 < c.slot d) := by
    rw [hsplit, List.mem_append] at hb
    rcases hb with hb | hb
    · have := lt_of_mem_timesOf_takeWhile hb
      omega
    · exact hb
  have hfrom : ∀ t ∈ timesOf (isTick name) (stateAt s es (c.slot d))
      (es.dropWhile fun e => e.1 < c.slot d), c.slot d ≤ t := by
    intro t ht
    obtain ⟨e, he, rfl⟩ := mem_of_mem_timesOf ht
    exact le_of_mem_dropWhile hop.ordered he
  have hsorted : (timesOf (isTick name) (stateAt s es (c.slot d))
      (es.dropWhile fun e => e.1 < c.slot d)).Pairwise (· ≤ ·) := by
    apply List.Pairwise.sublist (timesOf_sublist _ _ _)
    rw [List.pairwise_map]
    exact hop.ordered.sublist (List.dropWhile_sublist _)
  cases hticks : timesOf (isTick name) (stateAt s es (c.slot d))
      (es.dropWhile fun e => e.1 < c.slot d) with
  | nil =>
    rw [hticks] at hlater
    cases hlater
  | cons a as =>
    rw [hticks] at hlater hfrom hsorted
    have ha := hfrom a List.mem_cons_self
    have hab : a ≤ b := by
      rcases List.mem_cons.mp hlater with rfl | hmem
      · exact le_rfl
      · exact (List.pairwise_cons.mp hsorted).1 b hmem
    refine ⟨a, as, rfl, dayOf_eq_iff.mpr ⟨by omega, by omega⟩, ?_⟩
    rw [hsplit, hticks, List.find?_append, List.find?_eq_none.mpr, Option.none_or,
      List.find?_cons_of_pos (by simpa using ha)]
    intro t ht
    have := lt_of_mem_timesOf_takeWhile ht
    simpa using this

theorem startsOn_eq {name : Bytes} {c : DailyJobConfig} (hc : c.ClockTime) {s : Scheduler}
    (h : Keeps name c s) (es : List Event) (d : ℤ) :
    startsOn name s es d = startsOn name (stateAt s es (c.slot d))
      (es.dropWhile fun e => e.1 < c.slot d) d := by
  rw [startsOn, timesOf_split (isStart name) s es (c.slot d), List.filter_append,
    List.filter_eq_nil_iff.mpr, List.nil_append, startsOn]
  intro t ht hday
  have hslot := (of_mem_starts hc _ h ht).2
  rw [of_decide_eq_true hday] at hslot
  exact absurd (lt_of_mem_timesOf_takeWhile ht) hslot.not_gt

def midnightMovies : SchedulerConfig where
  moviesSync := ⟨true, [0, 1, 2, 3, 4, 5, 6], 0, 1⟩
  tvSync := ⟨false, [], 0, 0⟩
  watchlistSync := ⟨false, 0⟩
  tvChannels := []

def pastMidnight (seconds : ℤ) : ℤ := oneDay + seconds * 1000000000

def midnightScheduler : Scheduler :=
  newScheduler midnightMovies movieJobs (fun _ => .zero) (pastMidnight (-20))

def tickAt (t : ℤ) : List Event :=
  [(t, .tick), (t, .check (ascii "movies")), (t, .update (ascii "movies"))]

def quietNight : List Event := tickAt (pastMidnight 30) ++ tickAt (pastMidnight 80)

def busyNight : List Event :=
  (pastMidnight (-10), .trigger (ascii "movies")) ::
    (List.replicate 2 (pastMidnight (-10), .proceed 0 .ok) ++
      List.replicate 4 (pastMidnight 20, .proceed 0 .ok) ++ quietNight)

theorem clockTime_midnight : midnightMovies.moviesSync.ClockTime := by
  constructor <;> decide

theorem operates_of_ticks {es : List Event} (hordered : es.Pairwise fun e f => e.1 ≤ f.1)
    (hsince : ∀ e ∈ es, pastMidnight (-20) ≤ e.1)
    (hticks : timesOf (isTick (ascii "movies")) midnightScheduler es =
      [pastMidnight 30, pastMidnight 80]) :
    Operates (ascii "movies") midnightScheduler (pastMidnight (-20)) (pastMidnight 120) es := by
  refine ⟨hordered, hsince, ?_⟩
  intro t hlow hhigh
  rw [hticks]
  unfold pastMidnight oneDay oneHour oneMinute at *
  by_cases ht : t < 24 * (60 * (60 * 1000000000)) + 30 * 1000000000
  · exact ⟨_, List.mem_cons_self, ht, by omega⟩
  · exact ⟨_, List.mem_cons_of_mem _ List.mem_cons_self, by omega, by omega⟩

theorem operates_quietNight :
    Operates (ascii "movies") midnightScheduler (pastMidnight (-20)) (pastMidnight 120)
      quietNight :=
  operates_of_ticks (by decide +kernel) (by decide +kernel) (by decide +kernel)

theorem operates_busyNight :
    Operates (ascii "movies") midnightScheduler (pastMidnight (-20)) (pastMidnight 120) busyNight :=
  operates_of_ticks (by decide +kernel) (by decide +kernel) (by decide +kernel)

/-- On which of its days a daily job is started. -/
theorem days_served_iff (cfg : SchedulerConfig) (jobs : Dict Bytes Bytes)
    (loaded : Bytes → JobState) (start stop : ℤ) (name : Bytes) (hname : name ∈ jobs.keys)
    (c : DailyJobConfig) (hdaily : dailyConfig cfg name = some c) (hc : c.ClockTime)
    (henabled : c.enabled = true) (es : List Event)
    (hop : Operates name (newScheduler cfg jobs loaded start) start stop es) (d : ℤ) :
    (c.onDay d = false → startsOn name (newScheduler cfg jobs loaded start) es d = []) ∧
    (c.onDay d = true → start < c.slot d → c.slot d + oneMinute ≤ stop →
      (∀ e ∈ es, dayOf e.1 = d → e.2 ≠ .trigger name) →
      ¬ (stateAt (newScheduler cfg jobs loaded start) es (c.slot d)).InProgress name →
      (RunsOnce name (newScheduler cfg jobs loaded start) es (c.slot d) d ↔
        (stateAt (newScheduler cfg jobs loaded start) es (c.slot d)).endedBefore name d = true ∧
          ¬ (stateAt (newScheduler cfg jobs loaded start) es (c.slot d)).Recomputing name)) := by
  obtain ⟨hkeeps, hnext⟩ := newScheduler_keeps loaded start hname hdaily
  constructor
  · intro hoff
    rw [startsOn, List.filter_eq_nil_iff]
    intro t ht hday
    have hon := (of_mem_starts hc es hkeeps ht).1
    rw [of_decide_eq_true hday, hoff] at hon
    cases hon
  · intro hon hstart hstop htrigger hquiet
    generalize newScheduler cfg jobs loaded start = s at hop hkeeps hnext hquiet ⊢
    obtain ⟨a, as, hticks, haday, hfirst⟩ := firstTick hc hop hstart hstop
    obtain ⟨hslotKeeps, u, hu, hslotNext⟩ := stateAt_keeps hkeeps ⟨start, hstart, hnext⟩ es
    have hafter : ∀ e ∈ es.dropWhile fun e => e.1 < c.slot d, c.slot d ≤ e.1 :=
      fun e he => le_of_mem_dropWhile hop.ordered he
    have hstarts := startsOn_eq hc hkeeps es d
    by_cases hre : (stateAt s es (c.slot d)).Recomputing name
    · -- the next run is computed after the slot, and the day is lost
      have hnone := no_start_of_served hc henabled hon _ hslotKeeps (.inl hre) hafter
      constructor
      · rintro ⟨b, -, hb⟩
        rw [hstarts, startsOn, hnone] at hb
        cases hb
      · exact fun h => absurd hre h.2
    · have hwait : (stateAt s es (c.slot d)).Waiting name (c.slot d) := by
        refine ⟨hquiet, hre, ?_⟩
        intro next hmem
        obtain ⟨next', hsome, hle⟩ := nextRunTime_le hc henabled hon hu
        rw [hslotNext, hsome] at hmem
        obtain rfl := Option.some.inj hmem
        exact hle
      have hserve := starts_of_waiting hc henabled hon _ hslotKeeps hwait
        (hop.ordered.sublist (List.dropWhile_sublist _)) hafter
        (fun e he => htrigger e ((List.dropWhile_sublist _).subset he)) hticks haday
      rw [RunsOnce, hstarts, startsOn]
      constructor
      · rintro ⟨b, -, hb⟩
        refine ⟨?_, hre⟩
        by_contra hended
        rw [hserve, if_neg hended] at hb
        cases hb
      · rintro ⟨hended, -⟩
        refine ⟨a, hfirst, ?_⟩
        rw [hserve, if_pos hended]

theorem movies_served_after_midnight :
    RunsOnce (ascii "movies") midnightScheduler quietNight
      (midnightMovies.moviesSync.slot 1) 1 := by
  have hserved := (days_served_iff midnightMovies movieJobs (fun _ => .zero) (pastMidnight (-20))
    (pastMidnight 120) (ascii "movies") (by decide) midnightMovies.moviesSync rfl clockTime_midnight
    rfl quietNight operates_quietNight 1).2
  exact (hserved (by decide) (by decide) (by decide) (by decide +kernel) (by decide +kernel)).mpr
    (by decide +kernel)

theorem run_past_midnight_skips_day :
    Operates (ascii "movies") midnightScheduler (pastMidnight (-20)) (pastMidnight 120) busyNight ∧
      (∀ e ∈ busyNight, dayOf e.1 = 1 → e.2 ≠ .trigger (ascii "movies")) ∧
      ¬ (stateAt midnightScheduler busyNight (midnightMovies.moviesSync.slot 1)).InProgress
        (ascii "movies") ∧
      ¬ RunsOnce (ascii "movies") midnightScheduler busyNight
        (midnightMovies.moviesSync.slot 1) 1 := by
  refine ⟨operates_busyNight, by decide +kernel, by decide +kernel, ?_⟩
  have hnone : startsOn (ascii "movies") midnightScheduler busyNight 1 = [] := by decide +kernel
  rintro ⟨a, -, hstarts⟩
  rw [hnone] at hstarts
  cases hstarts

end GoStream.Scheduling
