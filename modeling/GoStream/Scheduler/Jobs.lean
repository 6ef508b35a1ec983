import GoStream.Foundations.Maps
import GoStream.Foundations.Run
import GoStream.Foundations.Text
import GoStream.Utils.Strings

/-!
# The scheduler and the runs it starts
-/

namespace GoStream.Scheduling

open Foundations

def oneMinute : ℤ := 60 * 1000000000

def oneHour : ℤ := 60 * oneMinute

def oneDay : ℤ := 24 * oneHour

def dayOf (t : ℤ) : ℤ := t / oneDay

def weekday (t : ℤ) : ℤ := (dayOf t + 1) % 7

def date (d hours minutes : ℤ) : ℤ := d * oneDay + hours * oneHour + minutes * oneMinute

structure DailyJobConfig where
  enabled : Bool
  daysOfWeek : List ℤ
  hour : ℤ
  minute : ℤ

structure TVChannelSchedule extends DailyJobConfig where
  name : Bytes

structure WatchlistSyncConfig where
  enabled : Bool
  intervalHours : ℤ

structure SchedulerConfig where
  moviesSync : DailyJobConfig
  tvSync : DailyJobConfig
  watchlistSync : WatchlistSyncConfig
  tvChannels : List TVChannelSchedule

structure JobState where
  lastRun : Option ℤ
  nextRun : Option ℤ
  running : Bool
  lastError : Bytes
  lastStatus : Bytes

def JobState.zero : JobState := ⟨none, none, false, [], []⟩

inductive Result where
  | ok
  | error (msg : Bytes)
  | panicked (value : Bytes)
  deriving DecidableEq, Repr

inductive Stage where
  | spawned
  | started
  | inside
  | returned (r : Result)
  | cleared (r : Result)
  | reported
  | ended
  deriving DecidableEq, Repr

structure JobRun where
  job : Bytes
  name : Bytes
  stage : Stage
  cancelled : Bool
  deriving DecidableEq, Repr

inductive SchedulerError where
  | unknownJob (name : Bytes)
  | alreadyRunning
  | notRunning
  deriving DecidableEq, Repr

structure Scheduler where
  cfg : SchedulerConfig
  jobs : Dict Bytes Bytes
  tracker : Bytes → JobState
  cancels : Dict Bytes ℕ
  runs : List JobRun
  toCheck : List Bytes
  toUpdate : List Bytes
  stopping : List ℕ

def shouldRunDaily (state : JobState) (cfg : DailyJobConfig) (now : ℤ) : Bool :=
  if !cfg.enabled then false
  else if state.nextRun.any fun next => now < next then false
  else
    let today := date (dayOf now) cfg.hour cfg.minute
    if !cfg.daysOfWeek.contains (weekday today) then false
    else if now < today then false
    else !state.lastRun.any fun last => dayOf now ≤ dayOf last

def shouldRunInterval (state : JobState) (enabled : Bool) (intervalHours : ℤ) (now : ℤ) : Bool :=
  if !enabled || intervalHours ≤ 0 then false
  else
    match state.lastRun with
    | none => true
    | some last => intervalHours * oneHour ≤ now - last

def shouldRun (cfg : SchedulerConfig) (name : Bytes) (state : JobState) (now : ℤ) : Bool :=
  if state.running then false
  else if name = ascii "movies" then shouldRunDaily state cfg.moviesSync now
  else if name = ascii "tv" then shouldRunDaily state cfg.tvSync now
  else if name = ascii "watchlist" then
    shouldRunInterval state cfg.watchlistSync.enabled cfg.watchlistSync.intervalHours now
  else if (ascii "tv:").isPrefixOf name then
    match cfg.tvChannels.find? fun ch => ch.name = Utils.trimPrefix name (ascii "tv:") with
    | some ch => shouldRunDaily state ch.toDailyJobConfig now
    | none => shouldRunDaily state cfg.tvSync now
  else false

def nextCandidate (cfg : DailyJobConfig) (now : ℤ) (offset : ℕ) : Option ℤ :=
  let candidate := date (dayOf now) cfg.hour cfg.minute + offset * oneDay
  if cfg.daysOfWeek.contains (weekday candidate) && (offset != 0 || now < candidate) then
    some candidate
  else none

def nextRunTime (cfg : DailyJobConfig) (now : ℤ) : Option ℤ :=
  if !cfg.enabled then none else (List.range 8).findSome? (nextCandidate cfg now)

def nextRunOf (cfg : SchedulerConfig) (name : Bytes) (state : JobState) (now : ℤ) :
    Option ℤ :=
  if name = ascii "movies" then nextRunTime cfg.moviesSync now
  else if name = ascii "tv" then nextRunTime cfg.tvSync now
  else if name = ascii "watchlist" then
    if cfg.watchlistSync.enabled && 0 < cfg.watchlistSync.intervalHours then
      some (state.lastRun.getD 0 + cfg.watchlistSync.intervalHours * oneHour)
    else none
  else if (ascii "tv:").isPrefixOf name then
    match cfg.tvChannels.find? fun ch => ch.name = Utils.trimPrefix name (ascii "tv:") with
    | some ch => nextRunTime ch.toDailyJobConfig now
    | none => none
  else none

def report (r : Result) (cancelled : Bool) : Bytes × Bytes :=
  match r with
  | .panicked value => (ascii "failed", ascii "panic: " ++ value)
  | .error msg => if cancelled then (ascii "stopped", []) else (ascii "failed", msg)
  | .ok => if cancelled then (ascii "stopped", []) else (ascii "ok", [])

inductive Op where
  | tick
  | check (name : Bytes) (now : ℤ)
  | update (name : Bytes) (now : ℤ)
  | trigger (name : Bytes)
  | stop (name : Bytes)
  | cancel (k : ℕ)
  | proceed (i : ℕ) (r : Result) (now : ℤ)

namespace Scheduler

variable (s : Scheduler)

def setTracker (name : Bytes) (f : JobState → JobState) : Scheduler :=
  { s with tracker := Function.update s.tracker name (f (s.tracker name)) }

def spawn (job name : Bytes) : Scheduler :=
  { s with runs := s.runs ++ [⟨job, name, .spawned, false⟩] }

def setStage (i : ℕ) (r : JobRun) (stage : Stage) : Scheduler :=
  { s with runs := s.runs.set i { r with stage := stage } }

def checkJob (name : Bytes) (now : ℤ) : Scheduler :=
  match s.jobs.lookup name with
  | none => s
  | some syncer =>
    if shouldRun s.cfg name (s.tracker name) now then s.spawn name syncer else s

def updateNextRun (name : Bytes) (now : ℤ) : Scheduler :=
  let next := nextRunOf s.cfg name (s.tracker name) now
  if next ≠ (s.tracker name).nextRun then
    s.setTracker name fun state => { state with nextRun := next }
  else s

def triggerRun (name : Bytes) : Except SchedulerError Scheduler :=
  match s.jobs.lookup name with
  | none => .error (.unknownJob name)
  | some syncer =>
    if (s.tracker name).running then .error .alreadyRunning else .ok (s.spawn name syncer)

def findCancel (name : Bytes) : Except SchedulerError ℕ :=
  match s.cancels.lookup name with
  | none => .error .notRunning
  | some i => .ok i

def cancelRun (i : ℕ) : Scheduler :=
  match s.runs[i]? with
  | none => s
  | some r => { s with runs := s.runs.set i { r with cancelled := true } }

def runJob (i : ℕ) (result : Result) (now : ℤ) : Scheduler :=
  match s.runs[i]? with
  | none => s
  | some run =>
    match run.stage with
    | .spawned =>
      (s.setStage i run .started).setTracker run.job fun state => { state with running := true }
    | .started =>
      { s.setStage i run .inside with cancels := AList.insert run.name i s.cancels }
    | .inside => s.setStage i run (.returned result)
    | .returned r =>
      (s.setStage i run (.cleared r)).setTracker run.job fun state =>
        { state with running := false }
    | .cleared r =>
      (s.setStage i run .reported).setTracker run.job fun state =>
        { state with
          lastStatus := (report r run.cancelled).1
          lastError := (report r run.cancelled).2
          lastRun := some now }
    | .reported => { s.setStage i run .ended with cancels := AList.erase run.name s.cancels }
    | .ended => s

def step : Op → Scheduler
  | .tick =>
    if s.toCheck.isEmpty && s.toUpdate.isEmpty then
      { s with toCheck := s.jobs.keys, toUpdate := s.jobs.keys }
    else s
  | .check name now =>
    if s.toCheck.contains name then
      { s.checkJob name now with toCheck := s.toCheck.erase name }
    else s
  | .update name now =>
    if s.toCheck.isEmpty && s.toUpdate.contains name then
      { s.updateNextRun name now with toUpdate := s.toUpdate.erase name }
    else s
  | .trigger name =>
    match s.triggerRun name with
    | .error _ => s
    | .ok s' => s'
  | .stop name =>
    match s.findCancel name with
    | .error _ => s
    | .ok i => { s with stopping := s.stopping ++ [i] }
  | .cancel k =>
    match s.stopping[k]? with
    | none => s
    | some i => { s.cancelRun i with stopping := s.stopping.eraseIdx k }
  | .proceed i r now => s.runJob i r now

end Scheduler

def loadTrackers (cfg : SchedulerConfig) (jobs : Dict Bytes Bytes) (loaded : Bytes → JobState) :
    Scheduler where
  cfg := cfg
  jobs := jobs
  tracker name :=
    if jobs.keys.contains name then { loaded name with running := false } else loaded name
  cancels := ∅
  runs := []
  toCheck := []
  toUpdate := []
  stopping := []

def newScheduler (cfg : SchedulerConfig) (jobs : Dict Bytes Bytes) (loaded : Bytes → JobState)
    (now : ℤ) : Scheduler :=
  jobs.keys.foldl (fun s name => s.updateNextRun name now) (loadTrackers cfg jobs loaded)

def Scheduler.starts (s : Scheduler) : Op → Option (Bytes × Bytes)
  | .check name now =>
    if s.toCheck.contains name && shouldRun s.cfg name (s.tracker name) now then
      (s.jobs.lookup name).map (name, ·)
    else none
  | .trigger name =>
    if (s.tracker name).running then none else (s.jobs.lookup name).map (name, ·)
  | _ => none

theorem Scheduler.of_starts {s : Scheduler} {op : Op} {job name : Bytes}
    (h : s.starts op = some (job, name)) :
    (∃ now, op = .check job now ∧ job ∈ s.toCheck) ∨ op = .trigger job := by
  cases op with
  | check n now =>
    rw [starts] at h
    split_ifs at h with hcond
    obtain ⟨x, -, hpair⟩ := Option.map_eq_some_iff.mp h
    obtain rfl : n = job := congrArg Prod.fst hpair
    rw [Bool.and_eq_true, List.contains_iff_mem] at hcond
    exact .inl ⟨now, rfl, hcond.1⟩
  | trigger n =>
    rw [starts] at h
    split_ifs at h
    obtain ⟨x, -, hpair⟩ := Option.map_eq_some_iff.mp h
    obtain rfl : n = job := congrArg Prod.fst hpair
    exact .inr rfl
  | tick | update n now | stop n | cancel k | proceed i r now => cases h

inductive Advance (i : ℕ) (cancels : Dict Bytes ℕ) (state : JobState) (r : JobRun) :
    Dict Bytes ℕ → JobState → JobRun → Prop
  | start (h : r.stage = .spawned) :
      Advance i cancels state r cancels { state with running := true } { r with stage := .started }
  | enter (h : r.stage = .started) :
      Advance i cancels state r (AList.insert r.name i cancels) state { r with stage := .inside }
  | leave (res : Result) (h : r.stage = .inside) :
      Advance i cancels state r cancels state { r with stage := .returned res }
  | clear (res : Result) (h : r.stage = .returned res) :
      Advance i cancels state r cancels { state with running := false }
        { r with stage := .cleared res }
  | report (res : Result) (status error : Bytes) (now : ℤ) (h : r.stage = .cleared res) :
      Advance i cancels state r cancels
        { state with lastStatus := status, lastError := error, lastRun := some now }
        { r with stage := .reported }
  | finish (h : r.stage = .reported) :
      Advance i cancels state r (AList.erase r.name cancels) state { r with stage := .ended }
  | cancel : Advance i cancels state r cancels state { r with cancelled := true }

inductive Effect (s : Scheduler) (op : Op) (s' : Scheduler) : Prop
  | spawn (job name : Bytes) (starts : s.starts op = some (job, name))
      (runs : s'.runs = s.runs ++ [⟨job, name, .spawned, false⟩]) (cancels : s'.cancels = s.cancels)
      (tracker : s'.tracker = s.tracker)
  | advance (i : ℕ) (r r' : JobRun) (state : JobState) (at_i : s.runs[i]? = some r)
      (advances : Advance i s.cancels (s.tracker r.job) r s'.cancels state r')
      (runs : s'.runs = s.runs.set i r')
      (tracker : s'.tracker = Function.update s.tracker r.job state)
  | update (name : Bytes) (now : ℤ) (is_update : op = .update name now) (checked : s.toCheck = [])
      (mem : name ∈ s.toUpdate) (runs : s'.runs = s.runs) (cancels : s'.cancels = s.cancels)
      (tracker : s'.tracker = Function.update s.tracker name
        { s.tracker name with nextRun := nextRunOf s.cfg name (s.tracker name) now })
  | frame (runs : s'.runs = s.runs) (cancels : s'.cancels = s.cancels)
      (tracker : s'.tracker = s.tracker)

namespace Scheduler

variable {s : Scheduler}

theorem runJob_effect (i : ℕ) (res : Result) (now : ℤ) :
    Effect s (.proceed i res now) (s.runJob i res now) := by
  unfold runJob
  cases hr : s.runs[i]? with
  | none => exact .frame rfl rfl rfl
  | some r =>
    have hself := (Function.update_eq_self r.job s.tracker).symm
    dsimp only
    cases hst : r.stage with
    | spawned => exact .advance i r _ _ hr (.start hst) rfl rfl
    | started => exact .advance i r _ _ hr (.enter hst) rfl hself
    | inside => exact .advance i r _ _ hr (.leave res hst) rfl hself
    | returned r' => exact .advance i r _ _ hr (.clear r' hst) rfl rfl
    | cleared r' => exact .advance i r _ _ hr (.report r' _ _ now hst) rfl rfl
    | reported => exact .advance i r _ _ hr (.finish hst) rfl hself
    | ended => exact .frame rfl rfl rfl

theorem check_effect (name : Bytes) (now : ℤ) :
    Effect s (.check name now) (s.step (.check name now)) := by
  simp only [step]
  split_ifs with hmem
  · unfold checkJob
    cases hjob : s.jobs.lookup name with
    | none => exact .frame rfl rfl rfl
    | some syncer =>
      dsimp only
      split_ifs with hrun
      · have hstarts : s.starts (.check name now) = some (name, syncer) := by
          rw [starts, if_pos (by rw [hmem, hrun]; rfl), hjob, Option.map_some]
        exact .spawn name syncer hstarts rfl rfl rfl
      · exact .frame rfl rfl rfl
  · exact .frame rfl rfl rfl

theorem trigger_effect (name : Bytes) : Effect s (.trigger name) (s.step (.trigger name)) := by
  simp only [step, triggerRun]
  cases hjob : s.jobs.lookup name with
  | none => exact .frame rfl rfl rfl
  | some syncer =>
    dsimp only
    by_cases hrun : (s.tracker name).running = true
    · rw [if_pos hrun]
      exact .frame rfl rfl rfl
    · rw [if_neg hrun]
      have hstarts : s.starts (.trigger name) = some (name, syncer) := by
        rw [starts, if_neg hrun, hjob, Option.map_some]
      exact .spawn name syncer hstarts rfl rfl rfl

theorem updateNextRun_eq (s : Scheduler) (name : Bytes) (now : ℤ) :
    s.updateNextRun name now = s.setTracker name fun state =>
      { state with nextRun := nextRunOf s.cfg name (s.tracker name) now } := by
  unfold updateNextRun
  dsimp only
  split_ifs with hne
  · rfl
  · have hself : { s.tracker name with nextRun := nextRunOf s.cfg name (s.tracker name) now } =
        s.tracker name := by
      rw [not_not.mp hne]
    rw [setTracker, hself, Function.update_eq_self]

theorem tracker_updateNextRun (s : Scheduler) (name : Bytes) (now : ℤ) :
    (s.updateNextRun name now).tracker = Function.update s.tracker name
      { s.tracker name with nextRun := nextRunOf s.cfg name (s.tracker name) now } := by
  rw [updateNextRun_eq, setTracker]

theorem step_effect (s : Scheduler) (op : Op) : Effect s op (s.step op) := by
  cases op with
  | tick =>
    simp only [step]
    split_ifs
    · exact .frame rfl rfl rfl
    · exact .frame rfl rfl rfl
  | check name now => exact check_effect name now
  | update name now =>
    simp only [step]
    split_ifs with hguard
    · rw [Bool.and_eq_true, List.isEmpty_iff, List.contains_iff_mem] at hguard
      rw [updateNextRun_eq]
      exact .update name now rfl hguard.1 hguard.2 rfl rfl rfl
    · exact .frame rfl rfl rfl
  | trigger name => exact trigger_effect name
  | stop name =>
    simp only [step]
    cases s.findCancel name with
    | error e | ok i => exact .frame rfl rfl rfl
  | cancel k =>
    simp only [step]
    cases hk : s.stopping[k]? with
    | none => exact .frame rfl rfl rfl
    | some i =>
      dsimp only
      unfold cancelRun
      cases hr : s.runs[i]? with
      | none => exact .frame rfl rfl rfl
      | some r =>
        exact .advance i r _ _ hr .cancel rfl (Function.update_eq_self r.job s.tracker).symm
  | proceed i r now => exact runJob_effect i r now

def stopJob (s : Scheduler) (name : Bytes) : Scheduler :=
  (s.step (.stop name)).step (.cancel s.stopping.length)

def AtMostOnce (s : Scheduler) : Prop :=
  ∀ (i k : ℕ) (r q : JobRun), s.runs[i]? = some r → s.runs[k]? = some q → r.job = q.job →
    (r.stage = .started ∨ r.stage = .inside) → (q.stage = .started ∨ q.stage = .inside) → i = k

def Stoppable (s : Scheduler) : Prop :=
  ∀ (i : ℕ) (r : JobRun), s.runs[i]? = some r → r.stage = .inside →
    ∃ r', (s.stopJob r.job).runs[i]? = some r' ∧ r'.cancelled = true

def StartsAlone (s : Scheduler) (op : Op) : Prop :=
  ∀ x ∈ s.starts op, x.2 = x.1 ∧ ∀ r ∈ s.runs, r.job = x.1 → r.stage = .ended

instance (s : Scheduler) (op : Op) : Decidable (s.StartsAlone op) :=
  inferInstanceAs (Decidable (∀ x ∈ s.starts op, _))

end Scheduler

def Stage.holdsCancel : Stage → Bool
  | .inside | .returned _ | .cleared _ | .reported => true
  | .spawned | .started | .ended => false

theorem Stage.ne_ended_of_holdsCancel {st : Stage} (h : st.holdsCancel = true) : st ≠ .ended := by
  rintro rfl
  cases h

namespace Advance

variable {i : ℕ} {cancels cancels' : Dict Bytes ℕ} {state state' : JobState} {r r' : JobRun}

theorem job_eq (h : Advance i cancels state r cancels' state' r') :
    r'.job = r.job ∧ r'.name = r.name := by
  cases h <;> exact ⟨rfl, rfl⟩

theorem of_ended (h : Advance i cancels state r cancels' state' r') (hr : r.stage = .ended) :
    cancels' = cancels ∧ state' = state ∧ r'.stage = .ended := by
  cases h with
  | cancel => exact ⟨rfl, rfl, hr⟩
  | start h | enter h | leave res h | clear res h | report res status error now h | finish h =>
    rw [hr] at h; cases h

theorem lookup_of_ne (h : Advance i cancels state r cancels' state' r') {k : Bytes}
    (hk : k ≠ r.name) : cancels'.lookup k = cancels.lookup k := by
  cases h with
  | enter => rw [Dict.lookup_insert, if_neg hk]
  | finish => rw [Dict.lookup_erase, if_neg hk]
  | _ => rfl

theorem lookup_of_holdsCancel (h : Advance i cancels state r cancels' state' r')
    (hr' : r'.stage.holdsCancel = true)
    (hold : r.stage.holdsCancel = true → cancels.lookup r.name = some i) :
    cancels'.lookup r.name = some i := by
  cases h with
  | enter => rw [Dict.lookup_insert, if_pos rfl]
  | leave res h | clear res h | report res status error now h => exact hold (by rw [h]; rfl)
  | cancel => exact hold hr'
  | start | finish => cases hr'

end Advance

structure Orderly (s : Scheduler) : Prop where
  named : ∀ (i : ℕ) (r : JobRun), s.runs[i]? = some r → r.name = r.job
  alone : ∀ (i k : ℕ) (r q : JobRun), s.runs[i]? = some r → s.runs[k]? = some q → r.job = q.job →
    r.stage ≠ .ended → q.stage ≠ .ended → i = k
  held : ∀ (i : ℕ) (r : JobRun), s.runs[i]? = some r → r.stage.holdsCancel = true →
    s.cancels.lookup r.job = some i

namespace Orderly

variable {s s' : Scheduler}

theorem of_eq (h : Orderly s) (hruns : s'.runs = s.runs) (hcancels : s'.cancels = s.cancels) :
    Orderly s' where
  named := by rw [hruns]; exact h.named
  alone := by rw [hruns]; exact h.alone
  held := by rw [hruns, hcancels]; exact h.held

theorem spawn (h : Orderly s) {job : Bytes}
    (hruns : s'.runs = s.runs ++ [⟨job, job, .spawned, false⟩])
    (hcancels : s'.cancels = s.cancels)
    (halone : ∀ r ∈ s.runs, r.job = job → r.stage = .ended) : Orderly s' where
  named := by
    intro i r hr
    rw [hruns] at hr
    rcases getElem?_append_one.mp hr with hr | ⟨-, rfl⟩
    · exact h.named i r hr
    · rfl
  alone := by
    intro i k r q hr hq hjob hralive hqalive
    rw [hruns] at hr hq
    rcases getElem?_append_one.mp hr with hr | ⟨hi, rfl⟩
    · rcases getElem?_append_one.mp hq with hq | ⟨-, rfl⟩
      · exact h.alone i k r q hr hq hjob hralive hqalive
      · exact absurd (halone r (List.mem_of_getElem? hr) hjob) hralive
    · rcases getElem?_append_one.mp hq with hq | ⟨hk, -⟩
      · exact absurd (halone q (List.mem_of_getElem? hq) hjob.symm) hqalive
      · rw [hi, hk]
  held := by
    intro i r hr hholds
    rw [hruns] at hr
    rw [hcancels]
    rcases getElem?_append_one.mp hr with hr | ⟨-, rfl⟩
    · exact h.held i r hr hholds
    · cases hholds

theorem advance (h : Orderly s) {i : ℕ} {r r' : JobRun} (hi : s.runs[i]? = some r)
    {state : JobState} (hadv : Advance i s.cancels (s.tracker r.job) r s'.cancels state r')
    (hruns : s'.runs = s.runs.set i r') : Orderly s' := by
  -- the run that is found at a position afterwards, and the one that was there before
  have hbefore : ∀ k q, s'.runs[k]? = some q → k = i ∧ q = r' ∨ k ≠ i ∧ s.runs[k]? = some q := by
    intro k q hq
    rw [hruns, List.getElem?_set] at hq
    split_ifs at hq with hk hlt
    · exact .inl ⟨hk.symm, (Option.some.inj hq).symm⟩
    · exact .inr ⟨fun e => hk e.symm, hq⟩
  have hjob := hadv.job_eq
  have halive : r'.stage ≠ .ended → r.stage ≠ .ended := fun hr' hr => hr' (hadv.of_ended hr).2.2
  constructor
  · intro k q hq
    rcases hbefore k q hq with ⟨rfl, rfl⟩ | ⟨-, hq⟩
    · rw [hjob.1, hjob.2]
      exact h.named k r hi
    · exact h.named k q hq
  · intro k l q p hq hp hsame hqalive hpalive
    rcases hbefore k q hq with ⟨rfl, rfl⟩ | ⟨hk, hq⟩
    · rcases hbefore l p hp with ⟨rfl, rfl⟩ | ⟨-, hp⟩
      · rfl
      · exact h.alone k l r p hi hp (hjob.1.symm.trans hsame) (halive hqalive) hpalive
    · rcases hbefore l p hp with ⟨rfl, rfl⟩ | ⟨-, hp⟩
      · exact h.alone k l q r hq hi (hsame.trans hjob.1) hqalive (halive hpalive)
      · exact h.alone k l q p hq hp hsame hqalive hpalive
  · intro k q hq hholds
    have hname := h.named i r hi
    rcases hbefore k q hq with ⟨rfl, rfl⟩ | ⟨hk, hq⟩
    · rw [hjob.1, ← hname]
      apply hadv.lookup_of_holdsCancel hholds
      intro hold
      rw [hname]
      exact h.held k r hi hold
    · have hlookup : s'.cancels.lookup q.job = s.cancels.lookup q.job := by
        by_cases hr : r.stage = .ended
        · rw [(hadv.of_ended hr).1]
        · -- a run of another job, since this job has one run that has not ended
          apply hadv.lookup_of_ne
          rw [hname]
          intro hsame
          exact hk (h.alone k i q r hq hi hsame (Stage.ne_ended_of_holdsCancel hholds) hr)
      rw [hlookup]
      exact h.held k q hq hholds

theorem step (h : Orderly s) {op : Op} (hop : s.StartsAlone op) : Orderly (s.step op) := by
  cases s.step_effect op with
  | spawn job name hstarts hruns hcancels _ =>
    obtain ⟨hname, halone⟩ := hop (job, name) hstarts
    obtain rfl : name = job := hname
    exact h.spawn hruns hcancels halone
  | advance i r r' state hi hadv hruns _ => exact h.advance hi hadv hruns
  | update name now _ _ _ hruns hcancels _ | frame hruns hcancels _ => exact h.of_eq hruns hcancels

theorem atMostOnce (h : Orderly s) : s.AtMostOnce := by
  have halive : ∀ st : Stage, st = .started ∨ st = .inside → st ≠ .ended := by
    rintro st (rfl | rfl) <;> exact Stage.noConfusion
  intro i k r q hr hq hjob hractive hqactive
  exact h.alone i k r q hr hq hjob (halive _ hractive) (halive _ hqactive)

theorem runs_cancelRun {i : ℕ} {r : JobRun} (hr : s.runs[i]? = some r) :
    (s.cancelRun i).runs[i]? = some { r with cancelled := true } := by
  have hpos : i < s.runs.length := (List.getElem?_eq_some_iff.mp hr).1
  simp only [Scheduler.cancelRun, hr]
  rw [List.getElem?_set_self hpos]

theorem stoppable (h : Orderly s) : s.Stoppable := by
  intro i r hr hinside
  have hfound : s.findCancel r.job = .ok i := by
    rw [Scheduler.findCancel, h.held i r hr (by rw [hinside]; rfl)]
  have hstop : s.step (.stop r.job) = { s with stopping := s.stopping ++ [i] } := by
    simp only [Scheduler.step, hfound]
  have hlast : (s.stopping ++ [i])[s.stopping.length]? = some i := by simp
  have hcancel : (s.stopJob r.job).runs = (s.cancelRun i).runs := by
    rw [Scheduler.stopJob, hstop]
    simp only [Scheduler.step, hlast, Scheduler.cancelRun]
    cases s.runs[i]? <;> rfl
  rw [hcancel]
  exact ⟨_, runs_cancelRun hr, rfl⟩

end Orderly

theorem newScheduler_runs (cfg : SchedulerConfig) (jobs : Dict Bytes Bytes)
    (loaded : Bytes → JobState) (now : ℤ) :
    (newScheduler cfg jobs loaded now).runs = [] ∧
      (newScheduler cfg jobs loaded now).cancels = ∅ := by
  have hfold : ∀ (names : List Bytes) (s : Scheduler),
      (names.foldl (fun s name => s.updateNextRun name now) s).runs = s.runs ∧
        (names.foldl (fun s name => s.updateNextRun name now) s).cancels = s.cancels := by
    intro names
    induction names with
    | nil => exact fun s => ⟨rfl, rfl⟩
    | cons name names ih =>
      intro s
      rw [List.foldl_cons, (ih _).1, (ih _).2, s.updateNextRun_eq]
      exact ⟨rfl, rfl⟩
  exact hfold _ _

theorem orderly_newScheduler (cfg : SchedulerConfig) (jobs : Dict Bytes Bytes)
    (loaded : Bytes → JobState) (now : ℤ) : Orderly (newScheduler cfg jobs loaded now) := by
  have hruns := (newScheduler_runs cfg jobs loaded now).1
  constructor
  · intro i r hr
    rw [hruns] at hr
    cases hr
  · intro i k r q hr
    rw [hruns] at hr
    cases hr
  · intro i r hr
    rw [hruns] at hr
    cases hr

/-- A job has one run at a time, which `StopJob` cancels. -/
theorem runs_exclusive (cfg : SchedulerConfig) (jobs : Dict Bytes Bytes)
    (loaded : Bytes → JobState) (now : ℤ) (ops : List Op)
    (halone : Meets Scheduler.StartsAlone Scheduler.step (newScheduler cfg jobs loaded now) ops) :
    ∀ pre, pre <+: ops →
      (run Scheduler.step (newScheduler cfg jobs loaded now) pre).AtMostOnce ∧
        (run Scheduler.step (newScheduler cfg jobs loaded now) pre).Stoppable := by
  intro pre hpre
  have horderly : Orderly (run Scheduler.step (newScheduler cfg jobs loaded now) pre) :=
    Meets.good (fun _ _ h hop => h.step hop) (fun _ h => h) ops
      (orderly_newScheduler cfg jobs loaded now) halone pre hpre
  exact ⟨horderly.atMostOnce, horderly.stoppable⟩

def nightlyMovies : SchedulerConfig where
  moviesSync := ⟨true, [0, 1, 2, 3, 4, 5, 6], 3, 0⟩
  tvSync := ⟨false, [], 0, 0⟩
  watchlistSync := ⟨false, 0⟩
  tvChannels := []

def movieJobs : Dict Bytes Bytes := AList.singleton (ascii "movies") (ascii "movies")

def movieScheduler : Scheduler := newScheduler nightlyMovies movieJobs (fun _ => .zero) 0

def twoTriggers : List Op :=
  .trigger (ascii "movies") :: (List.replicate 6 (.proceed 0 .ok 0) ++ [.trigger (ascii "movies")])

theorem runs_exclusive_movies :
    (run Scheduler.step movieScheduler twoTriggers).runs.length = 2 ∧
      (run Scheduler.step movieScheduler twoTriggers).AtMostOnce := by
  have halone : Meets Scheduler.StartsAlone Scheduler.step movieScheduler twoTriggers := by
    decide +kernel
  have hall := runs_exclusive nightlyMovies movieJobs (fun _ => .zero) 0 twoTriggers halone
  exact ⟨by decide +kernel, (hall twoTriggers List.prefix_rfl).1⟩

def doubleTrigger : List Op :=
  [.trigger (ascii "movies"), .trigger (ascii "movies"), .proceed 0 .ok 0, .proceed 1 .ok 0,
    .proceed 0 .ok 0, .proceed 1 .ok 0]

theorem runs_doubleTrigger : (run Scheduler.step movieScheduler doubleTrigger).runs =
    List.replicate 2 ⟨ascii "movies", ascii "movies", .inside, false⟩ := by
  decide +kernel

theorem stopJob_doubleTrigger :
    ((run Scheduler.step movieScheduler doubleTrigger).stopJob (ascii "movies")).runs =
      [⟨ascii "movies", ascii "movies", .inside, false⟩,
        ⟨ascii "movies", ascii "movies", .inside, true⟩] := by
  decide +kernel

theorem double_trigger_runs_twice :
    ¬ (run Scheduler.step movieScheduler doubleTrigger).AtMostOnce ∧
      ¬ (run Scheduler.step movieScheduler doubleTrigger).Stoppable := by
  generalize hs : run Scheduler.step movieScheduler doubleTrigger = s
  have hruns := runs_doubleTrigger
  have hstopped := stopJob_doubleTrigger
  rw [hs] at hruns hstopped
  constructor
  · intro honce
    have h01 : 0 = 1 :=
      honce 0 1 _ _ (by rw [hruns]; rfl) (by rw [hruns]; rfl) rfl (.inr rfl) (.inr rfl)
    cases h01
  · intro hstop
    obtain ⟨r, hr, hcancelled⟩ := hstop 0 ⟨ascii "movies", ascii "movies", .inside, false⟩
      (by rw [hruns]; rfl) rfl
    rw [hstopped] at hr
    obtain rfl := Option.some.inj hr
    cases hcancelled

end GoStream.Scheduling
