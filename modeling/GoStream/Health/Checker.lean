import GoStream.Foundations.Float64
import GoStream.Foundations.Run
import GoStream.Metadb.Alternatives

/-!
# The offline health checker
-/

namespace GoStream.Health

open Foundations Metadb

structure Config where
  minSpeedSlow : Int64
  minSpeedFast : Int64
  minSeeders : ℤ
  slowSeeders : ℤ
  maxReplacements : ℕ

def defaultConfig : Config where
  minSpeedSlow := 100
  minSpeedFast := 500
  minSeeders := 10
  slowSeeders := 5
  maxReplacements := 5

structure Stats where
  speedKBps : Int64
  seeders : ℤ
  deriving DecidableEq, Repr

def classifyHealthWithCfg (cfg : Config) (speedKBps : Int64) (seeders : ℤ) : AlternativeStatus :=
  if seeders = 0 then .dead
  else if seeders < cfg.slowSeeders then .verifiedSlow
  else if cfg.minSpeedFast < speedKBps && cfg.minSeeders ≤ seeders then .verifiedHealthy
  else if cfg.minSpeedSlow < speedKBps then .verifiedSlow
  else .dead

def shouldReplaceWithCfg (newSpeed oldSpeed : Int64) : Bool :=
  if oldSpeed ≤ 0 then true
  else Float64.mul (Float64.round oldSpeed.toInt) (3 / 2) ≤ Float64.round newSpeed.toInt

def shouldReplaceStreamableWithCfg (cfg : Config) (current next : TorrentAlternative)
    (newSpeed : Int64) (newSeeders : ℤ) : Bool :=
  if current.status ≠ .verifiedSlow then false
  else if current.size ≤ 0 || next.size ≤ 0 then false
  else if newSeeders < cfg.minSeeders || newSpeed ≤ cfg.minSpeedSlow then false
  else Float64.round next.size.toInt ≤
    Float64.mul (Float64.round current.size.toInt) (Float64.round (4 / 5))

def buildMagnet (hash title : Bytes) : Bytes :=
  ascii "magnet:?xt=urn:btih:" ++ hash ++ ascii "&dn=" ++ title

structure Surroundings where
  start : Int64
  cancelled : ℕ → Bool
  currentTorrentStatus : ℕ → Bytes → Option Stats
  testTorrent : ℕ → Bytes → Option Stats
  replaceTorrent : ℕ → Bytes → Bytes → Bytes → Bool
  now : ℕ → Int64

inductive Event where
  | checked (alt : TorrentAlternative) (status : AlternativeStatus)
  | replace (contentID oldHash newHash magnet title : Bytes) (ok : Bool)
  | setStatus (contentID hash : Bytes) (status : AlternativeStatus)
  deriving DecidableEq

structure Cycle where
  table : Alternatives
  replacements : ℕ
  turns : ℕ
  stopped : Bool
  log : List Event

section Model

variable (cfg : Config) (env : Surroundings) (S : SliceSort)

def verdict (n : ℕ) (hash : Bytes) : AlternativeStatus × Stats :=
  match env.currentTorrentStatus n hash with
  | some st => (classifyHealthWithCfg cfg st.speedKBps st.seeders, st)
  | none =>
    match env.testTorrent n hash with
    | none => (.dead, ⟨0, 0⟩)
    | some st => (classifyHealthWithCfg cfg st.speedKBps st.seeders, st)

def checkAndUpdate (n : ℕ) (alt : TorrentAlternative) (table : Alternatives) : Alternatives :=
  let found := verdict cfg env n alt.hash
  table.updateAlternativeHealth alt.contentID alt.hash found.1 found.2.speedKBps found.2.seeders
    env.start

def worthReplacing (dead next : TorrentAlternative) (st : Stats) : Bool :=
  let oldSpeed := if dead.avgSpeedKBps ≤ 0 then 1 else dead.avgSpeedKBps
  shouldReplaceWithCfg st.speedKBps oldSpeed ||
    shouldReplaceStreamableWithCfg cfg dead next st.speedKBps st.seeders

def tryReplace (n : ℕ) (dead : TorrentAlternative) (table : Alternatives) :
    Bool × Alternatives × List Event :=
  match table.getNextBestAlternative S dead.contentID dead.hash with
  | none => (false, table, [])
  | some next =>
    match env.testTorrent n next.hash with
    | none =>
      (false, table.updateAlternativeStatus next.contentID next.hash .testedNoBetter,
        [.setStatus next.contentID next.hash .testedNoBetter])
    | some st =>
      if !worthReplacing cfg dead next st then
        (false, (table.updateAlternativeStatus next.contentID next.hash
            .testedNoBetter).incrementReplacementCount next.contentID next.hash,
          [.setStatus next.contentID next.hash .testedNoBetter])
      else
        let status := classifyHealthWithCfg cfg st.speedKBps st.seeders
        let table := table.updateAlternativeHealth next.contentID next.hash status st.speedKBps
          st.seeders (env.now n)
        let ok := env.replaceTorrent n dead.contentID dead.hash next.hash
        let asked := [.setStatus next.contentID next.hash status, .replace dead.contentID dead.hash
          next.hash (buildMagnet next.hash next.title) next.title ok]
        if !ok then
          (false, table.updateAlternativeStatus next.contentID next.hash .testedNoBetter,
            asked ++ [.setStatus next.contentID next.hash .testedNoBetter])
        else
          (true, ((table.updateAlternativeStatus next.contentID next.hash
              .active).updateAlternativeStatus dead.contentID dead.hash
                .dead).incrementReplacementCount next.contentID next.hash,
            asked ++ [.setStatus next.contentID next.hash .active,
              .setStatus dead.contentID dead.hash .dead])

def Cycle.over (c : Cycle) : Bool :=
  c.stopped || env.cancelled c.turns || cfg.maxReplacements ≤ c.replacements

def Cycle.turn (c : Cycle) (alt : TorrentAlternative) : Cycle :=
  if c.over cfg env then { c with stopped := true }
  else
    let table := checkAndUpdate cfg env c.turns alt c.table
    let log := c.log ++ [.checked alt (verdict cfg env c.turns alt.hash).1]
    if alt.rank = 1 && (alt.status = .dead || alt.status = .verifiedSlow) then
      let (ok, table, events) := tryReplace cfg env S c.turns alt table
      { c with
        table := table
        turns := c.turns + 1
        log := log ++ events
        replacements := if ok then c.replacements + 1 else c.replacements }
    else { c with table := table, turns := c.turns + 1, log := log }

def runCheck (table : Alternatives) : Cycle :=
  run (Cycle.turn cfg env S) ⟨table, 0, 0, false, []⟩ (table.getUnhealthyAlternatives S)

end Model

def Event.Harms (alt : TorrentAlternative) : Event → Prop
  | .checked _ _ => False
  | .replace contentID oldHash _ _ _ _ => contentID = alt.contentID ∧ oldHash = alt.hash
  | .setStatus contentID hash status =>
      contentID = alt.contentID ∧ hash = alt.hash ∧ status = .dead

def HealthySpared (log : List Event) : Prop :=
  log.Pairwise fun e f =>
    ∀ alt, e = .checked alt .verifiedHealthy → alt.rank = 1 → ¬ f.Harms alt

section Spared

variable (cfg : Config) (env : Surroundings) (S : SliceSort)

def replacement (n : ℕ) (dead : TorrentAlternative) (table : Alternatives) :
    Option TorrentAlternative :=
  (table.getNextBestAlternative S dead.contentID dead.hash).filter fun next =>
    (env.testTorrent n next.hash).any (worthReplacing cfg dead next)

def Spares (c : Cycle) (alt : TorrentAlternative) : Prop :=
  c.over cfg env = false → alt.rank = 1 → (alt.status = .dead ∨ alt.status = .verifiedSlow) →
    (verdict cfg env c.turns alt.hash).1 = .verifiedHealthy →
      replacement cfg env S c.turns alt (checkAndUpdate cfg env c.turns alt c.table) = none

variable {cfg env S}

inductive Attempt (cfg : Config) (env : Surroundings) (S : SliceSort) (n : ℕ)
    (dead : TorrentAlternative) (table : Alternatives) : Bool → Alternatives → List Event → Prop
  | nothing (none : table.getNextBestAlternative S dead.contentID dead.hash = none) :
      Attempt cfg env S n dead table false table []
  | rejected (next : TorrentAlternative) (table' : Alternatives) (f : HealthColumns → HealthColumns)
      (found : table.getNextBestAlternative S dead.contentID dead.hash = some next)
      (unworthy : (env.testTorrent n next.hash).any (worthReplacing cfg dead next) = false)
      (rows : table' = table.update next.contentID next.hash f) :
      Attempt cfg env S n dead table false table'
        [.setStatus next.contentID next.hash .testedNoBetter]
  | failed (next : TorrentAlternative) (table' : Alternatives) (f : HealthColumns → HealthColumns)
      (status : AlternativeStatus)
      (found : table.getNextBestAlternative S dead.contentID dead.hash = some next)
      (worthy : (env.testTorrent n next.hash).any (worthReplacing cfg dead next) = true)
      (refused : env.replaceTorrent n dead.contentID dead.hash next.hash = false)
      (rows : table' = table.update next.contentID next.hash f) :
      Attempt cfg env S n dead table false table'
        [.setStatus next.contentID next.hash status,
          .replace dead.contentID dead.hash next.hash (buildMagnet next.hash next.title) next.title
            false,
          .setStatus next.contentID next.hash .testedNoBetter]
  | replaced (next : TorrentAlternative) (table' : Alternatives)
      (f g : HealthColumns → HealthColumns) (status : AlternativeStatus)
      (found : table.getNextBestAlternative S dead.contentID dead.hash = some next)
      (worthy : (env.testTorrent n next.hash).any (worthReplacing cfg dead next) = true)
      (done : env.replaceTorrent n dead.contentID dead.hash next.hash = true)
      (rows : table' = ((table.update next.contentID next.hash f).updateAlternativeStatus
        dead.contentID dead.hash .dead).update next.contentID next.hash g) :
      Attempt cfg env S n dead table true table'
        [.setStatus next.contentID next.hash status,
          .replace dead.contentID dead.hash next.hash (buildMagnet next.hash next.title) next.title
            true,
          .setStatus next.contentID next.hash .active, .setStatus dead.contentID dead.hash .dead]

theorem tryReplace_attempt (n : ℕ) (dead : TorrentAlternative) (table : Alternatives) :
    Attempt cfg env S n dead table (tryReplace cfg env S n dead table).1
      (tryReplace cfg env S n dead table).2.1 (tryReplace cfg env S n dead table).2.2 := by
  unfold tryReplace
  cases hnext : table.getNextBestAlternative S dead.contentID dead.hash with
  | none => exact .nothing hnext
  | some next =>
    dsimp only
    cases htest : env.testTorrent n next.hash with
    | none => exact .rejected next _ _ hnext (by rw [htest]; rfl) rfl
    | some st =>
      dsimp only
      cases hworth : worthReplacing cfg dead next st with
      | false =>
        exact .rejected next _ _ hnext (by rw [htest]; exact hworth)
          (table.update_update next.contentID next.hash _ _)
      | true =>
        have hworthy : (env.testTorrent n next.hash).any (worthReplacing cfg dead next) = true := by
          rw [htest]
          exact hworth
        cases hok : env.replaceTorrent n dead.contentID dead.hash next.hash with
        | false =>
          exact .failed next _ _ _ hnext hworthy hok
            (table.update_update next.contentID next.hash _ _)
        | true =>
          have hrows := fun f g => congrArg (fun t : Alternatives =>
            (t.updateAlternativeStatus dead.contentID dead.hash .dead).incrementReplacementCount
              next.contentID next.hash) (table.update_update next.contentID next.hash f g)
          exact .replaced next _ _ _ _ hnext hworthy hok (hrows _ _)

namespace Attempt

variable {n : ℕ} {dead : TorrentAlternative} {table table' : Alternatives} {ok : Bool}
  {events : List Event}

theorem not_checked (h : Attempt cfg env S n dead table ok table' events) {e : Event}
    (he : e ∈ events) (alt : TorrentAlternative) (status : AlternativeStatus) :
    e ≠ .checked alt status := by
  rintro rfl
  cases h <;> simp at he

theorem spares (h : Attempt cfg env S n dead table ok table' events) {alt : TorrentAlternative}
    (hdead : ¬ alt.Clash dead)
    (hnext : ∀ next, table.getNextBestAlternative S dead.contentID dead.hash = some next →
      ¬ alt.Clash next) {e : Event} (he : e ∈ events) : ¬ e.Harms alt := by
  have hstatus : ∀ next, table.getNextBestAlternative S dead.contentID dead.hash = some next →
      ∀ status, ¬ (Event.setStatus next.contentID next.hash status).Harms alt :=
    fun next hfound status hharm => hnext next hfound ⟨hharm.1.symm, hharm.2.1.symm⟩
  have hreplace : ∀ hash magnet title ok,
      ¬ (Event.replace dead.contentID dead.hash hash magnet title ok).Harms alt :=
    fun _ _ _ _ hharm => hdead ⟨hharm.1.symm, hharm.2.symm⟩
  cases h with
  | nothing => cases he
  | rejected next _ f found =>
    rw [List.mem_singleton.mp he]
    exact hstatus next found _
  | failed next _ f status found =>
    simp only [List.mem_cons, List.not_mem_nil, or_false] at he
    rcases he with rfl | rfl | rfl
    · exact hstatus next found _
    · exact hreplace _ _ _ _
    · exact hstatus next found _
  | replaced next _ f g status found =>
    simp only [List.mem_cons, List.not_mem_nil, or_false] at he
    rcases he with rfl | rfl | rfl | rfl
    · exact hstatus next found _
    · exact hreplace _ _ _ _
    · exact hstatus next found _
    · exact fun hharm => hdead ⟨hharm.1.symm, hharm.2.1.symm⟩

theorem spares_self_iff (h : Attempt cfg env S n dead table ok table' events) :
    (∀ e ∈ events, ¬ e.Harms dead) ↔ replacement cfg env S n dead table = none := by
  cases h with
  | nothing found => simp [replacement, found]
  | rejected next _ f found unworthy =>
    have hnone : replacement cfg env S n dead table = none := by
      rw [replacement, found, Option.filter_some, unworthy, if_neg Bool.false_ne_true]
    simp [hnone, Event.Harms]
  | failed next _ f status found worthy | replaced next _ f g status found worthy =>
    have hsome : replacement cfg env S n dead table = some next := by
      rw [replacement, found, Option.filter_some, worthy, if_pos rfl]
    simp [hsome, Event.Harms]

theorem ok_iff (h : Attempt cfg env S n dead table ok table' events) :
    ok = true ↔ ∃ next, replacement cfg env S n dead table = some next ∧
      env.replaceTorrent n dead.contentID dead.hash next.hash = true := by
  cases h with
  | nothing found => simp [replacement, found]
  | rejected next _ f found unworthy => simp [replacement, found, Option.filter_some, unworthy]
  | failed next _ f status found worthy refused =>
    simp [replacement, found, Option.filter_some, worthy, refused]
  | replaced next _ f g status found worthy done =>
    simp [replacement, found, Option.filter_some, worthy, done]

theorem exists_row (h : Attempt cfg env S n dead table ok table' events) {r : TorrentAlternative}
    (hr : r ∈ table.rows) :
    ∃ r' ∈ table'.rows, r'.contentID = r.contentID ∧ r'.hash = r.hash ∧ r'.rank = r.rank := by
  cases h with
  | nothing => exact ⟨r, hr, rfl, rfl, rfl⟩
  | rejected next _ f _ _ rows | failed next _ f status _ _ _ rows =>
    rw [rows]
    exact Alternatives.exists_update hr _ _ f
  | replaced next _ f g status _ _ _ rows =>
    rw [rows]
    obtain ⟨r₁, hr₁, hid₁, hhash₁, hrank₁⟩ :=
      Alternatives.exists_update hr next.contentID next.hash f
    obtain ⟨r₂, hr₂, hid₂, hhash₂, hrank₂⟩ :=
      Alternatives.exists_update hr₁ dead.contentID dead.hash fun c => { c with status := .dead }
    obtain ⟨r₃, hr₃, hid₃, hhash₃, hrank₃⟩ :=
      Alternatives.exists_update hr₂ next.contentID next.hash g
    exact ⟨r₃, hr₃, hid₃.trans (hid₂.trans hid₁), hhash₃.trans (hhash₂.trans hhash₁),
      hrank₃.trans (hrank₂.trans hrank₁)⟩

theorem of_mem (h : Attempt cfg env S n dead table ok table' events) {r : TorrentAlternative}
    (hr : r ∈ table'.rows) :
    (∃ next, table.getNextBestAlternative S dead.contentID dead.hash = some next ∧ r.Clash next) ∨
      r.status = .dead ∨ r ∈ table.rows := by
  have hupdate : ∀ next, table.getNextBestAlternative S dead.contentID dead.hash = some next →
      ∀ (t : Alternatives) f, r ∈ (t.update next.contentID next.hash f).rows →
        (∃ next, table.getNextBestAlternative S dead.contentID dead.hash = some next ∧
          r.Clash next) ∨ r ∈ t.rows := by
    intro next found t f hmem
    rcases Alternatives.of_mem_update hmem with ⟨a, -, hid, hhash, -⟩ | ⟨hold, -⟩
    · exact .inl ⟨next, found, hid, hhash⟩
    · exact .inr hold
  cases h with
  | nothing => exact .inr (.inr hr)
  | rejected next _ f found _ rows | failed next _ f status found _ _ rows =>
    rw [rows] at hr
    exact (hupdate next found _ f hr).imp_right .inr
  | replaced next _ f g status found _ _ rows =>
    rw [rows] at hr
    rcases hupdate next found _ g hr with hnext | hr
    · exact .inl hnext
    · rcases Alternatives.of_mem_update hr with ⟨a, -, -, -, rfl⟩ | ⟨hr, -⟩
      · exact .inr (.inl rfl)
      · exact (hupdate next found _ f hr).imp_right .inr

end Attempt

theorem classifyHealthWithCfg_ne_active (speedKBps : Int64) (seeders : ℤ) :
    classifyHealthWithCfg cfg speedKBps seeders ≠ .active := by
  unfold classifyHealthWithCfg
  split_ifs <;> exact AlternativeStatus.noConfusion

theorem verdict_ne_active (n : ℕ) (hash : Bytes) : (verdict cfg env n hash).1 ≠ .active := by
  unfold verdict
  cases env.currentTorrentStatus n hash with
  | some st => exact classifyHealthWithCfg_ne_active _ _
  | none =>
    cases env.testTorrent n hash with
    | none => exact AlternativeStatus.noConfusion
    | some st => exact classifyHealthWithCfg_ne_active _ _

def Cycle.Sound (c : Cycle) : Prop :=
  ∀ alt, .checked alt .verifiedHealthy ∈ c.log → ∀ r ∈ c.table.rows, r.Clash alt →
    r.status ≠ .active

def isPrimary (alt : TorrentAlternative) : Bool :=
  alt.rank = 1 && (alt.status = .dead || alt.status = .verifiedSlow)

theorem isPrimary_iff {alt : TorrentAlternative} : isPrimary alt = true ↔
    alt.rank = 1 ∧ (alt.status = .dead ∨ alt.status = .verifiedSlow) := by
  simp [isPrimary]

variable {c : Cycle} {alt : TorrentAlternative}

inductive AfterCheck (cfg : Config) (env : Surroundings) (S : SliceSort) (c : Cycle)
    (alt : TorrentAlternative) : Alternatives → List Event → Prop
  | attempt (ok : Bool) (table : Alternatives) (events : List Event)
      (primary : isPrimary alt = true)
      (attempt : Attempt cfg env S c.turns alt (checkAndUpdate cfg env c.turns alt c.table) ok table
        events) : AfterCheck cfg env S c alt table events
  | leave (secondary : isPrimary alt = false) :
      AfterCheck cfg env S c alt (checkAndUpdate cfg env c.turns alt c.table) []

theorem AfterCheck.not_checked {table : Alternatives} {events : List Event}
    (h : AfterCheck cfg env S c alt table events) {e : Event} (he : e ∈ events)
    (a : TorrentAlternative) (status : AlternativeStatus) : e ≠ .checked a status := by
  cases h with
  | attempt ok _ _ _ hattempt => exact hattempt.not_checked he a status
  | leave => cases he

theorem turn_afterCheck (S : SliceSort) (alt : TorrentAlternative)
    (hover : c.over cfg env = false) :
    ∃ table events, AfterCheck cfg env S c alt table events ∧
      (c.turn cfg env S alt).table = table ∧ (c.turn cfg env S alt).log =
        c.log ++ .checked alt (verdict cfg env c.turns alt.hash).1 :: events := by
  have hnot : ¬ c.over cfg env = true := by rw [hover]; exact Bool.false_ne_true
  unfold Cycle.turn
  rw [if_neg hnot]
  cases hprimary : isPrimary alt with
  | true =>
    have hif : (alt.rank = 1 && (alt.status = .dead || alt.status = .verifiedSlow)) = true :=
      hprimary
    rw [if_pos hif]
    exact ⟨_, _, .attempt _ _ _ hprimary (tryReplace_attempt c.turns alt _), rfl,
      List.append_assoc _ _ _⟩
  | false =>
    have hif : ¬ (alt.rank = 1 && (alt.status = .dead || alt.status = .verifiedSlow)) = true := by
      rw [show (alt.rank = 1 && (alt.status = .dead || alt.status = .verifiedSlow)) = false from
        hprimary]
      exact Bool.false_ne_true
    rw [if_neg hif]
    exact ⟨_, [], .leave hprimary, rfl, rfl⟩

theorem checked_turn {a : TorrentAlternative} {status : AlternativeStatus}
    (ha : .checked a status ∈ (c.turn cfg env S alt).log) :
    .checked a status ∈ c.log ∨ a = alt := by
  cases hover : c.over cfg env with
  | true =>
    rw [Cycle.turn, if_pos hover] at ha
    exact .inl ha
  | false =>
    obtain ⟨table, events, hafter, -, hlog⟩ := turn_afterCheck S alt hover
    rw [hlog, List.mem_append, List.mem_cons] at ha
    rcases ha with ha | ha | ha
    · exact .inl ha
    · injection ha with ha
      exact .inr ha
    · exact absurd rfl (hafter.not_checked ha a _)

theorem Cycle.Sound.check (h : c.Sound) (cfg : Config) (env : Surroundings)
    {alt a : TorrentAlternative} (ha : .checked a .verifiedHealthy ∈ c.log ∨ a = alt) :
    ∀ r ∈ (checkAndUpdate cfg env c.turns alt c.table).rows, r.Clash a → r.status ≠ .active := by
  intro r hr hclash
  rcases Alternatives.of_mem_update hr with ⟨b, -, -, -, rfl⟩ | ⟨hold, hkey⟩
  · exact verdict_ne_active _ _
  · rcases ha with ha | rfl
    · exact h a ha r hold hclash
    · exact absurd hclash hkey

theorem Cycle.Sound.not_next (h : c.Sound) {a next : TorrentAlternative}
    (ha : .checked a .verifiedHealthy ∈ c.log ∨ a = alt)
    (hnext : (checkAndUpdate cfg env c.turns alt c.table).getNextBestAlternative S alt.contentID
      alt.hash = some next) : ¬ next.Clash a := by
  intro hclash
  obtain ⟨hmem, -, -, hactive⟩ := Alternatives.of_getNextBestAlternative hnext
  exact h.check cfg env ha next hmem hclash hactive

theorem Cycle.Sound.turn (h : c.Sound) (alt : TorrentAlternative) :
    (c.turn cfg env S alt).Sound := by
  cases hover : c.over cfg env with
  | true =>
    rw [Cycle.turn, if_pos hover]
    exact h
  | false =>
    obtain ⟨table, events, hafter, htable, -⟩ := turn_afterCheck S alt hover
    intro a ha r hr hclash
    rw [htable] at hr
    have hcheck := h.check cfg env (checked_turn ha)
    cases hafter with
    | attempt ok _ _ _ hattempt =>
      rcases hattempt.of_mem hr with ⟨next, hnext, hsame⟩ | hdead | hold
      · have hnextclash : next.Clash a := ⟨hsame.1.symm.trans hclash.1, hsame.2.symm.trans hclash.2⟩
        exact absurd hnextclash (h.not_next (checked_turn ha) hnext)
      · rw [hdead]
        exact AlternativeStatus.noConfusion
      · exact hcheck r hold hclash
    | leave => exact hcheck r hr hclash

namespace AfterCheck

variable {table : Alternatives} {events : List Event}

theorem spares (h : AfterCheck cfg env S c alt table events) (hsound : c.Sound)
    {a : TorrentAlternative} (ha : .checked a .verifiedHealthy ∈ c.log) (hnew : ¬ a.Clash alt)
    {e : Event} (he : e ∈ events) : ¬ e.Harms a := by
  cases h with
  | attempt ok _ _ _ hattempt =>
    apply hattempt.spares hnew _ he
    intro next hnext hclash
    exact hsound.not_next (.inl ha) hnext ⟨hclash.1.symm, hclash.2.symm⟩
  | leave => cases he

theorem spares_self_iff (h : AfterCheck cfg env S c alt table events)
    (hover : c.over cfg env = false) :
    (∀ e ∈ events, ∀ a, .checked alt (verdict cfg env c.turns alt.hash).1 =
      Event.checked a .verifiedHealthy → a.rank = 1 → ¬ e.Harms a) ↔ Spares cfg env S c alt := by
  cases h with
  | attempt ok _ _ hprimary hattempt =>
    have hrow := isPrimary_iff.mp hprimary
    constructor
    · intro hall _ hrank _ hhealthy
      refine hattempt.spares_self_iff.mp fun e he => hall e he alt ?_ hrank
      rw [hhealthy]
    · intro hspares e he a heq _
      injection heq with halt hhealthy
      rw [← halt]
      exact hattempt.spares_self_iff.mpr (hspares hover hrow.1 hrow.2 hhealthy) e he
  | leave hsecondary =>
    constructor
    · intro _ _ hrank hstatus _
      rw [isPrimary_iff.mpr ⟨hrank, hstatus⟩] at hsecondary
      cases hsecondary
    · exact fun _ e he => absurd he List.not_mem_nil

theorem healthySpared (h : AfterCheck cfg env S c alt table events) : HealthySpared events := by
  apply List.Pairwise.imp_of_mem _ (List.pairwise_of_forall fun _ _ => trivial)
  intro e f he _ _ a hchecked
  exact absurd hchecked (h.not_checked he a _)

end AfterCheck

theorem spared_turn (h : c.Sound)
    (hnew : ∀ a status, .checked a status ∈ c.log → ¬ a.Clash alt) :
    HealthySpared (c.turn cfg env S alt).log ↔ HealthySpared c.log ∧ Spares cfg env S c alt := by
  cases hover : c.over cfg env with
  | true =>
    rw [Cycle.turn, if_pos hover]
    have hspares : Spares cfg env S c alt := by
      intro hover'
      rw [hover] at hover'
      cases hover'
    exact ⟨fun hlog => ⟨hlog, hspares⟩, fun hlog => hlog.1⟩
  | false =>
    obtain ⟨table, events, hafter, -, hlog⟩ := turn_afterCheck S alt hover
    have hearlier : ∀ e ∈ c.log, ∀ f ∈ .checked alt (verdict cfg env c.turns alt.hash).1 :: events,
        ∀ a, e = .checked a .verifiedHealthy → a.rank = 1 → ¬ f.Harms a := by
      rintro e he f hf a rfl -
      rcases List.mem_cons.mp hf with rfl | hf
      · exact fun hharm => hharm
      · exact hafter.spares h he (hnew a _ he) hf
    rw [hlog, HealthySpared, List.pairwise_append, List.pairwise_cons, hafter.spares_self_iff hover]
    exact ⟨fun hall => ⟨hall.1, hall.2.1.1⟩,
      fun hall => ⟨hall.1, ⟨hall.2, hafter.healthySpared⟩, hearlier⟩⟩

theorem spared_run (alts : List TorrentAlternative) (h : c.Sound)
    (hnew : ∀ a status, .checked a status ∈ c.log → ∀ b ∈ alts, ¬ a.Clash b)
    (hkeys : alts.Pairwise fun a b => ¬ a.Clash b) :
    HealthySpared (run (Cycle.turn cfg env S) c alts).log ↔
      HealthySpared c.log ∧ Meets (Spares cfg env S) (Cycle.turn cfg env S) c alts := by
  induction alts generalizing c with
  | nil => exact ⟨fun hlog => ⟨hlog, trivial⟩, fun hlog => hlog.1⟩
  | cons alt alts ih =>
    obtain ⟨hfirst, hrest⟩ := List.pairwise_cons.mp hkeys
    have hnew' : ∀ a status, .checked a status ∈ (c.turn cfg env S alt).log →
        ∀ b ∈ alts, ¬ a.Clash b := by
      intro a status ha b hb
      rcases checked_turn ha with ha | rfl
      · exact hnew a status ha b (List.mem_cons_of_mem _ hb)
      · exact hfirst b hb
    rw [run_cons, ih (h.turn alt) hnew' hrest,
      spared_turn h fun a status ha => hnew a status ha alt List.mem_cons_self, and_assoc]
    rfl

end Spared

/-- When a cycle leaves the healthy rows alone. -/
theorem healthy_spared_iff (cfg : Config) (env : Surroundings) (S : SliceSort)
    (table : Alternatives) :
    HealthySpared (runCheck cfg env S table).log ↔
      Meets (Spares cfg env S) (Cycle.turn cfg env S) ⟨table, 0, 0, false, []⟩
        (table.getUnhealthyAlternatives S) := by
  rw [runCheck, spared_run]
  · exact and_iff_right List.Pairwise.nil
  · intro a ha
    cases ha
  · intro a status ha
    cases ha
  · exact Alternatives.pairwise_getUnhealthyAlternatives

def deadFilm : TorrentAlternative where
  contentID := ascii "tt01"
  contentType := .movie
  rank := 1
  hash := ascii "aa"
  title := ascii "A"
  size := 0
  seeders := 0
  qualityScore := 0
  status := .dead
  lastHealthCheck := 0
  avgSpeedKBps := 0
  replacementCount := 0

def filmAlternative : TorrentAlternative :=
  { deadFilm with rank := 2, hash := ascii "bb", title := ascii "B", status := .active }

def filmTable : Alternatives := ⟨[deadFilm, filmAlternative], by decide⟩

def recovery : Surroundings where
  start := 1000
  cancelled _ := false
  currentTorrentStatus _ hash := if hash = ascii "aa" then some ⟨2000, 50⟩ else none
  testTorrent _ hash := if hash = ascii "bb" then some ⟨10, 1⟩ else none
  replaceTorrent _ _ _ _ := true
  now _ := 1001

theorem recovered_torrent_replaced :
    ¬ HealthySpared (runCheck defaultConfig recovery .insertion filmTable).log := by
  have hlog : (runCheck defaultConfig recovery .insertion filmTable).log =
      [.checked deadFilm .verifiedHealthy, .setStatus (ascii "tt01") (ascii "bb") .verifiedSlow,
        .replace (ascii "tt01") (ascii "aa") (ascii "bb") (buildMagnet (ascii "bb") (ascii "B"))
          (ascii "B") true,
        .setStatus (ascii "tt01") (ascii "bb") .active,
        .setStatus (ascii "tt01") (ascii "aa") .dead] := by
    decide +kernel
  rw [hlog, HealthySpared, List.pairwise_cons]
  rintro ⟨hharmless, -⟩
  exact hharmless _ (List.mem_cons_of_mem _ List.mem_cons_self) deadFilm rfl rfl ⟨rfl, rfl⟩

end GoStream.Health
