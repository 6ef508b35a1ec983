import GoStream.Health.Checker

/-!
# Is a better measurement a better status?
-/

namespace GoStream.Health

open Foundations Metadb

def worse : AlternativeStatus → AlternativeStatus → Bool
  | .dead, .verifiedSlow | .dead, .verifiedHealthy | .verifiedSlow, .verifiedHealthy => true
  | _, _ => false

structure Config.Ordered (cfg : Config) : Prop where
  pos : 0 < cfg.slowSeeders
  seeders : cfg.slowSeeders ≤ cfg.minSeeders
  speed : cfg.minSpeedSlow ≤ cfg.minSpeedFast

structure Grows (first second : Stats) : Prop where
  speed_nonneg : 0 ≤ first.speedKBps
  seeders_nonneg : 0 ≤ first.seeders
  speed : first.speedKBps ≤ second.speedKBps
  seeders : first.seeders ≤ second.seeders

def Config.Drops (cfg : Config) (first second : Stats) : Prop :=
  0 < first.seeders ∧ first.seeders < cfg.slowSeeders ∧ cfg.slowSeeders ≤ second.seeders ∧
    second.speedKBps ≤ cfg.minSpeedSlow

def Stats.status (cfg : Config) (st : Stats) : AlternativeStatus :=
  classifyHealthWithCfg cfg st.speedKBps st.seeders

def measured (env : Surroundings) (n : ℕ) (hash : Bytes) : Option Stats :=
  (env.currentTorrentStatus n hash).or (env.testTorrent n hash)

def recorded (table : Alternatives) (contentID hash : Bytes) : Option AlternativeStatus :=
  (table.rows.find? fun a => a.isRow contentID hash).map TorrentAlternative.status

variable {cfg : Config} {first second : Stats}

section Levels

variable {st : Stats}

theorem status_eq_dead_iff (hcfg : cfg.Ordered) : st.status cfg = .dead ↔
    st.seeders = 0 ∨ cfg.slowSeeders ≤ st.seeders ∧ st.speedKBps ≤ cfg.minSpeedSlow := by
  have hpos := hcfg.pos
  have hspeed := Int64.le_iff_toInt_le.mp hcfg.speed
  unfold Stats.status classifyHealthWithCfg
  simp only [Int64.le_iff_toInt_le, Bool.and_eq_true, decide_eq_true_eq, Int64.lt_iff_toInt_lt]
  split_ifs <;> simp <;> omega

theorem status_eq_healthy_iff (hcfg : cfg.Ordered) : st.status cfg = .verifiedHealthy ↔
    cfg.minSeeders ≤ st.seeders ∧ cfg.minSpeedFast < st.speedKBps := by
  have hpos := hcfg.pos
  have hseeders := hcfg.seeders
  unfold Stats.status classifyHealthWithCfg
  simp only [Int64.lt_iff_toInt_lt, Bool.and_eq_true, decide_eq_true_eq]
  split_ifs <;> simp <;> omega

theorem status_cases (cfg : Config) (st : Stats) : st.status cfg = .dead ∨
    st.status cfg = .verifiedSlow ∨ st.status cfg = .verifiedHealthy := by
  unfold Stats.status classifyHealthWithCfg
  split_ifs <;> simp

end Levels

theorem worse_status_iff (hcfg : cfg.Ordered) (hgrows : Grows first second) :
    worse (second.status cfg) (first.status cfg) = true ↔ cfg.Drops first second := by
  have hdead : first.status cfg = .dead ↔ _ := status_eq_dead_iff hcfg
  have hdead' : second.status cfg = .dead ↔ _ := status_eq_dead_iff hcfg
  have hhealthy : first.status cfg = .verifiedHealthy → second.status cfg = .verifiedHealthy := by
    rw [status_eq_healthy_iff hcfg, status_eq_healthy_iff hcfg]
    exact fun h => ⟨h.1.trans hgrows.seeders, Int64.lt_of_lt_of_le h.2 hgrows.speed⟩
  have hdrop : second.status cfg = .dead ∧ first.status cfg ≠ .dead ↔ cfg.Drops first second := by
    have hseeders := hgrows.seeders
    have hnonneg := hgrows.seeders_nonneg
    have hspeed := Int64.le_iff_toInt_le.mp hgrows.speed
    rw [Ne, hdead, hdead', Config.Drops]
    simp only [Int64.le_iff_toInt_le]
    omega
  rw [← hdrop]
  rcases status_cases cfg first with h | h | h
  · rw [h]
    rcases status_cases cfg second with h' | h' | h' <;> simp [h', worse]
  · rw [h]
    rcases status_cases cfg second with h' | h' | h' <;> simp [h', worse]
  · rw [hhealthy h, h]
    simp [worse]

theorem forall_not_drops_iff (hcfg : cfg.Ordered) :
    (∀ first second, Grows first second → ¬ cfg.Drops first second) ↔
      cfg.slowSeeders = 1 ∨ cfg.minSpeedSlow < 0 := by
  have hpos := hcfg.pos
  constructor
  · intro h
    by_contra hcfg'
    push Not at hcfg'
    have hgrows : Grows ⟨0, 1⟩ ⟨0, cfg.slowSeeders⟩ :=
      ⟨Int64.le_refl 0, zero_le_one, Int64.le_refl 0, hpos⟩
    refine h _ _ hgrows ⟨zero_lt_one, ?_, le_refl _, Int64.not_lt.mp hcfg'.2⟩
    exact lt_of_le_of_ne hpos (Ne.symm hcfg'.1)
  · rintro hcfg' first second hgrows ⟨hone, hfew, -, hslow⟩
    rcases hcfg' with hslowSeeders | hspeed
    · omega
    · have hzero : 0 ≤ second.speedKBps := Int64.le_trans hgrows.speed_nonneg hgrows.speed
      exact absurd (Int64.lt_of_le_of_lt (Int64.le_trans hzero hslow) hspeed) Int64.lt_irrefl

section Recorded

variable {env : Surroundings} {n : ℕ} {alt : TorrentAlternative} {table : Alternatives}

theorem recorded_checkAndUpdate (halt : alt ∈ table.rows) {st : Stats}
    (hst : measured env n alt.hash = some st) :
    recorded (checkAndUpdate cfg env n alt table) alt.contentID alt.hash = some (st.status cfg) := by
  have hverdict : verdict cfg env n alt.hash = (st.status cfg, st) := by
    rw [measured] at hst
    unfold verdict Stats.status
    cases hlive : env.currentTorrentStatus n alt.hash with
    | some live =>
      rw [hlive, Option.some_or] at hst
      rw [Option.some.inj hst]
    | none =>
      rw [hlive, Option.none_or] at hst
      rw [hst]
  obtain ⟨a, ha⟩ : ∃ a, (table.rows.find? fun a => a.isRow alt.contentID alt.hash) = some a := by
    rw [← Option.isSome_iff_exists, List.find?_isSome]
    exact ⟨alt, halt, by simp [TorrentAlternative.isRow]⟩
  rw [recorded, checkAndUpdate, hverdict, Alternatives.updateAlternativeHealth,
    Alternatives.find?_update, ha]
  rfl

end Recorded

/-- When a better measurement is a better status. -/
theorem health_monotone_iff (hcfg : cfg.Ordered) :
    (∀ first second, Grows first second →
      (worse (second.status cfg) (first.status cfg) = false ↔ ¬ cfg.Drops first second)) ∧
    (∀ (env env' : Surroundings) (n n' : ℕ) (alt : TorrentAlternative) (table table' : Alternatives)
        (first second : Stats), alt ∈ table.rows → alt ∈ table'.rows →
      measured env n alt.hash = some first → measured env' n' alt.hash = some second →
      Grows first second →
        ∃ status status',
          recorded (checkAndUpdate cfg env n alt table) alt.contentID alt.hash = some status ∧
          recorded (checkAndUpdate cfg env' n' alt table') alt.contentID alt.hash = some status' ∧
          (worse status' status = false ↔ ¬ cfg.Drops first second)) ∧
    ((∀ first second, Grows first second → worse (second.status cfg) (first.status cfg) = false) ↔
      cfg.slowSeeders = 1 ∨ cfg.minSpeedSlow < 0) := by
  have hpair : ∀ first second, Grows first second →
      (worse (second.status cfg) (first.status cfg) = false ↔ ¬ cfg.Drops first second) := by
    intro first second hgrows
    rw [← worse_status_iff hcfg hgrows, Bool.not_eq_true]
  refine ⟨hpair, ?_, ?_⟩
  · intro env env' n n' alt table table' first second halt halt' hfirst hsecond hgrows
    exact ⟨_, _, recorded_checkAndUpdate halt hfirst, recorded_checkAndUpdate halt' hsecond,
      hpair first second hgrows⟩
  · rw [← forall_not_drops_iff hcfg]
    exact forall₂_congr fun first second => imp_congr_right fun hgrows => hpair first second hgrows

theorem health_monotone_iff_default :
    worse (Stats.status defaultConfig ⟨600, 20⟩) (Stats.status defaultConfig ⟨50, 4⟩) = false := by
  have hcfg : defaultConfig.Ordered := ⟨by decide, by decide, by decide⟩
  have hgrows : Grows ⟨50, 4⟩ ⟨600, 20⟩ := ⟨by decide, by decide, by decide, by decide⟩
  refine ((health_monotone_iff hcfg).1 _ _ hgrows).mpr ?_
  rintro ⟨-, -, -, hslow⟩
  exact absurd hslow (by decide)

theorem defaultConfig_not_monotone : defaultConfig.Ordered ∧ Grows ⟨50, 4⟩ ⟨50, 5⟩ ∧
    Stats.status defaultConfig ⟨50, 4⟩ = .verifiedSlow ∧
    Stats.status defaultConfig ⟨50, 5⟩ = .dead :=
  ⟨⟨by decide, by decide, by decide⟩, ⟨by decide, by decide, by decide, by decide⟩, by decide,
    by decide⟩

end GoStream.Health
