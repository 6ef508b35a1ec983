import GoStream.Foundations.Run
import GoStream.Settings.Storage

/-!
# Settings across restarts
-/

namespace GoStream.Settings

open Foundations

structure State where
  stores : Stores
  process : Option Process
  saved : Option BTSets
  loaded : List (Option BTSets × BTSets)

inductive Op where
  | setBTSets (sets : BTSets)
  | setDefaultConfig
  | switchSettingsStorage (useJson : Bool)
  | findCacheDir (path : Bytes)
  | restart (env : Option Bool)

namespace State

def start : State := ⟨.empty, none, none, []⟩

def save (s : State) (after : Process × Stores) : State :=
  { s with process := some after.1, stores := after.2, saved := some after.1.btSets }

def step (s : State) (op : Op) : State :=
  match op, s.process with
  | .setBTSets sets, some p => s.save (p.setBTSets s.stores sets)
  | .setDefaultConfig, some p => s.save (p.setDefaultConfig s.stores)
  | .switchSettingsStorage useJson, some p => s.save (p.switchSettingsStorage s.stores useJson)
  | .findCacheDir path, some p => { s with process := some (p.findCacheDir path) }
  | .restart env, _ =>
    let (p, stores) := Process.initSets s.stores env
    { s with stores, process := some p, loaded := (s.saved, p.btSets) :: s.loaded }
  | _, none => s

def SettingsSurvive (s : State) : Prop :=
  ∀ e ∈ s.loaded, ∀ sets, e.1 = some sets → e.2.plain = sets.plain

instance (s : State) : Decidable s.SettingsSurvive :=
  inferInstanceAs (Decidable (∀ e ∈ s.loaded, ∀ sets, e.1 = some sets → _))

def undisputed (s : State) : Op → Bool
  | .restart _ =>
    match s.stores.json, s.stores.bbolt, s.process with
    | some j, some b, some p => j.plain == b.plain || p.settingsInJson == !j.storeSettingsInJson
    | _, _, _ => true
  | .switchSettingsStorage useJson =>
    match s.process, s.stores.get (!useJson) with
    | some p, some source =>
      p.settingsInJson == !useJson || source.plain == p.btSets.failsafe.plain
    | _, _ => true
  | _ => true

end State

def Stores.Checked (d : Stores) : Prop := ∀ inJson sets, d.get inJson = some sets → sets.failsafe = sets

namespace Stores.Checked

variable {d : Stores}

theorem set (h : d.Checked) (inJson : Bool) {sets : BTSets} (hsets : sets.failsafe = sets) :
    (d.set inJson sets).Checked := by
  intro other sets' hget
  rw [Stores.set, Stores.get_put] at hget
  split_ifs at hget with heq
  · rw [← Option.some.inj hget]
    exact hsets
  · exact h other sets' hget

theorem rem (h : d.Checked) (inJson : Bool) : (d.rem inJson).Checked := by
  intro other sets hget
  rw [Stores.rem, Stores.get_put] at hget
  split_ifs at hget with heq
  exact h other sets hget

theorem migrateSingle (h : d.Checked) (toJson : Bool) : (d.migrateSingle toJson).1.Checked := by
  unfold Stores.migrateSingle
  split
  · exact h
  · next source hsource =>
    split_ifs
    · exact h
    · exact h.set toJson (h _ source hsource)

theorem safeMigrate (h : d.Checked) (toJson : Bool) : (d.safeMigrate toJson).Checked := by
  have hm := h.migrateSingle toJson
  unfold Stores.safeMigrate
  dsimp only
  split_ifs
  · exact hm.rem _
  · exact hm

end Stores.Checked

theorem Stores.get_migrateSingle (d : Stores) (toJson : Bool) :
    (d.migrateSingle toJson).1.get toJson = (d.get (!toJson)).or (d.get toJson) := by
  unfold migrateSingle
  split
  · next hnone => rw [hnone, Option.none_or]
  · next source hsource =>
    rw [hsource, Option.some_or]
    split_ifs with heq
    · exact heq
    · exact get_set_self toJson source

theorem Stores.get_safeMigrate (d : Stores) (toJson : Bool) :
    (d.safeMigrate toJson).get toJson = (d.get (!toJson)).or (d.get toJson) := by
  rw [← get_migrateSingle]
  unfold safeMigrate
  dsimp only
  split_ifs
  · rw [rem, get_put, if_neg]
    cases toJson <;> decide
  · rfl

theorem Stores.Checked.loadBTSets {d : Stores} (hd : d.Checked) (inJson : Bool) :
    ∃ sets, (d.loadBTSets inJson).1 = sets ∧ sets.failsafe = sets ∧
      (d.loadBTSets inJson).2.Checked ∧ (d.loadBTSets inJson).2.get inJson = some sets ∧
      ∀ old, d.get inJson = some old → sets = old := by
  unfold Stores.loadBTSets
  cases hold : d.get inJson with
  | none =>
    have hdefaults : BTSets.defaults.failsafe = BTSets.defaults := by decide
    refine ⟨.defaults, rfl, hdefaults, hd.set inJson hdefaults, Stores.get_set_self _ _, ?_⟩
    intro old h
    cases h
  | some old =>
    have hold' := hd inJson old hold
    have hahead : ¬ old.readerReadAHead < 5 := by
      rw [← hold']
      simp only [BTSets.failsafe, BTSets.within]
      split_ifs <;> omega
    refine ⟨old, ?_, hold', hd, hold, fun _ h => Option.some.inj h⟩
    simp only [if_neg hahead]

theorem Process.initSets_spec {d : Stores} (hd : d.Checked) (env : Option Bool) {pref : Bool}
    (hpref : d.determineStoragePreferences env = pref) :
    (initSets d env).1.settingsInJson = pref ∧ (initSets d env).2.Checked ∧
      (initSets d env).2.get pref = some (initSets d env).1.btSets ∧
      ∀ old, (d.get (!pref)).or (d.get pref) = some old →
        (initSets d env).1.btSets.plain = old.plain := by
  obtain ⟨sets, hsets, hfail, hchecked, hget, hold⟩ := (hd.safeMigrate pref).loadBTSets pref
  rw [Stores.get_safeMigrate] at hold
  unfold Process.initSets
  simp only [hpref, hsets]
  split_ifs with hflag
  · have hfail' : (sets.withStorage pref).failsafe = sets.withStorage pref := by
      rw [BTSets.failsafe_withStorage, hfail]
    simp only [Process.setBTSets, hfail']
    refine ⟨trivial, hchecked.set pref hfail', Stores.get_set_self _ _, fun old h => ?_⟩
    rw [hold old h, BTSets.plain_withStorage]
  · exact ⟨rfl, hchecked, hget, fun old h => by rw [hold old h]⟩

def Process.Holds (p : Process) (d : Stores) (saved : Option BTSets) : Prop :=
  ∀ sets, saved = some sets → ∃ entry, d.get p.settingsInJson = some entry ∧ entry.plain = sets.plain

theorem Process.holds_setBTSets (p : Process) (d : Stores) (sets : BTSets) :
    (p.setBTSets d sets).1.Holds (p.setBTSets d sets).2 (some (p.setBTSets d sets).1.btSets) := by
  intro saved hsaved
  obtain rfl := Option.some.inj hsaved
  exact ⟨_, Stores.get_set_self _ _, rfl⟩

namespace State

variable {s : State}

structure Inv (s : State) : Prop where
  checked : s.stores.Checked
  fresh : s.process = none → s.saved = none
  holds : ∀ p, s.process = some p → p.Holds s.stores s.saved
  survive : s.SettingsSurvive

theorem inv_start : Inv start := by
  refine ⟨?_, fun _ => rfl, ?_, ?_⟩
  · intro inJson sets h
    cases inJson <;> cases h
  · intro p hp
    cases hp
  · intro e he
    cases he

theorem Inv.save (h : Inv s) {after : Process × Stores} (hchecked : after.2.Checked)
    (hholds : after.1.Holds after.2 (some after.1.btSets)) : Inv (s.save after) := by
  refine ⟨hchecked, fun hnone => ?_, fun p hp => ?_, h.survive⟩
  · cases hnone
  · rw [← Option.some.inj hp]
    exact hholds

theorem holds_switch {p : Process} (hp : s.process = some p) (useJson : Bool)
    (hok : s.undisputed (.switchSettingsStorage useJson) = true) :
    (p.switchSettingsStorage s.stores useJson).1.Holds
      (p.switchSettingsStorage s.stores useJson).2
      (some (p.switchSettingsStorage s.stores useJson).1.btSets) := by
  intro saved hsaved
  obtain rfl := Option.some.inj hsaved
  simp only [Process.switchSettingsStorage, Process.setBTSets, BTSets.failsafe_withStorage]
  generalize hsets : p.btSets.failsafe.withStorage useJson = sets
  have hplain : p.btSets.failsafe.plain = sets.plain := by rw [← hsets, BTSets.plain_withStorage]
  rcases Bool.eq_or_eq_not p.settingsInJson useJson with huse | huse
  · -- the store in use is copied to
    rw [huse, Stores.get_migrateSingle, Stores.get_set_self, Stores.set, Stores.get_put,
      if_neg (by cases useJson <;> decide)]
    cases hsource : s.stores.get (!useJson) with
    | none => exact ⟨sets, rfl, rfl⟩
    | some source =>
      refine ⟨source, rfl, ?_⟩
      simp only [undisputed, hp, hsource, huse, Bool.or_eq_true, beq_iff_eq] at hok
      rcases hok with hok | hok
      · cases useJson <;> cases hok
      · rw [hok, hplain]
  · -- the store in use is copied from
    refine ⟨sets, ?_, rfl⟩
    rw [huse]
    unfold Stores.migrateSingle
    split
    · exact Stores.get_set_self _ _
    · split_ifs
      · exact Stores.get_set_self _ _
      · rw [Stores.set, Stores.get_put, if_neg (by cases useJson <;> decide)]
        exact Stores.get_set_self _ _

theorem Inv.loads (h : Inv s) {env : Option Bool} (hok : s.undisputed (.restart env) = true)
    {pref : Bool} (hpref : s.stores.determineStoragePreferences env = pref) {sets : BTSets}
    (hsaved : s.saved = some sets) :
    ∃ entry, (s.stores.get (!pref)).or (s.stores.get pref) = some entry ∧
      entry.plain = sets.plain := by
  cases hp : s.process with
  | none =>
    rw [h.fresh hp] at hsaved
    cases hsaved
  | some p =>
    obtain ⟨entry, hentry, hplain⟩ := h.holds p hp sets hsaved
    rcases Bool.eq_or_eq_not p.settingsInJson pref with huse | huse
    · rw [huse] at hentry
      cases hsource : s.stores.get (!pref) with
      | none => exact ⟨entry, hentry, hplain⟩
      | some source =>
        refine ⟨source, rfl, ?_⟩
        -- both stores have an entry, and the preference is that of the JSON entry
        obtain ⟨j, b, hj, hb⟩ : ∃ j b, s.stores.json = some j ∧ s.stores.bbolt = some b := by
          cases pref with
          | true => exact ⟨entry, source, hentry, hsource⟩
          | false => exact ⟨source, entry, hsource, hentry⟩
        simp only [Stores.determineStoragePreferences, Stores.loadExistingSettings, hj,
          Option.some_or] at hpref
        simp only [undisputed, hj, hb, hp, huse, hpref, Bool.or_eq_true, beq_iff_eq] at hok
        have hagree : j.plain = b.plain := by
          rcases hok with hok | hok
          · exact hok
          · cases pref <;> cases hok
        cases pref with
        | true =>
          obtain rfl := Option.some.inj (hj.symm.trans hentry)
          obtain rfl := Option.some.inj (hb.symm.trans hsource)
          rw [← hagree, hplain]
        | false =>
          obtain rfl := Option.some.inj (hj.symm.trans hsource)
          obtain rfl := Option.some.inj (hb.symm.trans hentry)
          rw [hagree, hplain]
    · rw [huse] at hentry
      exact ⟨entry, by rw [hentry, Option.some_or], hplain⟩

theorem inv_step (s : State) (op : Op) (h : Inv s) (hok : s.undisputed op = true) :
    Inv (s.step op) := by
  cases op with
  | restart env =>
    obtain ⟨hroute, hchecked, hget, hloaded⟩ := Process.initSets_spec h.checked env rfl
    have hsaved : ∀ sets, s.saved = some sets →
        (Process.initSets s.stores env).1.btSets.plain = sets.plain := by
      intro sets hsets
      obtain ⟨entry, hentry, hplain⟩ := h.loads hok rfl hsets
      rw [hloaded entry hentry, hplain]
    simp only [step]
    generalize Process.initSets s.stores env = after at *
    refine ⟨hchecked, fun hnone => ?_, ?_, ?_⟩
    · cases hnone
    · intro p hp sets hsets
      rw [← Option.some.inj hp]
      exact ⟨_, by rw [hroute]; exact hget, hsaved sets hsets⟩
    · intro e he sets hsets
      rcases List.mem_cons.mp he with rfl | he
      · exact hsaved sets hsets
      · exact h.survive e he sets hsets
  | setBTSets sets =>
    cases hp : s.process with
    | none => simpa only [step, hp] using h
    | some p =>
      simp only [step, hp]
      exact h.save (h.checked.set _ (BTSets.failsafe_failsafe sets)) (p.holds_setBTSets _ sets)
  | setDefaultConfig =>
    cases hp : s.process with
    | none => simpa only [step, hp] using h
    | some p =>
      simp only [step, hp]
      refine h.save (h.checked.set _ (by decide)) ?_
      intro sets hsets
      obtain rfl := Option.some.inj hsets
      exact ⟨_, Stores.get_set_self _ _, rfl⟩
  | switchSettingsStorage useJson =>
    cases hp : s.process with
    | none => simpa only [step, hp] using h
    | some p =>
      simp only [step, hp]
      refine h.save ?_ (holds_switch hp useJson hok)
      exact (h.checked.set _ (BTSets.failsafe_failsafe _)).migrateSingle useJson
  | findCacheDir path =>
    cases hp : s.process with
    | none => simpa only [step, hp] using h
    | some p =>
      simp only [step, hp]
      refine ⟨h.checked, fun hnone => ?_, ?_, h.survive⟩
      · cases hnone
      intro p' hp' sets hsets
      obtain rfl := Option.some.inj hp'
      have huse : (p.findCacheDir path).settingsInJson = p.settingsInJson := by
        unfold Process.findCacheDir
        split_ifs <;> rfl
      rw [huse]
      exact h.holds p hp sets hsets

/-- Every start loads what was saved last. -/
theorem settings_survive (ops : List Op)
    (h : Meets (fun s op => s.undisputed op = true) step start ops) :
    ∀ pre, pre <+: ops → SettingsSurvive (run step start pre) :=
  Meets.good inv_step (fun _ hs => hs.survive) ops inv_start h

theorem settings_survive_switch :
    let ops : List Op := [.restart none, .setBTSets { cacheSize := 1 },
      .switchSettingsStorage false, .setBTSets { cacheSize := 2 }, .restart none]
    ((run step start ops).loaded.map fun e => e.2.cacheSize) = [2, 134217728] ∧
      SettingsSurvive (run step start ops) :=
  ⟨by decide, settings_survive _ (by decide) _ (List.prefix_refl _)⟩

theorem settings_not_survive : ¬ ∀ ops : List Op, SettingsSurvive (run step start ops) := by
  intro h
  exact absurd (h [.restart none, .switchSettingsStorage false, .restart none,
    .setBTSets { cacheSize := 1 }, .restart none]) (by decide)

end State

end GoStream.Settings
