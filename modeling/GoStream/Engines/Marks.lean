import GoStream.Engines.Sync

/-!
# Upgrades over several runs
-/

namespace GoStream.Engines

open Foundations Regex Inodes AutoRemove

def Offer.valid (o : Offer) : Option Creation := o.creation.filter fun x => x.write = .done

def Offer.Decides (c : TVConfig) (key : Bytes) (score : ℤ) (o : Offer) : Prop :=
  o.key c = key ∧ (noUpgrade o.score score = true ∨ o.valid.isSome = true)

section Offers

variable (c : TVConfig)

def TVState.takes (s : TVState) (o : Offer) : Option Creation :=
  if s.processedThisRun.contains (o.key c) || s.keeps (o.key c) o.score then none else o.valid

def TVState.removes (s : TVState) (o : Offer) : Option Bytes :=
  (s.takes c o).bind fun x => s.replaced (x.key c) (x.epPath c)

def TVState.created : TVState → List Offer → List Creation
  | _, [] => []
  | s, o :: os => (s.takes c o).toList ++ TVState.created (s.consider c o) os

variable {c} {s : TVState} {o : Offer} {x : Creation}

theorem valid_eq_some : o.valid = some x ↔ o.creation = some x ∧ x.write = .done := by
  rw [Offer.valid, Option.filter_eq_some_iff, decide_eq_true_eq]

theorem key_of_creation (h : o.creation = some x) : x.key c = o.key c := by
  obtain ⟨hsh, hseason, hepisode, -⟩ := o.fits x h
  rw [Creation.key, Offer.key, hsh, hseason, hepisode]

theorem frame_of_valid_eq_none (h : o.valid = none) :
    ∃ files : Files, s.accept c o = { s with files := files } ∧
      ∀ p, (∀ x ∈ o.creation, x.epPath c ≠ p) → files.lookup p = s.files.lookup p := by
  unfold TVState.accept
  cases hx : o.creation with
  | none => exact ⟨s.files, rfl, fun _ _ => rfl⟩
  | some x =>
    dsimp only
    cases hw : x.write with
    | done => exact absurd (valid_eq_some.mpr ⟨hx, hw⟩) (by simp [h])
    | failed => exact ⟨s.files, by rw [writeEpisode_failed hw], fun _ _ => rfl⟩
    | cut part =>
      refine ⟨AList.insert (x.epPath c) part s.files, by rw [writeEpisode_cut hw], ?_⟩
      intro p hp
      rw [Dict.lookup_insert, if_neg (hp x rfl).symm]

theorem consider_cases (c : TVConfig) (s : TVState) (o : Offer) :
    (s.processedThisRun.contains (o.key c) = true ∧ s.takes c o = none ∧ s.consider c o = s) ∨
      (s.processedThisRun.contains (o.key c) = false ∧ s.keeps (o.key c) o.score = true ∧
        s.takes c o = none ∧ s.consider c o = s.mark (o.key c)) ∨
      (s.processedThisRun.contains (o.key c) = false ∧ s.keeps (o.key c) o.score = false ∧
        ((s.takes c o = none ∧ o.valid = none ∧
            ∃ files : Files, s.consider c o = { s with files := files } ∧
              ∀ p, (∀ x ∈ o.creation, x.epPath c ≠ p) → files.lookup p = s.files.lookup p) ∨
          ∃ x, o.valid = some x ∧ s.takes c o = some x ∧
            s.consider c o = (s.writeEpisode c x).1)) := by
  unfold TVState.takes TVState.consider
  cases hmarked : s.processedThisRun.contains (o.key c) with
  | true => exact .inl ⟨rfl, rfl, rfl⟩
  | false =>
    cases hkeeps : s.keeps (o.key c) o.score with
    | true => exact .inr (.inl ⟨rfl, rfl, rfl, rfl⟩)
    | false =>
      refine .inr (.inr ⟨rfl, rfl, ?_⟩)
      cases hvalid : o.valid with
      | none => exact .inl ⟨rfl, rfl, frame_of_valid_eq_none hvalid⟩
      | some x =>
        refine .inr ⟨x, rfl, rfl, ?_⟩
        rw [TVState.accept, (valid_eq_some.mp hvalid).1]
        rfl

theorem created_append (c : TVConfig) (os os' : List Offer) (s : TVState) :
    s.created c (os ++ os') = s.created c os ++ (run (TVState.consider c) s os).created c os' := by
  induction os generalizing s with
  | nil => rfl
  | cons o os ih =>
    rw [List.cons_append, TVState.created, TVState.created, ih, run_cons, List.append_assoc]

end Offers

section Episode

variable (key : Bytes) (entry : TVEpisodeEntry)

structure TVState.Undecided (s : TVState) : Prop where
  mark : s.processedThisRun.contains key = false
  lookup : s.registry.lookup key = some entry

structure TVState.Closed (s : TVState) : Prop where
  mark : s.processedThisRun.contains key = true
  lookup : s.registry.lookup key = some entry

def Without (c : TVConfig) (xs : List Creation) : Prop := ∀ x ∈ xs, x.key c ≠ key

variable {key entry} {c : TVConfig} {s : TVState} {o : Offer} {x : Creation}

theorem contains_mark (s : TVState) (k k' : Bytes) :
    (s.mark k).processedThisRun.contains k' = (k' == k || s.processedThisRun.contains k') := rfl

theorem contains_writeEpisode_done (h : x.write = .done) (k : Bytes) :
    (s.writeEpisode c x).1.processedThisRun.contains k =
      (k == x.key c || s.processedThisRun.contains k) := by
  rw [writeEpisode_done h]
  rfl

theorem TVState.Closed.consider (h : s.Closed key entry) (o : Offer) :
    (s.consider c o).Closed key entry ∧ Without key c (s.takes c o).toList := by
  rcases consider_cases c s o with ⟨-, htakes, heq⟩ | ⟨-, -, htakes, heq⟩ | ⟨hmark, -, hrest⟩
  · rw [heq, htakes]
    exact ⟨h, by simp [Without]⟩
  · rw [heq, htakes]
    exact ⟨⟨by rw [contains_mark, h.mark, Bool.or_true], h.lookup⟩, by simp [Without]⟩
  · have hne : o.key c ≠ key := by
      rintro rfl
      rw [h.mark] at hmark
      cases hmark
    rcases hrest with ⟨htakes, -, files, heq, -⟩ | ⟨x, hvalid, htakes, heq⟩
    · rw [heq, htakes]
      exact ⟨⟨h.mark, h.lookup⟩, by simp [Without]⟩
    · obtain ⟨hx, hdone⟩ := valid_eq_some.mp hvalid
      have hkey : x.key c ≠ key := by
        rw [key_of_creation hx]
        exact hne
      rw [heq, htakes]
      refine ⟨⟨?_, ?_⟩, by simpa [Without] using hkey⟩
      · rw [contains_writeEpisode_done hdone, h.mark, Bool.or_true]
      · rw [lookup_registry_writeEpisode_done hdone, if_neg hkey.symm]
        exact h.lookup

theorem TVState.Undecided.keeps_eq (h : s.Undecided key entry) (score : ℤ) :
    s.keeps key score = noUpgrade score entry.qualityScore := by
  rw [TVState.keeps, h.lookup]

theorem TVState.Undecided.consider (h : s.Undecided key entry)
    (ho : ¬ o.Decides c key entry.qualityScore) :
    (s.consider c o).Undecided key entry ∧ Without key c (s.takes c o).toList := by
  by_cases hkey : o.key c = key
  · -- the offer beats the score and cannot be created
    rw [Offer.Decides, not_and, not_or, Bool.not_eq_true, Option.not_isSome_iff_eq_none] at ho
    obtain ⟨hbeats, hvalid⟩ := ho hkey
    rcases consider_cases c s o with ⟨hmark, -⟩ | ⟨-, hkeeps, -⟩ | ⟨-, -, hrest⟩
    · rw [hkey, h.mark] at hmark
      cases hmark
    · rw [hkey, h.keeps_eq, hbeats] at hkeeps
      cases hkeeps
    · rcases hrest with ⟨htakes, -, files, heq, -⟩ | ⟨x, hx, -⟩
      · rw [heq, htakes]
        exact ⟨⟨h.mark, h.lookup⟩, by simp [Without]⟩
      · rw [hvalid] at hx
        cases hx
  · have hkey' : (key == o.key c) = false := beq_eq_false_iff_ne.mpr (Ne.symm hkey)
    rcases consider_cases c s o with ⟨-, htakes, heq⟩ | ⟨-, -, htakes, heq⟩ | ⟨-, -, hrest⟩
    · rw [heq, htakes]
      exact ⟨h, by simp [Without]⟩
    · rw [heq, htakes]
      exact ⟨⟨by rw [contains_mark, hkey', h.mark]; rfl, h.lookup⟩, by simp [Without]⟩
    · rcases hrest with ⟨htakes, -, files, heq, -⟩ | ⟨x, hvalid, htakes, heq⟩
      · rw [heq, htakes]
        exact ⟨⟨h.mark, h.lookup⟩, by simp [Without]⟩
      · obtain ⟨hx, hdone⟩ := valid_eq_some.mp hvalid
        have hxkey : x.key c = o.key c := key_of_creation hx
        rw [heq, htakes]
        refine ⟨⟨?_, ?_⟩, by simpa [Without, hxkey] using hkey⟩
        · rw [contains_writeEpisode_done hdone, hxkey, hkey', h.mark]
          rfl
        · rw [lookup_registry_writeEpisode_done hdone, hxkey, if_neg (Ne.symm hkey)]
          exact h.lookup

theorem TVState.Undecided.closed_of_skip (h : s.Undecided key entry) (hkey : o.key c = key)
    (hskip : noUpgrade o.score entry.qualityScore = true) :
    (s.consider c o).Closed key entry ∧ s.takes c o = none := by
  subst hkey
  rcases consider_cases c s o with ⟨hmark, -⟩ | ⟨-, -, htakes, heq⟩ | ⟨-, hkeeps, -⟩
  · rw [h.mark] at hmark
    cases hmark
  · rw [heq]
    exact ⟨⟨by rw [contains_mark, beq_self_eq_true, Bool.true_or], h.lookup⟩, htakes⟩
  · rw [h.keeps_eq, hskip] at hkeeps
    cases hkeeps

theorem TVState.Undecided.closed_of_take (h : s.Undecided key entry) (hkey : o.key c = key)
    (hbeats : noUpgrade o.score entry.qualityScore = false) (hvalid : o.valid = some x) :
    (s.consider c o).Closed key (x.entry c) ∧ s.takes c o = some x ∧
      AList.lookup (x.epPath c) (s.consider c o).files = some (x.content c) := by
  subst hkey
  rcases consider_cases c s o with ⟨hmark, -⟩ | ⟨-, hkeeps, -⟩ | ⟨-, -, hrest⟩
  · rw [h.mark] at hmark
    cases hmark
  · rw [h.keeps_eq, hbeats] at hkeeps
    cases hkeeps
  · rcases hrest with ⟨-, hnone, -⟩ | ⟨y, hvalid', htakes, heq⟩
    · rw [hvalid] at hnone
      cases hnone
    · obtain rfl := Option.some.inj (hvalid.symm.trans hvalid')
      obtain ⟨hx, hdone⟩ := valid_eq_some.mp hvalid
      have hxkey : x.key c = o.key c := key_of_creation hx
      rw [heq]
      refine ⟨⟨?_, ?_⟩, htakes, ?_⟩
      · rw [contains_writeEpisode_done hdone, hxkey, beq_self_eq_true, Bool.true_or]
      · rw [lookup_registry_writeEpisode_done hdone, hxkey, if_pos rfl]
      · rw [lookup_files_writeEpisode_done hdone, if_neg, if_pos rfl]
        intro hold
        obtain ⟨-, -, -, -, hne⟩ := replaced_eq_some.mp hold
        exact hne rfl

theorem Without.append {xs ys : List Creation} (hx : Without key c xs) (hy : Without key c ys) :
    Without key c (xs ++ ys) := fun x hmem =>
  (List.mem_append.mp hmem).elim (hx x) (hy x)

theorem TVState.Closed.after (os : List Offer) (h : s.Closed key entry) :
    (run (TVState.consider c) s os).Closed key entry ∧
      Without key c (s.created c os) := by
  induction os generalizing s with
  | nil => exact ⟨h, fun _ hx => absurd hx List.not_mem_nil⟩
  | cons o os ih =>
    obtain ⟨hclosed, hwithout⟩ := h.consider (c := c) o
    obtain ⟨hend, hrest⟩ := ih hclosed
    exact ⟨hend, hwithout.append hrest⟩

theorem TVState.Undecided.after (os : List Offer) (h : s.Undecided key entry)
    (hos : ∀ o ∈ os, ¬ o.Decides c key entry.qualityScore) :
    (run (TVState.consider c) s os).Undecided key entry ∧
      Without key c (s.created c os) := by
  induction os generalizing s with
  | nil => exact ⟨h, fun _ hx => absurd hx List.not_mem_nil⟩
  | cons o os ih =>
    obtain ⟨hopen, hwithout⟩ := h.consider (hos o List.mem_cons_self)
    obtain ⟨hend, hrest⟩ := ih hopen fun p hp => hos p (List.mem_cons_of_mem _ hp)
    exact ⟨hend, hwithout.append hrest⟩

theorem TVState.Undecided.without_of_skip {before after : List Offer} (h : s.Undecided key entry)
    (hbefore : ∀ p ∈ before, ¬ p.Decides c key entry.qualityScore) (hkey : o.key c = key)
    (hskip : noUpgrade o.score entry.qualityScore = true) :
    Without key c (s.created c (before ++ o :: after)) := by
  obtain ⟨hopen, hfirst⟩ := h.after before hbefore
  obtain ⟨hclosed, hnone⟩ := hopen.closed_of_skip hkey hskip
  rw [created_append, TVState.created, hnone]
  exact hfirst.append (hclosed.after after).2

theorem TVState.Undecided.mem_created_iff {before after : List Offer} (h : s.Undecided key entry)
    (hbefore : ∀ p ∈ before, ¬ p.Decides c key entry.qualityScore) (hkey : o.key c = key)
    (hbeats : noUpgrade o.score entry.qualityScore = false) (hvalid : o.valid = some x)
    {y : Creation} : (y ∈ s.created c (before ++ o :: after) ∧ y.key c = key) ↔ y = x := by
  obtain ⟨hopen, hfirst⟩ := h.after before hbefore
  obtain ⟨hclosed, htakes, -⟩ := hopen.closed_of_take hkey hbeats hvalid
  rw [created_append, TVState.created, htakes, List.mem_append, List.mem_append,
    Option.toList_some, List.mem_singleton]
  constructor
  · rintro ⟨hy | rfl | hy, hykey⟩
    · exact absurd hykey (hfirst y hy)
    · rfl
    · exact absurd hykey ((hclosed.after after).2 y hy)
  · rintro rfl
    exact ⟨.inr (.inl rfl), (key_of_creation (valid_eq_some.mp hvalid).1).trans hkey⟩

def Spares (c : TVConfig) (path : Bytes) (s : TVState) (o : Offer) : Prop :=
  s.removes c o ≠ some path

theorem epPath_ne {y : Creation} (h : y.key c ≠ x.key c) : y.epPath c ≠ x.epPath c := by
  intro heq
  obtain ⟨hname, hyear, hseason, hepisode⟩ := path_inj heq
  apply h
  rw [Creation.key, Creation.key, hseason, hepisode]
  exact episodeKey_congr _ hname hyear

theorem TVState.Closed.lookup_files (h : s.Closed (x.key c) entry) (o : Offer) :
    AList.lookup (x.epPath c) (s.consider c o).files =
      if s.removes c o = some (x.epPath c) then none else s.files.lookup (x.epPath c) := by
  rcases consider_cases c s o with ⟨-, htakes, heq⟩ | ⟨-, -, htakes, heq⟩ | ⟨hmark, -, hrest⟩
  · simp [heq, TVState.removes, htakes]
  · simp [heq, TVState.removes, htakes, TVState.mark]
  · have hother : ∀ y, o.creation = some y → y.epPath c ≠ x.epPath c := by
      intro y hy
      apply epPath_ne
      rw [key_of_creation hy]
      intro hkey
      rw [hkey, h.mark] at hmark
      cases hmark
    rcases hrest with ⟨htakes, -, files, heq, hframe⟩ | ⟨y, hvalid, htakes, heq⟩
    · simp only [heq, TVState.removes, htakes, Option.bind_none, reduceCtorEq, if_false]
      exact hframe _ hother
    · obtain ⟨hy, hdone⟩ := valid_eq_some.mp hvalid
      rw [heq, lookup_files_writeEpisode_done hdone, if_neg (Ne.symm (hother y hy)),
        TVState.removes, htakes, Option.bind_some]

theorem TVState.Closed.lookup_files_run (os : List Offer) (h : s.Closed (x.key c) entry)
    (data : Bytes) :
    AList.lookup (x.epPath c) (run (TVState.consider c) s os).files = some data ↔
      s.files.lookup (x.epPath c) = some data ∧
        Meets (Spares c (x.epPath c)) (TVState.consider c) s os := by
  induction os generalizing s with
  | nil => simp [Meets]
  | cons o os ih =>
    rw [run_cons, ih (h.consider o).1, h.lookup_files, Meets, Spares]
    by_cases hremoved : s.removes c o = some (x.epPath c)
    · simp [hremoved]
    · rw [if_neg hremoved]
      constructor
      · rintro ⟨hfile, hrest⟩
        exact ⟨hfile, hremoved, hrest⟩
      · rintro ⟨hfile, -, hrest⟩
        exact ⟨hfile, hrest⟩

end Episode

section Runs

variable (ch : TVChannel) (s : TVState) (r : SyncInput) (key : Bytes) (existing : TVEpisodeEntry)

def TVChannel.Upgraded : Prop :=
  ∃ x ∈ (ch.started s r).created ch.toTVConfig (ch.offers s r), x.key ch.toTVConfig = key ∧
    noUpgrade x.score existing.qualityScore = false ∧
    AList.lookup key (ch.sync s r).registry = some (x.entry ch.toTVConfig) ∧
    AList.lookup (x.epPath ch.toTVConfig) (ch.sync s r).files = some (x.content ch.toTVConfig)

def TVChannel.Prevails : Prop :=
  ∃ before o after x, ch.offers s r = before ++ o :: after ∧
    (∀ p ∈ before, ¬ p.Decides ch.toTVConfig key existing.qualityScore) ∧
    o.key ch.toTVConfig = key ∧ noUpgrade o.score existing.qualityScore = false ∧
    o.valid = some x ∧
    Meets (Spares ch.toTVConfig (x.epPath ch.toTVConfig)) (TVState.consider ch.toTVConfig)
      (run (TVState.consider ch.toTVConfig) (ch.started s r) (before ++ [o])) after

variable {ch s r key existing}

theorem registry_sync : (ch.sync s r).registry =
    (run (TVState.consider ch.toTVConfig) (ch.started s r) (ch.offers s r)).registry := by
  rw [sync_eq_run]
  split_ifs <;> rfl

theorem processedThisRun_sync : (ch.sync s r).processedThisRun =
    (run (TVState.consider ch.toTVConfig) (ch.started s r) (ch.offers s r)).processedThisRun := by
  rw [sync_eq_run]
  split_ifs <;> rfl

theorem lookup_files_sync {k path : Bytes} {entry : TVEpisodeEntry}
    (h : AList.lookup k (ch.sync s r).registry = some entry) (hpath : entry.filePath = path) :
    AList.lookup path (ch.sync s r).files =
      AList.lookup path
        (run (TVState.consider ch.toTVConfig) (ch.started s r) (ch.offers s r)).files := by
  rw [registry_sync] at h
  have hreg := registryByPath_iff.mpr ⟨k, entry, h, hpath⟩
  rw [sync_eq_run]
  split_ifs
  · rw [lookup_cleanupOrphanedFiles, if_neg (by simp [hreg])]
  · rfl

theorem exists_first_decides (c : TVConfig) (key : Bytes) (score : ℤ) (os : List Offer) :
    (∀ o ∈ os, ¬ o.Decides c key score) ∨
      ∃ before o after, os = before ++ o :: after ∧ (∀ p ∈ before, ¬ p.Decides c key score) ∧
        o.Decides c key score := by
  induction os with
  | nil => exact .inl fun _ h => absurd h List.not_mem_nil
  | cons o os ih =>
    by_cases ho : o.Decides c key score
    · exact .inr ⟨[], o, os, rfl, fun _ h => absurd h List.not_mem_nil, ho⟩
    · rcases ih with hnone | ⟨before, p, after, rfl, hbefore, hp⟩
      · exact .inl (List.forall_mem_cons.mpr ⟨ho, hnone⟩)
      · exact .inr ⟨o :: before, p, after, rfl, List.forall_mem_cons.mpr ⟨ho, hbefore⟩, hp⟩

theorem closed_of_prevails {before after : List Offer} {o : Offer} {x : Creation}
    (h : (ch.started s r).Undecided key existing) (heq : ch.offers s r = before ++ o :: after)
    (hbefore : ∀ p ∈ before, ¬ p.Decides ch.toTVConfig key existing.qualityScore)
    (hkey : o.key ch.toTVConfig = key) (hbeats : noUpgrade o.score existing.qualityScore = false)
    (hvalid : o.valid = some x) :
    AList.lookup key (ch.sync s r).registry = some (x.entry ch.toTVConfig) ∧
      (AList.lookup (x.epPath ch.toTVConfig) (ch.sync s r).files =
          some (x.content ch.toTVConfig) ↔
        Meets (Spares ch.toTVConfig (x.epPath ch.toTVConfig)) (TVState.consider ch.toTVConfig)
          (run (TVState.consider ch.toTVConfig) (ch.started s r) (before ++ [o])) after) := by
  have hxkey : x.key ch.toTVConfig = key := (key_of_creation (valid_eq_some.mp hvalid).1).trans hkey
  obtain ⟨hopen, -⟩ := h.after before hbefore
  obtain ⟨hclosed, -, hfile⟩ := hopen.closed_of_take hkey hbeats hvalid
  have hsplit : before ++ o :: after = (before ++ [o]) ++ after := by simp
  have hlast : run (TVState.consider ch.toTVConfig) (ch.started s r) (before ++ [o]) =
      (run (TVState.consider ch.toTVConfig) (ch.started s r) before).consider ch.toTVConfig o := by
    rw [run_append]
    rfl
  rw [← hlast] at hclosed hfile
  have hlookup : AList.lookup key (ch.sync s r).registry = some (x.entry ch.toTVConfig) := by
    rw [registry_sync, heq, hsplit, run_append]
    exact (hclosed.after after).1.lookup
  refine ⟨hlookup, ?_⟩
  rw [← hxkey] at hclosed
  have hpath : (x.entry ch.toTVConfig).filePath = x.epPath ch.toTVConfig := rfl
  rw [lookup_files_sync hlookup hpath, heq, hsplit, run_append, hclosed.lookup_files_run after]
  exact and_iff_right hfile

/-- When an episode is upgraded in a run. -/
theorem upgraded_iff (ch : TVChannel) (s : TVState) (r : SyncInput) (key : Bytes)
    (existing : TVEpisodeEntry) (hreg : (ch.started s r).registry.lookup key = some existing) :
    ch.Upgraded s r key existing ↔
      s.processedThisRun.contains key = false ∧ ch.Prevails s r key existing := by
  have hstart : (ch.started s r).processedThisRun = s.processedThisRun := rfl
  constructor
  · rintro ⟨x, hx, hxkey, -, hentry, hfile⟩
    cases hmark : s.processedThisRun.contains key with
    | true =>
      have hclosed : (ch.started s r).Closed key existing := ⟨hstart ▸ hmark, hreg⟩
      exact absurd hxkey ((hclosed.after _).2 x hx)
    | false =>
      have hopen : (ch.started s r).Undecided key existing := ⟨hstart ▸ hmark, hreg⟩
      refine ⟨rfl, ?_⟩
      rcases exists_first_decides ch.toTVConfig key existing.qualityScore (ch.offers s r) with
        hnone | ⟨before, o, after, heq, hbefore, hkey, hdecides⟩
      · exact absurd hxkey ((hopen.after _ hnone).2 x hx)
      · rw [heq] at hx
        cases hbeats : noUpgrade o.score existing.qualityScore with
        | true => exact absurd hxkey (hopen.without_of_skip hbefore hkey hbeats x hx)
        | false =>
          obtain ⟨y, hy⟩ := Option.isSome_iff_exists.mp (hdecides.resolve_left (by simp [hbeats]))
          obtain rfl := (hopen.mem_created_iff hbefore hkey hbeats hy).mp ⟨hx, hxkey⟩
          exact ⟨before, o, after, x, heq, hbefore, hkey, hbeats, hy,
            (closed_of_prevails hopen heq hbefore hkey hbeats hy).2.mp hfile⟩
  · rintro ⟨hmark, before, o, after, x, heq, hbefore, hkey, hbeats, hvalid, hspared⟩
    have hopen : (ch.started s r).Undecided key existing := ⟨hstart ▸ hmark, hreg⟩
    obtain ⟨hlookup, hfile⟩ := closed_of_prevails hopen heq hbefore hkey hbeats hvalid
    have hmem : x ∈ (ch.started s r).created ch.toTVConfig (before ++ o :: after) ∧
        x.key ch.toTVConfig = key := (hopen.mem_created_iff hbefore hkey hbeats hvalid).mpr rfl
    have hscore : x.score = o.score := (o.fits x (valid_eq_some.mp hvalid).1).2.2.2
    exact ⟨x, heq ▸ hmem.1, hmem.2, hscore ▸ hbeats, hlookup, hfile.mpr hspared⟩

theorem lookup_started (h : s.registry.lookup key = some existing) :
    (ch.started s r).registry.lookup key = some existing := by
  apply populate_induct (P := fun registry => registry.lookup key = some existing) _ h
  intro registry f x entry _ _ _ hfree _ hlookup
  rw [Dict.lookup_insert, if_neg]
  · exact hlookup
  · rintro rfl
    rw [hfree] at hlookup
    cases hlookup

theorem closed_sync (s : TVState) (r : SyncInput) (h : s.Closed key existing) :
    (ch.sync s r).Closed key existing := by
  have hstart : (ch.started s r).Closed key existing := ⟨h.mark, lookup_started h.lookup⟩
  have hend := (hstart.after (c := ch.toTVConfig) (ch.offers s r)).1
  exact ⟨processedThisRun_sync ▸ hend.mark, registry_sync ▸ hend.lookup⟩

/-- An episode with a mark keeps its entry in all later runs. -/
theorem closed_runs (rs : List SyncInput) (h : s.Closed key existing) :
    (run ch.sync s rs).Closed key existing :=
  run_keeps (TVState.Closed key existing) closed_sync rs h

end Runs

def sampleChannel : TVChannel := ⟨tvSample, true, .insertion⟩

def pilotRun (score : ℤ) (hash : InfoHash) : SyncInput where
  order := .listed
  torrents := []
  modTime := fun _ => 0
  tasks := [⟨showLost, [⟨1, 24⟩], [⟨pilotStream score, false, false, goodAnswers hash⟩]⟩]
  finishes := true
  cleanupOrder := .listed

def afterFirstRun : TVState := sampleChannel.sync ⟨∅, [], ∅⟩ (pilotRun 300000 hashA)

def firstEntry : TVEpisodeEntry :=
  ⟨300000, hashA.digits, tvSample.path showLost 1 1 hashA, ascii "single", 0⟩

theorem closed_runs_pilot :
    (run sampleChannel.sync afterFirstRun [pilotRun 400000 hashB]).Closed (tvSample.key showLost 1 1)
      firstEntry :=
  closed_runs _ ⟨by decide +kernel, by decide +kernel⟩

def secondOffer : Offer := singleOffer tvSample showLost (pilotStream 400000) (goodAnswers hashB) 1

theorem upgraded_iff_restarted :
    sampleChannel.Upgraded { afterFirstRun with processedThisRun := [] } (pilotRun 400000 hashB)
      (tvSample.key showLost 1 1) firstEntry := by
  refine (upgraded_iff _ _ _ _ _ (by decide +kernel)).mpr
    ⟨rfl, [], secondOffer, [], { pilot showLost hashB with
      score := 400000
      magnet := (pilotStream 400000).magnet
      file := ⟨1, ascii "Lost.S01E01.1080p.mkv", 900000000⟩
      source := ascii "single" }, ?_, ?_, rfl, ?_, ?_, trivial⟩
  · decide +kernel
  · exact fun _ h => absurd h List.not_mem_nil
  · decide +kernel
  · decide +kernel

theorem secondRun_not_upgraded :
    (sampleChannel.started afterFirstRun (pilotRun 400000 hashB)).registry.lookup
        (tvSample.key showLost 1 1) = some firstEntry ∧
      sampleChannel.offers afterFirstRun (pilotRun 400000 hashB) = [secondOffer] ∧
      secondOffer.key tvSample = tvSample.key showLost 1 1 ∧
      noUpgrade secondOffer.score firstEntry.qualityScore = false ∧
      secondOffer.valid.isSome = true ∧
      ¬ sampleChannel.Upgraded afterFirstRun (pilotRun 400000 hashB) (tvSample.key showLost 1 1)
        firstEntry := by
  have hlookup : (sampleChannel.started afterFirstRun (pilotRun 400000 hashB)).registry.lookup
      (tvSample.key showLost 1 1) = some firstEntry := by decide +kernel
  have hclosed : (sampleChannel.started afterFirstRun (pilotRun 400000 hashB)).Closed
      (tvSample.key showLost 1 1) firstEntry := ⟨by decide +kernel, hlookup⟩
  refine ⟨hlookup, by decide +kernel, rfl, by decide +kernel, by decide +kernel, ?_⟩
  rintro ⟨x, hx, hkey, -⟩
  exact (hclosed.after _).2 x hx hkey

end GoStream.Engines
