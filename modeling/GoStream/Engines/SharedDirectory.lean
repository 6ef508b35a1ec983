import GoStream.Engines.TV

/-!
# Two engines in one directory
-/

namespace GoStream.Engines

open Foundations

inductive Phase
  | idle
  | processing
  | saved
  deriving DecidableEq

structure Worker where
  registry : Dict Bytes TVEpisodeEntry
  processedThisRun : List Bytes
  phase : Phase
  created : List Bytes

inductive Side
  | first
  | second
  deriving DecidableEq

def Side.other : Side → Side
  | .first => .second
  | .second => .first

structure Shared where
  worker : Side → Worker
  files : Files
  lost : List Bytes

inductive WorkerStep
  | populate (order : MapOrder) (torrents : List TorrentStats) (modTime : Bytes → ℤ)
  | create (x : Creation)
  | saveRegistry
  | cleanup (order : MapOrder)
  | stop

namespace Shared

variable (c : TVConfig)

def setWorker (s : Shared) (e : Side) (w : Worker) : Shared :=
  { s with worker := fun e' => if e' = e then w else s.worker e' }

def owns (w : Worker) (path : Bytes) : Bool := w.created.contains path && registryByPath w.registry path

def losses (other : Worker) (before after : Files) : List Bytes :=
  other.created.filter fun path =>
    owns other path && (before.lookup path).isSome && (after.lookup path).isNone

def step (s : Shared) : Side × WorkerStep → Shared
  | (e, .populate order torrents modTime) =>
    let w := s.worker e
    if w.phase = .idle then
      let t := c.populateRegistryFromExisting order torrents modTime
        ⟨w.registry, w.processedThisRun, s.files⟩
      s.setWorker e { w with registry := t.registry, phase := .processing }
    else s
  | (e, .create x) =>
    let w := s.worker e
    if w.phase = .processing then
      let r := TVState.attempt c x ⟨w.registry, w.processedThisRun, s.files⟩
      { s.setWorker e { w with
          registry := r.1.registry
          processedThisRun := r.1.processedThisRun
          created := if r.2 then x.epPath c :: w.created else w.created } with
        files := r.1.files }
    else s
  | (e, .saveRegistry) =>
    let w := s.worker e
    if w.phase = .processing then s.setWorker e { w with phase := .saved } else s
  | (e, .cleanup order) =>
    let w := s.worker e
    if w.phase = .saved then
      let files := c.cleanupOrphanedFiles order w.registry s.files
      { s.setWorker e { w with phase := .idle } with
        files := files
        lost := losses (s.worker e.other) s.files files ++ s.lost }
    else s
  | (e, .stop) =>
    let w := s.worker e
    if w.phase = .processing then s.setWorker e { w with phase := .idle } else s

def Known (s : Shared) : Side × WorkerStep → Prop
  | (e, .cleanup _) => (s.worker e).phase = .saved → ∀ path, owns (s.worker e.other) path = true →
      (s.files.lookup path).isSome = true → c.isStub path = true →
        registryByPath (s.worker e).registry path = true
  | _ => True

theorem mem_losses {other : Worker} {order : MapOrder} {registry : Dict Bytes TVEpisodeEntry}
    {files : Files} {path : Bytes} :
    path ∈ losses other files (c.cleanupOrphanedFiles order registry files) ↔
      owns other path = true ∧ (files.lookup path).isSome = true ∧ c.isStub path = true ∧
        registryByPath registry path = false := by
  rw [losses, List.mem_filter, lookup_cleanupOrphanedFiles]
  constructor
  · rintro ⟨-, h⟩
    simp only [Bool.and_eq_true] at h
    obtain ⟨⟨howns, hon⟩, hgone⟩ := h
    split_ifs at hgone with hstub
    · exact ⟨howns, hon, hstub⟩
    · rw [Option.isNone_iff_eq_none.mp hgone] at hon
      cases hon
  · rintro ⟨howns, hon, hstub⟩
    have hcreated : path ∈ other.created := by
      simp only [owns, Bool.and_eq_true, List.contains_iff_mem] at howns
      exact howns.1
    exact ⟨hcreated, by simp [howns, hon, hstub]⟩

theorem losses_eq_nil_iff {s : Shared} {e : Side} {order : MapOrder} :
    losses (s.worker e.other) s.files
        (c.cleanupOrphanedFiles order (s.worker e).registry s.files) = [] ↔
      ∀ path, owns (s.worker e.other) path = true → (s.files.lookup path).isSome = true →
        c.isStub path = true → registryByPath (s.worker e).registry path = true := by
  rw [List.eq_nil_iff_forall_not_mem]
  constructor
  · intro h path howns hon hstub
    by_contra hreg
    exact h path ((mem_losses c).mpr ⟨howns, hon, hstub, eq_false_of_ne_true hreg⟩)
  · intro h path hmem
    obtain ⟨howns, hon, hstub, hreg⟩ := (mem_losses c).mp hmem
    rw [h path howns hon hstub] at hreg
    cases hreg

theorem lost_step_eq_nil_iff {s : Shared} (hs : s.lost = []) (i : Side × WorkerStep) :
    (step c s i).lost = [] ↔ Known c s i := by
  obtain ⟨e, i⟩ := i
  cases i with
  | populate order torrents modTime | create x | saveRegistry | stop =>
    simp only [step, Known, iff_true]
    split_ifs <;> exact hs
  | cleanup order =>
    by_cases hphase : (s.worker e).phase = .saved
    · simp only [step, Known, hphase, if_true, true_implies, hs, List.append_nil]
      exact losses_eq_nil_iff c
    · simp only [step, Known, hphase, if_false, false_implies, iff_true]
      exact hs

/-- When no cleanup removes a stub of the other engine. -/
theorem stubs_of_other_engine_kept_iff (worker : Side → Worker) (files : Files)
    (steps : List (Side × WorkerStep)) :
    (∀ pre, pre <+: steps → (run (step c) ⟨worker, files, []⟩ pre).lost = []) ↔
      Meets (Known c) (step c) ⟨worker, files, []⟩ steps :=
  good_iff_meets (fun s : Shared => s.lost = []) (fun _ i hs => lost_step_eq_nil_iff c hs i) rfl steps

def overlappingRuns : List (Side × WorkerStep) :=
  [(.second, .populate .listed [] fun _ => 0), (.first, .populate .listed [] fun _ => 0),
    (.first, .create (pilot showLost hashA)), (.second, .saveRegistry), (.second, .cleanup .listed)]

theorem stub_of_other_engine_removed :
    ¬ ∀ pre, pre <+: overlappingRuns →
      (run (step tvSample) ⟨fun _ => ⟨∅, [], .idle, []⟩, ∅, []⟩ pre).lost = [] := by
  intro h
  exact absurd (h overlappingRuns (List.prefix_refl _)) (by decide +kernel)

end Shared

end GoStream.Engines
