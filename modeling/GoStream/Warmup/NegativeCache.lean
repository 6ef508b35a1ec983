import GoStream.Foundations.Run
import GoStream.Foundations.Threads
import GoStream.Warmup.Steps

/-!
# The negative cache of one warmup file
-/

namespace GoStream.Warmup

open Foundations

structure Inode where
  id : ℕ
  size : ℕ
  deriving DecidableEq, Repr

structure Descriptor where
  inode : ℕ
  closed : Bool
  deriving DecidableEq, Repr

structure PathVars where
  file : Option Inode
  missing : Bool
  sizeCache : Option SizeEntry
  handle : Option ℕ
  opened : List Descriptor
  inodes : ℕ
  reports : List ℕ

structure Chunk where
  data : Bytes
  off : ℕ
  deriving DecidableEq, Repr

inductive PathThread where
  | rangeMissing
  | rangeCached
  | rangeStat
  | rangeClose
  | rangeForget
  | rangeRemove
  | rangeStore
  | rangeNote (size : ℕ)
  | writeCached (w : Chunk)
  | writeSize (w : Chunk)
  | writeNoteSize (size : ℕ)
  | writeStat (w : Chunk)
  | writeClear (w : Chunk)
  | writeCreate (w : Chunk)
  | writeRegister (w : Chunk) (fd : ℕ)
  | writeHandle (w : Chunk)
  | writeOpen (w : Chunk)
  | writeAdopt (w : Chunk) (fd : ℕ)
  | writeClosed (w : Chunk) (fd : ℕ)
  | writeAt (w : Chunk) (fd : ℕ)
  | writeNote (size : ℕ)
  | removeClose
  | removeForget
  | removeFile
  deriving DecidableEq, Repr

namespace PathVars

variable (v : PathVars)

def report (size : ℕ) : PathVars := { v with reports := size :: v.reports }

def storeSize (size now : ℕ) : PathVars := { v with sizeCache := some ⟨size, now⟩ }

def closeDescriptor (fd : ℕ) : PathVars :=
  { v with opened := v.opened.modify fd fun d => { d with closed := true } }

def closeHandle : PathVars :=
  match v.handle with
  | none => v
  | some fd => { v with handle := none }.closeDescriptor fd

def openInode (inode : ℕ) : PathVars := { v with opened := v.opened ++ [⟨inode, false⟩] }

def createFile : PathVars :=
  match v.file with
  | none => { v with file := some ⟨v.inodes, 0⟩, inodes := v.inodes + 1 }.openInode v.inodes
  | some f => { v with file := some { f with size := 0 } }.openInode f.id

def grow (inode : ℕ) (off written : ℕ) : PathVars :=
  { v with
    file := v.file.map fun f =>
      if f.id = inode ∧ written ≠ 0 then { f with size := max f.size (off + written) } else f }

end PathVars

def PathThread.turn (cfg : WarmupConfig) (now : ℕ) (io : IoFaults) (v : PathVars) :
    PathThread → PathVars × Option PathThread
  | .rangeMissing => if v.missing then (v.report 0, none) else (v, some .rangeCached)
  | .rangeCached =>
    match v.sizeCache.filter fun e => decide (now - e.updatedAt < sizeTTL) with
    | some e => (v.report e.size, none)
    | none => (v, some .rangeStat)
  | .rangeStat =>
    match v.file with
    | none => (v, some .rangeStore)
    | some f =>
      (v, some (if f.size > cfg.warmupFileSize + cfg.oversize then .rangeClose
        else .rangeNote f.size))
  | .rangeClose => (v.closeHandle, some .rangeForget)
  | .rangeForget => ({ v with sizeCache := none }, some .rangeRemove)
  | .rangeRemove => ({ v with file := none }, some .rangeStore)
  | .rangeStore => ({ v with missing := true }.report 0, none)
  | .rangeNote size => ((v.storeSize size now).report size, none)
  | .writeCached w =>
    match v.sizeCache with
    | some e => (v, if e.size > cfg.warmupFileSize then none else some (.writeStat w))
    | none => (v, some (.writeSize w))
  | .writeSize w =>
    match v.file with
    | some f =>
      (v, some (if f.size > cfg.warmupFileSize then .writeNoteSize f.size else .writeStat w))
    | none => (v, some (.writeStat w))
  | .writeNoteSize size => (v.storeSize size now, none)
  | .writeStat w =>
    match v.file with
    | none => (v, some (.writeClear w))
    | some _ => (v, some (.writeHandle w))
  | .writeClear w => ({ v with missing := false }, some (.writeCreate w))
  | .writeCreate w =>
    if io.createFails then (v, none) else (v.createFile, some (.writeRegister w v.opened.length))
  | .writeRegister w fd => ({ v with handle := some fd }, some (.writeHandle w))
  | .writeHandle w =>
    match v.handle with
    | some fd => (v, some (.writeClosed w fd))
    | none => (v, some (.writeOpen w))
  | .writeOpen w =>
    match v.file with
    | none => (v, none)
    | some f =>
      if io.openFails then (v, none)
      else (v.openInode f.id, some (.writeAdopt w v.opened.length))
  | .writeAdopt w fd =>
    match v.handle with
    | some fd' => (v.closeDescriptor fd, some (.writeClosed w fd'))
    | none => ({ v with handle := some fd }, some (.writeClosed w fd))
  | .writeClosed w fd =>
    if v.opened[fd]?.any Descriptor.closed then (v, none) else (v, some (.writeAt w fd))
  | .writeAt w fd =>
    match v.opened[fd]? with
    | none => (v, none)
    | some d =>
      if d.closed then (v, none)
      else
        (v.grow d.inode w.off (io.written w.data),
          if io.written w.data < w.data.length then none
          else some (.writeNote (w.off + io.written w.data)))
  | .writeNote size => (v.storeSize size now, none)
  | .removeClose => (v.closeHandle, some .removeForget)
  | .removeForget => ({ v with sizeCache := none }, some .removeFile)
  | .removeFile => ({ v with file := none }, none)

structure OnePath where
  vars : PathVars
  threads : List PathThread
  now : ℕ

inductive OnePath.Op where
  | tick (nanos : ℕ)
  | getAvailableRange
  | processWrite (data : Bytes) (off : ℕ)
  | remove
  | advance (k : ℕ) (io : IoFaults)

namespace OnePath

variable (cfg : WarmupConfig) (o : OnePath)

def start (size : Option ℕ) (now : ℕ) : OnePath :=
  ⟨⟨size.map (⟨0, ·⟩), false, none, none, [], 1, []⟩, [], now⟩

def goOn (k : ℕ) : Option PathThread → List PathThread
  | some t => o.threads.set k t
  | none => o.threads.eraseIdx k

def spawn (t : PathThread) : OnePath := { o with threads := o.threads ++ [t] }

def advance (k : ℕ) (io : IoFaults) : OnePath :=
  match o.threads[k]? with
  | none => o
  | some t =>
    let out := t.turn cfg o.now io o.vars
    { o with vars := out.1, threads := o.goOn k out.2 }

def step (o : OnePath) : Op → OnePath
  | .tick nanos => { o with now := o.now + nanos }
  | .getAvailableRange => o.spawn .rangeMissing
  | .processWrite data off =>
    if off > cfg.warmupFileSize then o
    else o.spawn (.writeCached ⟨DiskWarmupCache.headData cfg data off, off⟩)
  | .remove => if o.vars.file.isSome then o.spawn .removeClose else o
  | .advance k io => o.advance cfg k io

def Quiescent : Prop := o.threads = []

end OnePath

def PathThread.creates : PathThread → Bool
  | .writeCreate _ => true
  | _ => false

namespace OnePath

def Absent (o : OnePath) : Prop :=
  o.vars.file = none ∧ ∀ t ∈ o.threads, t.creates = false

def Settled (o : OnePath) : Prop := o.vars.missing = true → o.Absent

def InTime (o : OnePath) : Op → Prop
  | .advance k _ => o.threads[k]? = some .rangeStore → o.Absent
  | _ => True

instance (o : OnePath) : Decidable o.Absent :=
  inferInstanceAs (Decidable (o.vars.file = none ∧ ∀ t ∈ o.threads, t.creates = false))

instance decidableInTime (o : OnePath) : ∀ op, Decidable (o.InTime op)
  | .advance k _ => inferInstanceAs (Decidable (o.threads[k]? = some .rangeStore → o.Absent))
  | .tick _ | .getAvailableRange | .processWrite _ _ | .remove => .isTrue trivial

end OnePath

namespace PathVars

variable (v : PathVars)

@[simp] theorem missing_closeHandle : v.closeHandle.missing = v.missing := by
  unfold closeHandle
  split <;> rfl

@[simp] theorem file_closeHandle : v.closeHandle.file = v.file := by
  unfold closeHandle
  split <;> rfl

@[simp] theorem missing_createFile : v.createFile.missing = v.missing := by
  unfold createFile
  split <;> rfl

@[simp] theorem sizeCache_closeHandle : v.closeHandle.sizeCache = v.sizeCache := by
  unfold closeHandle
  split <;> rfl

@[simp] theorem sizeCache_createFile : v.createFile.sizeCache = v.sizeCache := by
  unfold createFile
  split <;> rfl

end PathVars

namespace PathThread

variable {cfg : WarmupConfig} {now : ℕ} {io : IoFaults} {v : PathVars}

theorem missing_turn (t : PathThread) (h : (t.turn cfg now io v).1.missing = true) :
    t = .rangeStore ∨ v.missing = true := by
  cases t with
  | rangeStore => exact .inl rfl
  | writeClear w => cases h
  | rangeClose | removeClose => exact .inr (v.missing_closeHandle ▸ h)
  | writeCreate w =>
    rw [turn] at h
    split_ifs at h
    · exact .inr h
    · exact .inr (v.missing_createFile ▸ h)
  | _ =>
    right
    simp only [turn] at h
    repeat' split at h
    all_goals exact h

theorem file_turn (t : PathThread) (ht : t.creates = false) (h : v.file = none) :
    (t.turn cfg now io v).1.file = none := by
  cases t with
  | writeCreate w => cases ht
  | rangeClose | removeClose => exact v.file_closeHandle.trans h
  | writeAt w fd =>
    rw [turn]
    cases v.opened[fd]? with
    | none => exact h
    | some d =>
      have hgrow : (v.grow d.inode w.off (io.written w.data)).file = none := by
        simp [PathVars.grow, h]
      dsimp only
      split
      · exact h
      · exact hgrow
  | _ =>
    simp only [turn]
    repeat' split
    all_goals exact h

theorem creates_turn (t : PathThread) {u : PathThread} (hu : (t.turn cfg now io v).2 = some u)
    (h : u.creates = true) : (t.turn cfg now io v).1.missing = false := by
  cases t with
  | writeClear w => rfl
  | _ =>
    simp only [turn] at hu
    repeat' split at hu
    all_goals first | cases hu; cases h | cases hu

theorem sizeCache_turn (t : PathThread) {e : SizeEntry}
    (he : (t.turn cfg now io v).1.sizeCache = some e) :
    e.updatedAt = now ∨ v.sizeCache = some e := by
  cases t with
  | rangeNote size | writeNoteSize size | writeNote size =>
    left
    rw [← Option.some.inj he]
  | rangeForget | removeForget => cases he
  | rangeClose | removeClose => exact .inr (v.sizeCache_closeHandle ▸ he)
  | writeCreate w =>
    right
    rw [turn] at he
    split_ifs at he
    · exact he
    · exact v.sizeCache_createFile ▸ he
  | _ =>
    right
    simp only [turn] at he
    repeat' split at he
    all_goals exact he

end PathThread

namespace OnePath

variable {cfg : WarmupConfig} {o : OnePath}

theorem advance_of_getElem? {k : ℕ} {t : PathThread} (ht : o.threads[k]? = some t)
    (io : IoFaults) : o.advance cfg k io =
      { o with
        vars := (t.turn cfg o.now io o.vars).1
        threads := o.goOn k (t.turn cfg o.now io o.vars).2 } := by
  rw [advance, ht]

theorem mem_goOn {k : ℕ} {next : Option PathThread} {u : PathThread} (h : u ∈ o.goOn k next) :
    u ∈ o.threads ∨ next = some u := by
  cases next with
  | none => exact .inl (List.mem_of_mem_eraseIdx h)
  | some t =>
    rcases List.mem_or_eq_of_mem_set h with h | rfl
    · exact .inl h
    · exact .inr rfl

theorem settled_spawn (h : Settled o) {t : PathThread} (ht : t.creates = false) :
    Settled (o.spawn t) := by
  intro hmiss
  obtain ⟨hfile, hthreads⟩ := h hmiss
  refine ⟨hfile, fun u hu => ?_⟩
  rcases List.mem_append.mp hu with hu | hu
  · exact hthreads u hu
  · rw [List.mem_singleton.mp hu]
    exact ht

theorem settled_store_iff {k : ℕ} (hk : o.threads[k]? = some .rangeStore) (io : IoFaults) :
    Settled (o.advance cfg k io) ↔ o.Absent := by
  rw [advance_of_getElem? hk]
  constructor
  · intro h
    obtain ⟨hfile, hthreads⟩ := h rfl
    refine ⟨hfile, fun u hu => ?_⟩
    by_cases hne : u = .rangeStore
    · rw [hne]
      rfl
    · exact hthreads u (mem_eraseIdx_of_ne hk hu hne)
  · rintro ⟨hfile, hthreads⟩ -
    exact ⟨hfile, fun u hu => hthreads u (List.mem_of_mem_eraseIdx hu)⟩

theorem settled_turn (h : Settled o) {k : ℕ} {t : PathThread} (hk : o.threads[k]? = some t)
    (ht : t ≠ .rangeStore) (io : IoFaults) : Settled (o.advance cfg k io) := by
  rw [advance_of_getElem? hk]
  intro hmiss
  have hold : o.vars.missing = true := (t.missing_turn hmiss).resolve_left ht
  obtain ⟨hfile, hthreads⟩ := h hold
  have hcreates := hthreads t (List.mem_of_getElem? hk)
  refine ⟨t.file_turn hcreates hfile, fun u hu => ?_⟩
  rcases mem_goOn hu with hu | hu
  · exact hthreads u hu
  · by_contra hcreate
    have hfalse := t.creates_turn hu (Bool.not_eq_false _ ▸ hcreate)
    cases hfalse.symm.trans hmiss

theorem settled_step_iff (h : Settled o) (op : Op) : Settled (o.step cfg op) ↔ o.InTime op := by
  cases op with
  | tick nanos => exact iff_of_true h trivial
  | getAvailableRange => exact iff_of_true (settled_spawn h rfl) trivial
  | processWrite data off =>
    refine iff_of_true ?_ trivial
    rw [step]
    split_ifs
    · exact h
    · exact settled_spawn h rfl
  | remove =>
    refine iff_of_true ?_ trivial
    rw [step]
    split_ifs
    · exact settled_spawn h rfl
    · exact h
  | advance k io =>
    rw [step, InTime]
    cases hk : o.threads[k]? with
    | none =>
      have hsame : o.advance cfg k io = o := by rw [advance, hk]
      rw [hsame]
      exact iff_of_true h fun hnone => by cases hnone
    | some t =>
      by_cases ht : t = .rangeStore
      · rw [ht, imp_iff_right rfl]
        exact settled_store_iff (ht ▸ hk) io
      · exact iff_of_true (settled_turn h hk ht io) fun hsome => absurd (Option.some.inj hsome) ht

theorem settled_start (size : Option ℕ) (now : ℕ) : Settled (start size now) :=
  fun h => by cases h

def alone (v : PathVars) (now : ℕ) (t : Option PathThread) : OnePath := ⟨v, t.toList, now⟩

theorem advance_alone (v : PathVars) (now : ℕ) (t : PathThread) (io : IoFaults) :
    (alone v now (some t)).advance cfg 0 io =
      alone (t.turn cfg now io v).1 now (t.turn cfg now io v).2 := by
  rw [advance_of_getElem? (t := t) rfl]
  unfold alone
  cases (t.turn cfg now io v).2 <;> rfl

theorem run_alone_none (v : PathVars) (now : ℕ) (io : IoFaults) (n : ℕ) :
    run (step cfg) (alone v now none) (List.replicate n (.advance 0 io)) = alone v now none := by
  induction n with
  | zero => rfl
  | succ n ih => exact ih

theorem run_alone_some (v : PathVars) (now : ℕ) (t : PathThread) (io : IoFaults) (n : ℕ) :
    run (step cfg) (alone v now (some t)) (List.replicate (n + 1) (.advance 0 io)) =
      run (step cfg) (alone (t.turn cfg now io v).1 now (t.turn cfg now io v).2)
        (List.replicate n (.advance 0 io)) := by
  rw [List.replicate_succ, run_cons, step, advance_alone]

variable (cfg) (o) in
def coverage (nanos : ℕ) : Option ℕ :=
  (run (step cfg) o
    (.tick nanos :: .getAvailableRange :: List.replicate 7 (.advance 0 .none))).vars.reports.head?

def Dated (o : OnePath) : Prop := ∀ e ∈ o.vars.sizeCache, e.updatedAt ≤ o.now

theorem coverage_eq (hquiet : o.Quiescent) (hdated : o.Dated) (hmiss : o.vars.missing = false)
    {f : Inode} (hf : o.vars.file = some f) (hsize : f.size ≤ cfg.warmupFileSize + cfg.oversize)
    {nanos : ℕ} (hold : sizeTTL ≤ nanos) : o.coverage cfg nanos = some f.size := by
  have hstart : ((o.step cfg (.tick nanos)).step cfg .getAvailableRange) =
      alone o.vars (o.now + nanos) (some .rangeMissing) := by
    simp only [step, spawn, alone, Option.toList_some]
    rw [show o.threads = [] from hquiet, List.nil_append]
  have hcached : o.vars.sizeCache.filter
      (fun e => decide (o.now + nanos - e.updatedAt < sizeTTL)) = none := by
    cases he : o.vars.sizeCache with
    | none => rfl
    | some e =>
      have hle := hdated e he
      have hlate : ¬ o.now + nanos - e.updatedAt < sizeTTL := by omega
      simp [Option.filter, hlate]
  rw [coverage, run_cons, run_cons, hstart]
  rw [run_alone_some, PathThread.turn, if_neg (by simp [hmiss])]
  rw [run_alone_some, PathThread.turn, hcached]
  rw [run_alone_some, PathThread.turn, hf]
  dsimp only
  rw [if_neg (not_lt.mpr hsize), run_alone_some, PathThread.turn, run_alone_none]
  rfl

theorem Dated.step (h : Dated o) (op : Op) : Dated (o.step cfg op) := by
  cases op with
  | tick nanos => exact fun e he => (h e he).trans (Nat.le_add_right _ _)
  | getAvailableRange => exact h
  | processWrite data off | remove =>
    rw [OnePath.step]
    split_ifs <;> exact h
  | advance k io =>
    rw [OnePath.step]
    cases hk : o.threads[k]? with
    | none =>
      rw [advance, hk]
      exact h
    | some t =>
      rw [advance_of_getElem? hk]
      intro e he
      rcases t.sizeCache_turn he with hnow | hold
      · exact hnow.le
      · exact h e hold

/-- A file that exists is not held to be missing. -/
theorem missing_only_if_absent (cfg : WarmupConfig) (size : Option ℕ) (now : ℕ) (ops : List Op)
    (h : Meets InTime (step cfg) (start size now) ops) (pre : List Op) (hpre : pre <+: ops)
    (hquiet : (run (step cfg) (start size now) pre).Quiescent) :
    ((run (step cfg) (start size now) pre).vars.missing = true →
      (run (step cfg) (start size now) pre).vars.file = none) ∧
    ∀ f, (run (step cfg) (start size now) pre).vars.file = some f →
      f.size ≤ cfg.warmupFileSize + cfg.oversize → ∀ nanos ≥ sizeTTL,
        (run (step cfg) (start size now) pre).coverage cfg nanos = some f.size := by
  have hdated : Dated (run (step cfg) (start size now) pre) :=
    run_keeps Dated (fun _ op hd => hd.step op) pre fun e he => by cases he
  have hsettled : Settled (run (step cfg) (start size now) pre) := by
    have hgood := (good_iff_meets Settled (fun s op hs => @settled_step_iff cfg s hs op)
      (settled_start size now) ops).mpr h
    exact hgood pre hpre
  refine ⟨fun hmiss => (hsettled hmiss).1, fun f hf hlimit nanos hnanos => ?_⟩
  have hmiss : (run (step cfg) (start size now) pre).vars.missing = false := by
    by_contra hmiss
    cases hf.symm.trans (hsettled (Bool.not_eq_false _ ▸ hmiss)).1
  exact coverage_eq hquiet hdated hmiss hf hlimit hnanos

def writtenAlone : List Op := .processWrite [1, 2, 3] 0 :: List.replicate 10 (.advance 0 .none)

theorem missing_only_if_absent_written :
    (Meets InTime (step {}) (start none 0) writtenAlone ∧
      (run (step {}) (start none 0) writtenAlone).Quiescent ∧
      (run (step {}) (start none 0) writtenAlone).vars.file = some ⟨1, 3⟩) ∧
    ((run (step {}) (start none 0) writtenAlone).vars.missing = true →
      (run (step {}) (start none 0) writtenAlone).vars.file = none) ∧
    ∀ f, (run (step {}) (start none 0) writtenAlone).vars.file = some f →
      f.size ≤ ({} : WarmupConfig).warmupFileSize + ({} : WarmupConfig).oversize →
        ∀ nanos ≥ sizeTTL,
          (run (step {}) (start none 0) writtenAlone).coverage {} nanos = some f.size := by
  have hmeets : Meets InTime (step {}) (start none 0) writtenAlone := by decide +kernel
  have hquiet : (run (step {}) (start none 0) writtenAlone).threads = [] := by decide +kernel
  refine ⟨⟨hmeets, hquiet, by decide +kernel⟩, ?_⟩
  exact missing_only_if_absent {} none 0 writtenAlone hmeets writtenAlone List.prefix_rfl hquiet

end OnePath

def PathThread.harmless : PathThread → Bool
  | .rangeMissing | .writeCached _ | .writeSize _ | .writeNoteSize _ | .writeStat _
  | .writeHandle _ | .writeOpen _ | .writeAdopt _ _ | .writeClosed _ _ | .writeAt _ _
  | .writeNote _ => true
  | _ => false

namespace OnePath

structure Stuck (o : OnePath) : Prop where
  missing : o.vars.missing = true
  file : o.vars.file.isSome = true
  harmless : ∀ t ∈ o.threads, t.harmless = true

def OnlyZeros (old new : PathVars) : Prop := ∃ n, new.reports = List.replicate n 0 ++ old.reports

end OnePath

namespace PathThread

variable {cfg : WarmupConfig} {now : ℕ} {io : IoFaults} {v : PathVars}

structure StaysStuck (v : PathVars) (out : PathVars × Option PathThread) : Prop where
  missing : out.1.missing = true
  file : out.1.file.isSome = true
  harmless : out.2.all PathThread.harmless = true
  zeros : OnePath.OnlyZeros v out.1

theorem StaysStuck.of_reports {v' : PathVars} {next : Option PathThread}
    (hmiss : v'.missing = true) (hfile : v'.file.isSome = true)
    (hnext : next.all PathThread.harmless = true) (hreports : v'.reports = v.reports) :
    StaysStuck v (v', next) :=
  ⟨hmiss, hfile, hnext, 0, hreports⟩

theorem stuck_turn {t : PathThread} (ht : t.harmless = true) (hmiss : v.missing = true)
    (hfile : v.file.isSome = true) : StaysStuck v (t.turn cfg now io v) := by
  cases t with
  | rangeMissing =>
    rw [turn, if_pos hmiss]
    exact ⟨hmiss, hfile, rfl, 1, rfl⟩
  | writeAt w fd =>
    rw [turn]
    cases v.opened[fd]? with
    | none => exact .of_reports hmiss hfile rfl rfl
    | some d =>
      have hgrow : (v.grow d.inode w.off (io.written w.data)).file.isSome = true := by
        simp [PathVars.grow, hfile]
      dsimp only
      split
      · exact .of_reports hmiss hfile rfl rfl
      · refine .of_reports hmiss hgrow ?_ rfl
        split <;> rfl
  | writeStat w =>
    obtain ⟨f, hf⟩ := Option.isSome_iff_exists.mp hfile
    rw [turn, hf]
    exact .of_reports hmiss hfile rfl rfl
  | writeSize w | writeOpen w =>
    obtain ⟨f, hf⟩ := Option.isSome_iff_exists.mp hfile
    rw [turn, hf]
    dsimp only
    split_ifs <;> exact .of_reports hmiss hfile rfl rfl
  | writeCached _ | writeNoteSize _ | writeHandle _ | writeAdopt _ _ | writeClosed _ _
  | writeNote _ =>
    simp only [turn]
    repeat' split
    all_goals exact .of_reports hmiss hfile rfl rfl
  | _ => cases ht

end PathThread

namespace OnePath

variable {cfg : WarmupConfig} {o : OnePath}

theorem Stuck.spawn (h : Stuck o) {t : PathThread} (ht : t.harmless = true) :
    Stuck (o.spawn t) := by
  refine ⟨h.missing, h.file, fun u hu => ?_⟩
  rcases List.mem_append.mp hu with hu | hu
  · exact h.harmless u hu
  · rw [List.mem_singleton.mp hu]
    exact ht

theorem Stuck.step (h : Stuck o) {op : Op} (hop : op ≠ .remove) :
    Stuck (o.step cfg op) ∧ OnlyZeros o.vars (o.step cfg op).vars := by
  have hsame : OnlyZeros o.vars o.vars := ⟨0, rfl⟩
  cases op with
  | tick nanos => exact ⟨⟨h.missing, h.file, h.harmless⟩, hsame⟩
  | getAvailableRange => exact ⟨h.spawn rfl, hsame⟩
  | processWrite data off =>
    rw [OnePath.step]
    split_ifs
    · exact ⟨h, hsame⟩
    · exact ⟨h.spawn rfl, hsame⟩
  | remove => exact absurd rfl hop
  | advance k io =>
    rw [OnePath.step]
    cases hk : o.threads[k]? with
    | none =>
      rw [advance, hk]
      exact ⟨h, hsame⟩
    | some t =>
      have hturn : PathThread.StaysStuck o.vars (t.turn cfg o.now io o.vars) :=
        PathThread.stuck_turn (h.harmless t (List.mem_of_getElem? hk)) h.missing h.file
      rw [advance_of_getElem? hk]
      refine ⟨⟨hturn.missing, hturn.file, fun u hu => ?_⟩, hturn.zeros⟩
      rcases mem_goOn hu with hu | hu
      · exact h.harmless u hu
      · exact (Option.all_eq_true _ _).mp hturn.harmless u hu

theorem stuck_run (h : Stuck o) (ops : List Op) (hops : ∀ op ∈ ops, op ≠ .remove) :
    Stuck (run (step cfg) o ops) ∧ OnlyZeros o.vars (run (step cfg) o ops).vars := by
  induction ops generalizing o with
  | nil => exact ⟨h, 0, rfl⟩
  | cons op ops ih =>
    obtain ⟨hop, hrest⟩ := List.forall_mem_cons.mp hops
    obtain ⟨hstep, n, hn⟩ : Stuck (step cfg o op) ∧ OnlyZeros o.vars (step cfg o op).vars :=
      h.step hop
    obtain ⟨hstuck, m, hm⟩ := ih hstep hrest
    refine ⟨hstuck, m + n, ?_⟩
    rw [run_cons, hm, hn, ← List.append_assoc, List.replicate_append_replicate]

/-- A file held to be missing is reported with nothing until it is removed. -/
theorem nothing_until_removed (cfg : WarmupConfig) (o : OnePath) (hquiet : o.Quiescent)
    (hmiss : o.vars.missing = true) (hfile : o.vars.file.isSome = true) (ops : List Op)
    (hops : ∀ op ∈ ops, op ≠ .remove) :
    (run (step cfg) o ops).vars.missing = true ∧ (run (step cfg) o ops).vars.file.isSome = true ∧
      ∃ n, (run (step cfg) o ops).vars.reports = List.replicate n 0 ++ o.vars.reports := by
  have hthreads : o.threads = [] := hquiet
  have hstuck : Stuck o := ⟨hmiss, hfile, by simp [hthreads]⟩
  obtain ⟨hend, hzeros⟩ := @stuck_run cfg o hstuck ops hops
  exact ⟨hend.missing, hend.file, hzeros⟩

def lateStore : List Op :=
  [.getAvailableRange, .advance 0 .none, .advance 0 .none, .advance 0 .none,
    .processWrite [1, 2, 3] 0] ++ List.replicate 10 (.advance 1 .none) ++ [.advance 0 .none]

theorem nothing_until_removed_late :
    let o := run (step {}) (start none 0) lateStore
    (run (step {}) o [.getAvailableRange, .advance 0 .none]).vars.reports = [0, 0] ∧
      (run (step {}) o [.getAvailableRange, .advance 0 .none]).vars.missing = true := by
  have hquiet : (run (step {}) (start none 0) lateStore).threads = [] := by decide +kernel
  exact ⟨by decide +kernel, (nothing_until_removed {} _ hquiet (by decide +kernel)
    (by decide +kernel) [.getAvailableRange, .advance 0 .none] (by simp)).1⟩

theorem missing_for_ever :
    (run (step {}) (start none 0) lateStore).Quiescent ∧
      (run (step {}) (start none 0) lateStore).vars.missing = true ∧
      (run (step {}) (start none 0) lateStore).vars.file = some ⟨1, 3⟩ ∧
      ∀ ops : List Op, (∀ op ∈ ops, op ≠ .remove) →
        ∃ n, (run (step {}) (run (step {}) (start none 0) lateStore) ops).vars.reports =
          List.replicate n 0 := by
  have hquiet : (run (step {}) (start none 0) lateStore).threads = [] := by decide +kernel
  have hmiss : (run (step {}) (start none 0) lateStore).vars.missing = true := by decide +kernel
  have hfile : (run (step {}) (start none 0) lateStore).vars.file = some ⟨1, 3⟩ := by
    decide +kernel
  have hreports : (run (step {}) (start none 0) lateStore).vars.reports = [0] := by decide +kernel
  refine ⟨hquiet, hmiss, hfile, fun ops hops => ?_⟩
  have hstuck : Stuck (run (step {}) (start none 0) lateStore) :=
    ⟨hmiss, by rw [hfile]; rfl, by rw [hquiet]; simp⟩
  obtain ⟨-, n, hn⟩ := stuck_run hstuck ops hops
  refine ⟨n + 1, ?_⟩
  rw [hn, hreports, List.replicate_succ']

end OnePath

end GoStream.Warmup
