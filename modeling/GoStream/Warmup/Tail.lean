import GoStream.Foundations.Run
import GoStream.Warmup.Steps

/-!
# Tail warmup files and their watermark
-/

namespace GoStream.Warmup

open Foundations

namespace DiskWarmupCache

variable (cfg : WarmupConfig) (S : SliceSort)

def TailReadsAuthentic (s : DiskWarmupCache) : Prop :=
  ∀ hash fileID len absoluteOffset fileSize openFails i b,
    (s.readTail cfg hash fileID len absoluteOffset fileSize openFails).2[i]? = some b →
      WrittenSince s.disk.journal (.tail hash fileID)
        (absoluteOffset - tailStart cfg fileSize + i) b

def WatermarksContiguous (s : DiskWarmupCache) : Prop :=
  ∀ hash fileID highWatermark, s.tailCoverage (.tail hash fileID) = some highWatermark →
    ∀ o < highWatermark, ∃ b, WrittenSince s.disk.journal (.tail hash fileID) o b

def TailSound (s : DiskWarmupCache) : Prop := TailReadsAuthentic cfg s ∧ WatermarksContiguous s

def tailStartsInside : WriteCond := fun size relOffset _ => relOffset ≤ size

def TailStepInside : DiskWarmupCache → Op → Prop := OnTailStep cfg tailStartsInside

structure TailInv (s : DiskWarmupCache) : Prop where
  coverage : ∀ hash fileID hw, (s.view (.tail hash fileID)).coverage = some hw →
    ∃ f, (s.view (.tail hash fileID)).content = some f ∧ hw ≤ f.length
  gapless : ∀ hash fileID, GaplessAt (.tail hash fileID) s.disk.journal

variable {cfg} {S} {onHead : WriteCond} {s s' : DiskWarmupCache} {io : IoFaults}

theorem tailInv_empty : TailInv empty :=
  ⟨by simp [view, empty], by simp [empty, Disk.empty, GaplessAt]⟩

theorem Prim.gapless_tail (h : Prim cfg onHead tailStartsInside s s') {hash : String} {fileID : ℤ}
    (hs : GaplessAt (.tail hash fileID) s.disk.journal) :
    GaplessAt (.tail hash fileID) s'.disk.journal := by
  cases h with
  | memo _ hdisk => rw [hdisk]; exact hs
  | writeHead hash' fileID' data off io f hf hoff hin =>
    rw [disk_writeHead]
    exact Disk.gapless_write _ hs (by simp)
  | writeTailAt hash' fileID' data relOffset io f hf hin =>
    refine Disk.gapless_write _ hs fun hpq _ g hg => ?_
    rw [hpq, hf, Option.some.injEq] at hg
    exact hg ▸ hin
  | _ => exact hs

theorem end_le_length_pwrite {f data : Bytes} {off : ℕ} (hin : off ≤ f.length) :
    off + io.written data ≤ (pwrite f off (data.take (io.written data))).length := by
  rw [length_pwrite_written]
  split_ifs <;> omega

theorem Prim.tailInv (h : Prim cfg onHead tailStartsInside s s') (hs : TailInv s) :
    TailInv s' := by
  refine ⟨fun hash fileID hw hhw => ?_, fun hash fileID => h.gapless_tail (hs.gapless hash fileID)⟩
  have hq := hs.coverage hash fileID
  have hstep := h.pathStep (.tail hash fileID)
  generalize s'.view (.tail hash fileID) = v' at hstep hhw ⊢
  cases hstep with
  | evict | initDiskWarmup => cases hhw
  | dropOversize hhead | writeHead hhead _ _ _ _ _ _ _ _ => cases hhead
  | createFile hf =>
    obtain ⟨f, hf', -⟩ := hq hw hhw
    cases hf'.symm.trans hf
  | setCoverage =>
    obtain ⟨f, hf, rfl⟩ := Option.map_eq_some_iff.mp hhw
    exact ⟨f, hf, le_rfl⟩
  | writeTailAt _ f data relOffset io now hf hin =>
    refine ⟨_, rfl, ?_⟩
    rw [← Option.some.inj hhw]
    refine max_le ?_ (end_le_length_pwrite hin)
    cases hcov : (s.view (.tail hash fileID)).coverage with
    | none => exact Nat.zero_le _
    | some hw' =>
      obtain ⟨g, hg, hle⟩ := hq hw' hcov
      obtain rfl := Option.some.inj (hf.symm.trans hg)
      exact hle.trans (length_le_pwrite _ _ _)
  | _ => exact hq hw hhw

theorem tailInv_step (s : DiskWarmupCache) (op : Op) (h : TailInv s)
    (hin : TailStepInside cfg s op) : TailInv (s.step cfg S op) :=
  prims_keep (fun _ _ hprim => hprim.tailInv) (step_prims s op (onHeadStep_trivial s op) hin) h

theorem noteCoverage_disk (s : DiskWarmupCache) (p : WarmupPath) :
    (s.noteCoverage p).disk = s.disk := by
  unfold noteCoverage
  split <;> rfl

theorem TailInv.readsAuthentic (h : TailInv s) : TailReadsAuthentic cfg s := by
  intro hash fileID len absoluteOffset fileSize openFails i b hb
  unfold DiskWarmupCache.readTail at hb
  dsimp only at hb
  split_ifs at hb
  · simp at hb
  · simp at hb
  split at hb
  · simp at hb
  · next s' hs' =>
    have hdisk : s'.disk = s.disk := by
      rw [getHandle_eq_some _ _ hs']
      exact noteCoverage_disk s _
    rw [hdisk, getElem?_pread] at hb
    split_ifs at hb
    cases hc : s.disk.content (.tail hash fileID) with
    | none => simp [hc] at hb
    | some f =>
      rw [hc] at hb
      exact s.disk.written_of_gapless (h.gapless hash fileID) hc hb

theorem TailInv.watermarks (h : TailInv s) : WatermarksContiguous s := by
  intro hash fileID hw hhw o ho
  obtain ⟨f, hf, hle⟩ := h.coverage hash fileID hw hhw
  have hlt : o < f.length := by omega
  exact ⟨f[o], s.disk.written_of_gapless (h.gapless hash fileID) hf (List.getElem?_eq_getElem hlt)⟩

theorem TailInv.tailComplete_eq_none (h : TailInv s) {hash : String} {fileID : ℤ} {relOffset : ℕ}
    (hrel : relOffset < cfg.tailWarmupSize)
    (hgap : (s.disk.size (.tail hash fileID)).getD 0 < relOffset) :
    s.tailComplete cfg (.tail hash fileID) = none := by
  have hshort : ∀ f, s.disk.content (.tail hash fileID) = some f → f.length < relOffset := by
    intro f hf
    simpa [Disk.size, hf] using hgap
  unfold DiskWarmupCache.tailComplete
  split
  · next hw hhw =>
    obtain ⟨f, hf, hle⟩ := h.coverage hash fileID hw hhw
    have := hshort f hf
    rw [if_neg (by omega)]
  · split
    · next n hn =>
      obtain ⟨f, hf, rfl⟩ := Option.map_eq_some_iff.mp hn
      have := hshort f hf
      rw [if_neg (by omega)]
    · rfl

theorem TailInv.gap_breaks (h : TailInv s) {hash : String} {fileID : ℤ} {data : Bytes}
    {absoluteOffset fileSize : ℕ}
    (hgap : ¬ OnTailWrite cfg tailStartsInside s hash fileID data absoluteOffset fileSize io) :
    ¬ WatermarksContiguous (s.writeTail cfg hash fileID data absoluteOffset fileSize io) := by
  unfold OnTailWrite tailStartsInside at hgap
  push Not at hgap
  obtain ⟨hstart, hdata, hcan, hlt⟩ := hgap
  have hok : (s.openTail (.tail hash fileID) io).2 = true := (openTail_snd ..).trans hcan
  have hf := (openTail_file hok).1
  have hrel : absoluteOffset - tailStart cfg fileSize < cfg.tailWarmupSize := by
    by_contra hge
    exact hdata (by rw [tailData, Nat.sub_eq_zero_of_le (not_lt.mp hge), List.take_zero])
  rw [writeTail_of_incomplete hstart hdata (h.tailComplete_eq_none hrel hlt), if_pos hcan]
  rw [size_getD_eq] at hlt
  intro hcont
  -- the byte at the old end lies below the new watermark
  obtain ⟨b, hb⟩ := hcont hash fileID _
    (congrArg PathView.coverage ((view_writeTailAt _ _ _ _ _ _).trans (if_pos rfl)))
    _ (lt_max_of_lt_right (Nat.lt_add_right _ hlt))
  exact Disk.not_written_of_gap _ hf hlt hb

variable (cfg) (S) in
/-- When tail reads and watermarks are sound. -/
theorem tailSound_iff (ops : List Op) :
    (∀ pre, pre <+: ops → TailSound cfg (run (DiskWarmupCache.step cfg S) empty pre)) ↔
      Meets (TailStepInside cfg) (DiskWarmupCache.step cfg S) empty ops := by
  constructor
  · intro hgood
    refine meets_of_good tailInv_step ?_ ops tailInv_empty (fun _ _ => (trivial : True)) hgood
    intro s op hinv _ hbad hsound
    cases op with
    | writeTail hash fileID data absoluteOffset fileSize io =>
      exact hinv.gap_breaks hbad hsound.2
    | _ => exact absurd trivial hbad
  · exact Meets.good tailInv_step (fun _ hs => ⟨hs.readsAuthentic, hs.watermarks⟩) ops tailInv_empty

theorem tailReads_not_authentic :
    ¬ ∀ ops : List Op, TailSound {} (run (DiskWarmupCache.step {} .insertion) empty ops) := by
  intro h
  have hread := (h [.writeTail "aa" 1 [7] 2 3 .none]).1 "aa" 1 1 0 3 false 0 0 (by decide)
  exact absurd hread (by decide)

end DiskWarmupCache

end GoStream.Warmup
