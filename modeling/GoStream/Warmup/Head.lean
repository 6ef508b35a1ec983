import GoStream.Foundations.Run
import GoStream.Warmup.Steps

/-!
# Head warmup files: what a read may return
-/

namespace GoStream.Warmup

open Foundations

namespace DiskWarmupCache

variable (cfg : WarmupConfig) (S : SliceSort)

def HeadReadsAuthentic (s : DiskWarmupCache) : Prop :=
  ∀ hash fileID len off openFails i b,
    (s.readAt cfg hash fileID len off openFails).2[i]? = some b →
      WrittenSince s.disk.journal (.head hash fileID) (off + i) b

def startsInside : WriteCond := fun size off written => 0 < written → off ≤ size

def HeadStepInside : DiskWarmupCache → Op → Prop := OnHeadStep cfg startsInside

structure HeadInv (s : DiskWarmupCache) : Prop where
  mapsOk : MapsOk cfg s
  gapless : ∀ hash fileID, GaplessAt (.head hash fileID) s.disk.journal

variable {cfg} {S} {onHead onTail : WriteCond} {s s' : DiskWarmupCache} {p : WarmupPath}
  {io : IoFaults}

theorem headInv_empty : HeadInv cfg empty := ⟨mapsOk_empty, by simp [empty, Disk.empty, GaplessAt]⟩

theorem Prim.gapless_head (h : Prim cfg startsInside onTail s s') {hash : String} {fileID : ℤ}
    (hs : GaplessAt (.head hash fileID) s.disk.journal) :
    GaplessAt (.head hash fileID) s'.disk.journal := by
  cases h with
  | memo _ hdisk => rw [hdisk]; exact hs
  | writeHead hash' fileID' data off io f hf hoff hin =>
    rw [disk_writeHead]
    refine Disk.gapless_write _ hs fun hpq hd g hg => ?_
    rw [hpq, hf, Option.some.injEq] at hg
    subst hg
    refine hin (Nat.pos_of_ne_zero fun h0 => hd ?_)
    rw [h0, List.take_zero]
  | writeTailAt hash' fileID' data relOffset io f hf hin =>
    exact Disk.gapless_write _ hs (by simp)
  | _ => exact hs

theorem Prim.headInv (h : Prim cfg startsInside onTail s s') (hs : HeadInv cfg s) :
    HeadInv cfg s' :=
  ⟨h.mapsOk hs.mapsOk, fun hash fileID => h.gapless_head (hs.gapless hash fileID)⟩

theorem headInv_step (s : DiskWarmupCache) (op : Op) (h : HeadInv cfg s)
    (hin : HeadStepInside cfg s op) : HeadInv cfg (s.step cfg S op) :=
  prims_keep (fun _ _ hprim => hprim.headInv) (step_prims s op hin (onTailStep_trivial s op)) h

theorem getAvailableRange_disk (s : DiskWarmupCache) (hash : String) (fileID : ℤ)
    (hpos : 0 < (s.getAvailableRange cfg hash fileID).2) :
    (s.getAvailableRange cfg hash fileID).1.disk = s.disk := by
  unfold DiskWarmupCache.getAvailableRange at hpos ⊢
  dsimp only at hpos ⊢
  split_ifs at hpos ⊢ with hm
  · simp at hpos
  split at hpos
  · rfl
  split at hpos
  · simp at hpos
  · split_ifs at hpos ⊢
    · simp at hpos
    · rfl

theorem HeadInv.authentic (h : HeadInv cfg s) : HeadReadsAuthentic cfg s := by
  intro hash fileID len off openFails i b hb
  unfold DiskWarmupCache.readAt at hb
  split_ifs at hb with hoff
  · simp at hb
  dsimp only at hb
  split at hb
  · simp at hb
  · next s' hs' =>
    have hdisk : s'.disk = s.disk := by rw [getHandle_eq_some s _ hs']
    split_ifs at hb with havail
    · simp at hb
    · rw [getAvailableRange_disk s' hash fileID (by omega), hdisk, getElem?_pread] at hb
      split_ifs at hb
      cases hc : s.disk.content (.head hash fileID) with
      | none => simp [hc] at hb
      | some f =>
        rw [hc] at hb
        exact s.disk.written_of_gapless (h.gapless hash fileID) hc hb

def WholeWrites : Op → Prop
  | .processWrite _ _ _ _ io => io.writeStops = none
  | .writeWorker io => io.writeStops = none
  | _ => True

theorem MapsOk.headComplete_eq_none (h : MapsOk cfg s) (hp : p.isHead = true) {off : ℕ}
    (hoff : off ≤ cfg.warmupFileSize) (hgap : (s.disk.size p).getD 0 < off) :
    s.headComplete cfg p = none := by
  have hshort : ∀ f, s.disk.content p = some f → f.length < off := by
    intro f hf
    simpa [Disk.size, hf] using hgap
  unfold DiskWarmupCache.headComplete
  split
  · next e he =>
    rw [if_neg]
    intro hlt
    obtain ⟨f, hf, hlen⟩ := (h p).sizeOnDisk hp e he hlt
    have := hshort f hf
    omega
  · split
    · next n hn =>
      obtain ⟨f, hf, rfl⟩ := Option.map_eq_some_iff.mp hn
      have := hshort f hf
      rw [if_neg (by omega)]
    · rfl

theorem readAt_writeHead {hash : String} {fileID : ℤ} {data f : Bytes} {off o : ℕ}
    (hopen : s.handles (.head hash fileID) = true) (hmiss : s.missing (.head hash fileID) = false)
    (hf : s.disk.content (.head hash fileID) = some f) (hio : io.writeStops = none)
    (ho : o < off + data.length) (hcap : o ≤ cfg.warmupFileSize) :
    ((s.writeHead (.head hash fileID) data off io).readAt cfg hash fileID 1 o false).2 =
      pread (pwrite f off data) o 1 := by
  have hn : io.written data = data.length := by simp [IoFaults.written, hio]
  have hdisk := disk_writeHead s (.head hash fileID) data off io
  rw [hn, List.take_length] at hdisk
  set s' := s.writeHead (.head hash fileID) data off io with hs'
  have hview : s'.view (.head hash fileID) = _ :=
    view_writeHead s (.head hash fileID) (.head hash fileID) data off io
  rw [if_pos rfl, hn, if_neg (lt_irrefl _)] at hview
  have hopen' : s'.handles (.head hash fileID) = true := (congrArg PathView.isOpen hview).trans hopen
  have hmiss' : s'.missing (.head hash fileID) = false :=
    (congrArg PathView.missing hview).trans hmiss
  have hsize : s'.sizeCache (.head hash fileID) = some ⟨off + data.length, s.now⟩ :=
    congrArg PathView.size hview
  have hnow : s'.now = s.now := by
    simp [hs', DiskWarmupCache.writeHead, hn, DiskWarmupCache.storeSize]
  have hrange : s'.getAvailableRange cfg hash fileID = (s', off + data.length) := by
    simp [DiskWarmupCache.getAvailableRange, hmiss', hsize, hnow, Option.filter, sizeTTL]
  have hcontent : s'.disk.content (.head hash fileID) = some (pwrite f off data) := by
    rw [hdisk, Disk.content_write, if_pos rfl, hf, Option.map_some]
  unfold DiskWarmupCache.readAt
  rw [if_neg (not_lt.mpr hcap)]
  simp only [DiskWarmupCache.getHandle, hopen', if_true, hrange, hcontent, Option.getD_some]
  rw [if_neg (not_le.mpr ho), min_eq_left (by omega)]

theorem HeadInv.gap_breaks (h : HeadInv cfg s) {hash : String} {fileID : ℤ} {data : Bytes}
    {off : ℕ} (hio : io.writeStops = none)
    (hgap : ¬ OnHeadWrite cfg startsInside s hash fileID data off io) :
    ¬ HeadReadsAuthentic cfg (s.processWrite cfg S hash fileID data off io) := by
  unfold OnHeadWrite startsInside at hgap
  push Not at hgap
  obtain ⟨hoff, hcan, hpos, hlt⟩ := hgap
  have hok : (s.openHead cfg S (.head hash fileID) io).2 = true := (openHead_snd ..).trans hcan
  have hinv : MapsOk cfg (s.openHead cfg S (.head hash fileID) io).1 :=
    prims_keep (fun _ _ hprim => hprim.mapsOk)
      (@prims_openHead cfg S startsInside startsInside s _ io) h.mapsOk
  obtain ⟨hf, hhandle⟩ := openHead_file hok
  rw [processWrite_of_incomplete hoff (h.mapsOk.headComplete_eq_none rfl hoff hlt), if_pos hcan]
  set s₁ := (s.openHead cfg S (.head hash fileID) io).1
  set f := (s.disk.content (.head hash fileID)).getD []
  have hlen : f.length < off := by
    cases hc : s.disk.content (.head hash fileID) <;> simpa [f, Disk.size, hc] using hlt
  have hmiss : s₁.missing (.head hash fileID) = false := by
    by_contra hm
    have := (hinv (.head hash fileID)).missingAbsent (by simpa [view] using hm)
    exact absurd (hf.symm.trans this) (by simp)
  have hn : io.written (headData cfg data off) = (headData cfg data off).length := by
    simp [IoFaults.written, hio]
  intro hauth
  -- the byte just past the old end of the file
  have hbyte : ((s₁.writeHead (.head hash fileID) (headData cfg data off) off io).readAt cfg hash
      fileID 1 f.length false).2[0]? = some 0 := by
    rw [readAt_writeHead hhandle hmiss hf hio (by omega) (by omega), getElem?_pread,
      if_pos one_pos, add_zero, getElem?_pwrite_of_gap f off (by
        intro hnil
        rw [hn, hnil] at hpos
        simp at hpos) le_rfl hlen]
  have hwritten := hauth hash fileID 1 f.length false 0 0 hbyte
  rw [disk_writeHead, add_zero] at hwritten
  exact Disk.not_written_of_gap s₁.disk hf hlen hwritten

variable (cfg) (S) in
/-- Head reads return what was written at their offset. -/
theorem headReads_authentic (ops : List Op) :
    (Meets (HeadStepInside cfg) (DiskWarmupCache.step cfg S) empty ops →
      ∀ pre, pre <+: ops → HeadReadsAuthentic cfg (run (DiskWarmupCache.step cfg S) empty pre)) ∧
    ((∀ op ∈ ops, WholeWrites op) →
      (∀ pre, pre <+: ops → HeadReadsAuthentic cfg (run (DiskWarmupCache.step cfg S) empty pre)) →
      Meets (HeadStepInside cfg) (DiskWarmupCache.step cfg S) empty ops) := by
  refine ⟨fun h => Meets.good headInv_step (fun _ hs => hs.authentic) ops headInv_empty h,
    meets_of_good headInv_step ?_ ops headInv_empty⟩
  intro s op hinv hwhole hbad
  cases op with
  | processWrite hash fileID data off io => exact hinv.gap_breaks hwhole hbad
  | writeWorker io =>
    simp only [HeadStepInside, OnHeadStep, not_forall] at hbad
    obtain ⟨w, hw, hbad⟩ := hbad
    obtain ⟨ws, hws⟩ : ∃ ws, s.writeCh = w :: ws := by
      cases hq : s.writeCh with
      | nil => simp [hq] at hw
      | cons v vs => exact ⟨vs, by simpa [hq] using hw⟩
    have hinv' : HeadInv cfg { s with writeCh := ws } := ⟨hinv.mapsOk, hinv.gapless⟩
    have hbreak := hinv'.gap_breaks (S := S) hwhole hbad
    simpa [DiskWarmupCache.step, DiskWarmupCache.writeWorker, hws] using hbreak
  | _ => exact absurd trivial hbad

theorem headReads_not_authentic :
    ¬ ∀ ops : List Op, HeadReadsAuthentic {} (run (DiskWarmupCache.step {} .insertion) empty ops) := by
  intro h
  have hread := h [.writeChunk "aa" 1 [7] 2, .writeWorker .none] "aa" 1 1 0 false 0 0 (by decide)
  exact absurd hread (by decide)

end DiskWarmupCache

end GoStream.Warmup
