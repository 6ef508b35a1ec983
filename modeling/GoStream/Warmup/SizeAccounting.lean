import GoStream.Foundations.Run
import GoStream.Warmup.Steps

/-!
# The size account of the warmup cache
-/

namespace GoStream.Warmup

open Foundations

namespace DiskWarmupCache

inductive Call where
  | op (op : Op)
  | enforceQuotaLocked (needed : ℤ)

section Definitions

variable (cfg : WarmupConfig) (S : SliceSort) (s : DiskWarmupCache)

def call (s : DiskWarmupCache) : Call → DiskWarmupCache
  | .op op => s.step cfg S op
  | .enforceQuotaLocked needed => s.enforceQuotaLocked cfg S needed

def TotalAgrees : Prop := s.totalSize = s.disk.totalBytes

structure Accounted : Prop where
  total_eq : s.totalSize = s.disk.totalBytes
  nonneg : 0 ≤ s.totalSize
  fits : ∀ needed : ℤ, s.totalSize + needed ≤ quota cfg → s.disk.totalBytes + needed ≤ quota cfg

def WriteCounted (prevSize size off : ℕ) (data : Bytes) (io : IoFaults) : Prop :=
  if io.written data < data.length then io.written data = 0 ∨ off + io.written data ≤ size
  else if data.length = 0 then off ≤ prevSize
  else prevSize = size ∨ off + data.length ≤ prevSize ∧ off + data.length ≤ size

def HeadCounted (hash : String) (fileID : ℤ) (data : Bytes) (off : ℕ) (io : IoFaults) : Prop :=
  off ≤ cfg.warmupFileSize → s.headComplete cfg (.head hash fileID) = none →
    s.canOpen (.head hash fileID) io = true →
    WriteCounted (s.prevSize (.head hash fileID)) ((s.disk.size (.head hash fileID)).getD 0) off
      (headData cfg data off) io

def endsInside : WriteCond := fun size relOffset written => written = 0 ∨ relOffset + written ≤ size

def FindsOversize (p : WarmupPath) : Prop :=
  s.missing p = false ∧ (∀ e, s.sizeCache p = some e → sizeTTL ≤ s.now - e.updatedAt) ∧
    ∃ n, s.disk.size p = some n ∧ cfg.warmupFileSize + cfg.oversize < n

def OpCounted (s : DiskWarmupCache) : Op → Prop
  | .processWrite hash fileID data off io => HeadCounted cfg s hash fileID data off io
  | .writeWorker io => ∀ w ∈ s.writeCh.head?, HeadCounted cfg s w.hash w.fileID w.data w.off io
  | .writeTail hash fileID data absoluteOffset fileSize io =>
      s.tailComplete cfg (.tail hash fileID) = none →
        OnTailWrite cfg endsInside s hash fileID data absoluteOffset fileSize io
  | .getAvailableRange hash fileID => ¬ FindsOversize cfg s (.head hash fileID)
  | .readAt hash fileID _ off openFails =>
      off ≤ cfg.warmupFileSize → (s.getHandle (.head hash fileID) openFails).isSome = true →
        ¬ FindsOversize cfg s (.head hash fileID)
  | _ => True

def Counted (s : DiskWarmupCache) : Call → Prop
  | .op op => OpCounted cfg s op
  | .enforceQuotaLocked _ => True

end Definitions

variable {cfg : WarmupConfig} {S : SliceSort} {s : DiskWarmupCache} {p : WarmupPath} {io : IoFaults}

theorem accounted_iff_totalAgrees : Accounted cfg s ↔ TotalAgrees s := by
  constructor
  · exact fun h => h.total_eq
  · intro h
    rw [TotalAgrees] at h
    exact ⟨h, by omega, fun needed hneeded => by omega⟩

theorem sum_listing (s : DiskWarmupCache) :
    (s.listing.map fun f => (f.size : ℤ)).sum = s.disk.totalBytes := by
  rw [Disk.totalBytes_eq_total, listing, List.map_map]
  rfl

theorem size_of_mem_listing {f : WFile} (h : f ∈ s.listing) :
    s.disk.size f.path = some f.size := by
  obtain ⟨e, he, rfl⟩ := List.mem_map.mp h
  rw [Disk.size, Disk.content, AList.mem_lookup_iff.mpr he]
  rfl

theorem nodup_listing (s : DiskWarmupCache) : (s.listing.map WFile.path).Nodup := by
  have hpaths : s.listing.map WFile.path = s.disk.files.keys := by
    rw [listing, List.map_map]
    rfl
  rw [hpaths]
  exact s.disk.files.keys_nodup

theorem totalBytes_evict {n : ℕ} (h : s.disk.size p = some n) :
    ((s.evict p).disk.totalBytes : ℤ) = s.disk.totalBytes - n := by
  have hdisk : (s.evict p).disk = s.disk.remove p := rfl
  rw [hdisk, Disk.totalBytes_remove, h, Option.getD_some]

theorem size_evict_of_ne {q : WarmupPath} (h : q ≠ p) :
    (s.evict p).disk.size q = s.disk.size q := by
  have hdisk : (s.evict p).disk = s.disk.remove p := rfl
  rw [hdisk, Disk.size, Disk.content_remove, if_neg h, Disk.size]

theorem totalAgrees_evictOldest (limit needed : ℤ) (fs : List WFile) {diskTotal : ℤ}
    {s : DiskWarmupCache} (htotal : diskTotal = s.disk.totalBytes)
    (hsize : ∀ f ∈ fs, s.disk.size f.path = some f.size) (hnodup : (fs.map WFile.path).Nodup) :
    TotalAgrees (evictOldest limit needed fs diskTotal s) := by
  induction fs generalizing diskTotal s with
  | nil => exact htotal
  | cons f fs ih =>
    rw [evictOldest]
    split_ifs
    · exact htotal
    · obtain ⟨hf, hrest⟩ := List.nodup_cons.mp hnodup
      obtain ⟨hsizef, hsizes⟩ := List.forall_mem_cons.mp hsize
      apply ih _ _ hrest
      · rw [totalBytes_evict hsizef, htotal]
      · intro g hg
        have hne : g.path ≠ f.path := fun h => hf (h ▸ List.mem_map_of_mem hg)
        rw [size_evict_of_ne hne]
        exact hsizes g hg

theorem totalAgrees_enforceQuotaLocked (h : TotalAgrees s) (needed : ℤ) :
    TotalAgrees (s.enforceQuotaLocked cfg S needed) := by
  unfold enforceQuotaLocked
  dsimp only
  split_ifs
  · exact h
  · exact sum_listing s
  · have hperm := S.perm (fun a b : WFile => decide (a.modTime < b.modTime)) s.listing
    apply totalAgrees_evictOldest _ _ _ (sum_listing s)
    · exact fun f hf => size_of_mem_listing (hperm.mem_iff.mp hf)
    · exact (hperm.map WFile.path).nodup_iff.mpr (nodup_listing s)

theorem totalAgrees_removeHash (h : TotalAgrees s) (hash : String) :
    TotalAgrees (s.removeHash hash) := by
  unfold removeHash
  dsimp only
  generalize List.filter _ (List.filter _ s.disk.paths) ++ _ = victims
  induction victims generalizing s with
  | nil => exact h
  | cons p ps ih =>
    apply ih
    have hbytes := s.disk.totalBytes_remove p
    rw [TotalAgrees] at h ⊢
    change s.totalSize - ((s.disk.size p).getD 0 : ℤ) = ((s.disk.remove p).totalBytes : ℤ)
    rw [h, hbytes]

theorem filter_fresh_eq_none :
    ((s.sizeCache p).filter fun e => decide (s.now - e.updatedAt < sizeTTL)) = none ↔
      ∀ e, s.sizeCache p = some e → sizeTTL ≤ s.now - e.updatedAt := by
  cases s.sizeCache p <;> simp [Option.filter]

theorem totalAgrees_getAvailableRange_iff (h : TotalAgrees s) (hash : String) (fileID : ℤ) :
    TotalAgrees (s.getAvailableRange cfg hash fileID).1 ↔
      ¬ FindsOversize cfg s (.head hash fileID) := by
  unfold DiskWarmupCache.getAvailableRange
  dsimp only
  cases hmiss : s.missing (.head hash fileID) with
  | true => exact iff_of_true h (by simp [FindsOversize, hmiss])
  | false =>
    rw [if_neg (by simp)]
    cases hfresh : (s.sizeCache (.head hash fileID)).filter
        fun e => decide (s.now - e.updatedAt < sizeTTL) with
    | some e =>
      refine iff_of_true h fun hover => ?_
      rw [filter_fresh_eq_none.mpr hover.2.1] at hfresh
      cases hfresh
    | none =>
      have hold := filter_fresh_eq_none.mp hfresh
      cases hsize : s.disk.size (.head hash fileID) with
      | none => exact iff_of_true h (by simp [FindsOversize, hsize])
      | some n =>
        dsimp only
        split_ifs with hlong
        · -- the file is gone, and the total is the old one
          refine iff_of_false ?_ (not_not.mpr ⟨hmiss, hold, n, hsize, hlong⟩)
          have hbytes := s.disk.totalBytes_remove (.head hash fileID)
          rw [hsize, Option.getD_some] at hbytes
          change ¬ s.totalSize = ((s.disk.remove (.head hash fileID)).totalBytes : ℤ)
          rw [TotalAgrees] at h
          omega
        · refine iff_of_true h ?_
          rintro ⟨-, -, n', hn', hlong'⟩
          obtain rfl := Option.some.inj (hsize.symm.trans hn')
          exact hlong hlong'

theorem totalAgrees_readAt_iff (h : TotalAgrees s) (hash : String) (fileID : ℤ) (len off : ℕ)
    (openFails : Bool) : TotalAgrees (s.readAt cfg hash fileID len off openFails).1 ↔
      (off ≤ cfg.warmupFileSize → (s.getHandle (.head hash fileID) openFails).isSome = true →
        ¬ FindsOversize cfg s (.head hash fileID)) := by
  unfold DiskWarmupCache.readAt
  split_ifs with hoff
  · exact iff_of_true h fun hle => absurd hoff (not_lt.mpr hle)
  dsimp only
  cases hopen : s.getHandle (.head hash fileID) openFails with
  | none => exact iff_of_true h (by simp)
  | some s' =>
    -- the descriptor makes no difference to the file
    have hs' := getHandle_eq_some s _ hopen
    have hagree : TotalAgrees s' := by
      rw [hs']
      exact h
    have hover : FindsOversize cfg s' (.head hash fileID) ↔
        FindsOversize cfg s (.head hash fileID) := by
      rw [hs']
      rfl
    have hrange := @totalAgrees_getAvailableRange_iff cfg s' hagree hash fileID
    rw [hover] at hrange
    dsimp only
    have hres : ∀ b b' : Bytes, TotalAgrees (if off ≥ (s'.getAvailableRange cfg hash fileID).2 then
        ((s'.getAvailableRange cfg hash fileID).1, b)
        else ((s'.getAvailableRange cfg hash fileID).1, b')).1 ↔
          TotalAgrees (s'.getAvailableRange cfg hash fileID).1 := by
      intro b b'
      split_ifs <;> rfl
    rw [hres, hrange]
    simp [not_lt.mp hoff]

theorem totalSize_writeHead (s : DiskWarmupCache) (p : WarmupPath) (data : Bytes) (off : ℕ)
    (io : IoFaults) : (s.writeHead p data off io).totalSize =
      if io.written data < data.length then s.totalSize
      else s.totalSize + (off + io.written data - s.prevSize p : ℕ) := by
  unfold writeHead
  dsimp only
  split_ifs with hfail hgrow
  · rfl
  · change s.totalSize + (((off + io.written data : ℕ) : ℤ) - s.prevSize p) = _
    omega
  · change s.totalSize = _
    omega

theorem totalAgrees_writeHead_iff (h : TotalAgrees s) {f : Bytes} (hf : s.disk.content p = some f)
    (data : Bytes) (off : ℕ) (io : IoFaults) : TotalAgrees (s.writeHead p data off io) ↔
      WriteCounted (s.prevSize p) f.length off data io := by
  have hlen := length_pwrite_written f data off io
  have hbytes := s.disk.totalBytes_write hf off (data.take (io.written data)) s.now
  have hle := io.written_le data
  rw [TotalAgrees] at h
  rw [TotalAgrees, totalSize_writeHead, disk_writeHead, hbytes, hlen, h, WriteCounted]
  by_cases hfail : io.written data < data.length
  · rw [if_pos hfail, if_pos hfail]
    split_ifs with hzero <;> omega
  · have hwhole : io.written data = data.length := by omega
    rw [if_neg hfail, if_neg hfail, hwhole]
    split_ifs with hzero <;> omega

theorem totalAgrees_writeTailAt_iff (h : TotalAgrees s) {f : Bytes} (hf : s.disk.content p = some f)
    (data : Bytes) (relOffset : ℕ) (io : IoFaults) :
    TotalAgrees (s.writeTailAt p data relOffset io) ↔
      endsInside f.length relOffset (io.written data) := by
  have hlen := length_pwrite_written f data relOffset io
  have hbytes := s.disk.totalBytes_write hf relOffset (data.take (io.written data)) s.now
  rw [TotalAgrees] at h
  change s.totalSize =
    ((s.disk.write p relOffset (data.take (io.written data)) s.now).totalBytes : ℤ) ↔ _
  rw [hbytes, hlen, h, endsInside]
  split_ifs with hzero <;> omega

theorem SizesOk.sizeCache_eq_none (h : SizesOk s) (hp : s.disk.content p = none) :
    s.sizeCache p = none := by
  by_contra hsome
  exact h p hsome hp

theorem openTail_totalAgrees (h : TotalAgrees s) (p : WarmupPath) (io : IoFaults) :
    TotalAgrees (s.openTail p io).1 := by
  unfold openTail
  split_ifs with hnone hfail
  · exact h
  · have hbytes := Disk.totalBytes_create _ (Option.isNone_iff_eq_none.mp hnone) s.now
    exact h.trans hbytes.symm
  · cases hopen : s.getHandle p io.openFails with
    | none => exact h
    | some s' =>
      rw [getHandle_eq_some s p hopen]
      exact h

theorem openHead_totalAgrees (h : TotalAgrees s) (p : WarmupPath) (io : IoFaults) :
    TotalAgrees (s.openHead cfg S p io).1 := by
  have hroom : TotalAgrees (s.roomFor cfg S p) := by
    unfold roomFor
    split_ifs
    · exact totalAgrees_enforceQuotaLocked h _
    · exact h
  rw [openHead_eq]
  exact openTail_totalAgrees hroom p io

theorem prevSize_openHead (h : SizesOk s) (hok : (s.openHead cfg S p io).2 = true) :
    (s.openHead cfg S p io).1.prevSize p = s.prevSize p := by
  unfold openHead at hok ⊢
  dsimp only at hok ⊢
  split_ifs at hok ⊢ with hnone hfail
  · have habsent := Option.isNone_iff_eq_none.mp hnone
    have hquota : SizesOk (s.enforceQuotaLocked cfg S cfg.warmupFileSize) :=
      prims_keep (fun _ _ hprim => hprim.sizesOk)
        (@prims_enforceQuotaLocked cfg S endsInside endsInside s cfg.warmupFileSize) h
    have hold := h.sizeCache_eq_none habsent
    have hnew := hquota.sizeCache_eq_none (enforceQuotaLocked_absent cfg S s habsent _)
    simp [prevSize, createFile, hold, hnew, Disk.size, habsent]
  · cases hopen : s.getHandle p io.openFails with
    | none => simp [hopen] at hok
    | some s' =>
      rw [getHandle_eq_some s p hopen]
      rfl

theorem totalAgrees_processWrite_iff (hsizes : SizesOk s) (h : TotalAgrees s) (hash : String)
    (fileID : ℤ) (data : Bytes) (off : ℕ) (io : IoFaults) :
    TotalAgrees (s.processWrite cfg S hash fileID data off io) ↔
      HeadCounted cfg s hash fileID data off io := by
  unfold HeadCounted
  rcases lt_or_ge cfg.warmupFileSize off with hoff | hoff
  · rw [processWrite, if_pos hoff]
    exact iff_of_true h fun hle => absurd hoff (not_lt.mpr hle)
  rw [imp_iff_right hoff]
  cases hcomplete : s.headComplete cfg (.head hash fileID) with
  | some s' =>
    rw [processWrite_of_complete hoff hcomplete]
    refine iff_of_true ?_ fun hnone => by cases hnone
    obtain rfl | ⟨n, -, rfl⟩ := headComplete_eq_some hcomplete <;> exact h
  | none =>
    have hopened := @openHead_totalAgrees cfg S s h (.head hash fileID) io
    rw [processWrite_of_incomplete hoff hcomplete, imp_iff_right rfl]
    split_ifs with hcan
    · have hok := (@openHead_snd cfg S s (.head hash fileID) io).trans hcan
      rw [imp_iff_right hcan, size_getD_eq, ← prevSize_openHead hsizes hok]
      exact totalAgrees_writeHead_iff hopened (openHead_file hok).1 _ off io
    · exact iff_of_true hopened fun hok => absurd hok hcan

theorem totalAgrees_writeTail_iff (h : TotalAgrees s) (hash : String) (fileID : ℤ) (data : Bytes)
    (absoluteOffset fileSize : ℕ) (io : IoFaults) :
    TotalAgrees (s.writeTail cfg hash fileID data absoluteOffset fileSize io) ↔
      (s.tailComplete cfg (.tail hash fileID) = none →
        OnTailWrite cfg endsInside s hash fileID data absoluteOffset fileSize io) := by
  unfold OnTailWrite
  rcases lt_or_ge absoluteOffset (tailStart cfg fileSize) with hstart | hstart
  · rw [writeTail, if_pos hstart]
    exact iff_of_true h fun _ hle => absurd hstart (not_lt.mpr hle)
  by_cases hdata : tailData cfg data (absoluteOffset - tailStart cfg fileSize) = []
  · rw [writeTail_of_nil hdata]
    exact iff_of_true h fun _ _ hne => absurd hdata hne
  rw [imp_iff_right hstart, imp_iff_right hdata]
  cases hcomplete : s.tailComplete cfg (.tail hash fileID) with
  | some s' =>
    rw [writeTail_of_complete hstart hdata hcomplete]
    refine iff_of_true ?_ fun hnone => by cases hnone
    obtain rfl | rfl := tailComplete_eq_some hcomplete <;> exact h
  | none =>
    have hopened := openTail_totalAgrees h (.tail hash fileID) io
    rw [writeTail_of_incomplete hstart hdata hcomplete, imp_iff_right rfl]
    split_ifs with hcan
    · have hok := (openTail_snd s (.tail hash fileID) io).trans hcan
      rw [imp_iff_right hcan, size_getD_eq]
      exact totalAgrees_writeTailAt_iff hopened (openTail_file hok).1 _ _ io
    · exact iff_of_true hopened fun hok => absurd hok hcan

theorem totalAgrees_readTail (h : TotalAgrees s) (hash : String) (fileID : ℤ)
    (len absoluteOffset fileSize : ℕ) (openFails : Bool) :
    TotalAgrees (s.readTail cfg hash fileID len absoluteOffset fileSize openFails).1 := by
  have hnote : TotalAgrees (s.noteCoverage (.tail hash fileID)) := by
    unfold noteCoverage
    split <;> exact h
  unfold readTail
  dsimp only
  split_ifs
  · exact h
  · exact h
  cases hopen : (s.noteCoverage (.tail hash fileID)).getHandle (.tail hash fileID) openFails with
  | none => exact hnote
  | some s' =>
    dsimp only
    rw [getHandle_eq_some _ _ hopen]
    exact hnote

theorem totalAgrees_getTailRange (h : TotalAgrees s) (hash : String) (fileID : ℤ) :
    TotalAgrees (s.getTailRange hash fileID).1 := by
  unfold getTailRange
  dsimp only
  split_ifs
  · exact h
  split
  · exact h
  split <;> exact h

theorem totalAgrees_writeChunk (h : TotalAgrees s) (hash : String) (fileID : ℤ) (data : Bytes)
    (off : ℕ) : TotalAgrees (s.writeChunk cfg hash fileID data off) := by
  unfold writeChunk
  split_ifs <;> exact h

theorem headComplete_pop (ws : List WarmupWrite) :
    { s with writeCh := ws }.headComplete cfg p = none ↔ s.headComplete cfg p = none := by
  unfold headComplete
  dsimp only
  cases s.sizeCache p with
  | some e => dsimp only; split_ifs <;> simp
  | none =>
    cases s.disk.size p with
    | some n => dsimp only; split_ifs <;> simp
    | none => rfl

theorem totalAgrees_writeWorker_iff (hsizes : SizesOk s) (h : TotalAgrees s) (io : IoFaults) :
    TotalAgrees (s.writeWorker cfg S io) ↔
      ∀ w ∈ s.writeCh.head?, HeadCounted cfg s w.hash w.fileID w.data w.off io := by
  unfold writeWorker
  cases hqueue : s.writeCh with
  | nil => exact iff_of_true h (by simp)
  | cons w ws =>
    have hpopped : SizesOk { s with writeCh := ws } := hsizes
    have hwrite := @totalAgrees_processWrite_iff cfg S _ hpopped h w.hash w.fileID w.data w.off io
    rw [HeadCounted, headComplete_pop] at hwrite
    simp only [List.head?_cons, Option.mem_def, Option.some.injEq, forall_eq']
    exact hwrite

theorem totalAgrees_step_iff (hsizes : SizesOk s) (h : TotalAgrees s) (op : Op) :
    TotalAgrees (s.step cfg S op) ↔ OpCounted cfg s op := by
  cases op with
  | tick nanos | handleReaper idle => exact iff_of_true h trivial
  | writeChunk hash fileID data off =>
    exact iff_of_true (totalAgrees_writeChunk h hash fileID data off) trivial
  | writeWorker io => exact totalAgrees_writeWorker_iff hsizes h io
  | processWrite hash fileID data off io =>
    exact totalAgrees_processWrite_iff hsizes h hash fileID data off io
  | getAvailableRange hash fileID => exact totalAgrees_getAvailableRange_iff h hash fileID
  | readAt hash fileID len off openFails =>
    exact totalAgrees_readAt_iff h hash fileID len off openFails
  | writeTail hash fileID data absoluteOffset fileSize io =>
    exact totalAgrees_writeTail_iff h hash fileID data absoluteOffset fileSize io
  | readTail hash fileID len absoluteOffset fileSize openFails =>
    exact iff_of_true (totalAgrees_readTail h hash fileID len absoluteOffset fileSize openFails)
      trivial
  | getTailRange hash fileID => exact iff_of_true (totalAgrees_getTailRange h hash fileID) trivial
  | removeHash hash => exact iff_of_true (totalAgrees_removeHash h hash) trivial
  | initDiskWarmup => exact iff_of_true rfl trivial

theorem sizesOk_call (h : SizesOk s) (c : Call) : SizesOk (s.call cfg S c) := by
  have hkeep : ∀ {s'}, Prims cfg (fun _ _ _ => True) (fun _ _ _ => True) s s' → SizesOk s' :=
    fun hprims => prims_keep (fun _ _ hprim => hprim.sizesOk) hprims h
  cases c with
  | op op => exact hkeep (step_prims s op (onHeadStep_trivial s op) (onTailStep_trivial s op))
  | enforceQuotaLocked needed => exact hkeep (prims_enforceQuotaLocked s needed)

theorem totalAgrees_call_iff (hsizes : SizesOk s) (h : TotalAgrees s) (c : Call) :
    TotalAgrees (s.call cfg S c) ↔ Counted cfg s c := by
  cases c with
  | op op => exact totalAgrees_step_iff hsizes h op
  | enforceQuotaLocked needed => exact iff_of_true (totalAgrees_enforceQuotaLocked h needed) trivial

variable (cfg) (S) (s) in
/-- When the total is right in every state. -/
theorem accounted_iff (calls : List Call) :
    (∀ pre, pre <+: calls → Accounted cfg (run (call cfg S) s.initDiskWarmup pre)) ↔
      Meets (Counted cfg) (call cfg S) s.initDiskWarmup calls := by
  have hstart : SizesOk s.initDiskWarmup ∧ TotalAgrees s.initDiskWarmup :=
    ⟨fun p hsize => absurd rfl hsize, rfl⟩
  have hkeep : ∀ (s : DiskWarmupCache) c, SizesOk s ∧ TotalAgrees s → Counted cfg s c →
      SizesOk (s.call cfg S c) ∧ TotalAgrees (s.call cfg S c) :=
    fun s c h hc => ⟨sizesOk_call h.1 c, (totalAgrees_call_iff h.1 h.2 c).mpr hc⟩
  constructor
  · refine meets_of_good hkeep ?_ calls hstart fun _ _ => (trivial : True)
    intro s c h _ hbad hgood
    exact hbad ((totalAgrees_call_iff h.1 h.2 c).mp hgood.total_eq)
  · exact Meets.good hkeep (fun _ h => accounted_iff_totalAgrees.mpr h.2) calls hstart

theorem total_not_accounted :
    let tail := run (call {} .insertion) empty.initDiskWarmup
      [.op (.writeTail "aa" 1 [1, 2, 3] 0 3 .none)]
    let removed := tail.call {} .insertion (.op (.removeHash "aa"))
    let head := run (call {} .insertion) empty.initDiskWarmup
      [.op (.processWrite "aa" 1 [5, 6] 4 .none), .op (.processWrite "aa" 1 [1, 2] 0 .none),
        .op (.processWrite "aa" 1 [3, 4] 2 .none)]
    (tail.totalSize = 0 ∧ tail.disk.totalBytes = 3) ∧
      (tail.totalSize + warmupQuota ≤ quota {} ∧ ¬ tail.disk.totalBytes + warmupQuota ≤ quota {}) ∧
      (removed.totalSize = -3 ∧ removed.disk.totalBytes = 0) ∧
      (head.totalSize = 8 ∧ head.disk.totalBytes = 6) := by
  decide +kernel

end DiskWarmupCache

end GoStream.Warmup
