import Mathlib.Logic.Relation
import GoStream.Warmup.Cache

/-!
# What one operation of the warmup cache can do
-/

namespace GoStream.Warmup

open Foundations Relation

namespace DiskWarmupCache

abbrev WriteCond := ℕ → ℕ → ℕ → Prop

variable (cfg : WarmupConfig) (S : SliceSort)

inductive Prim (onHead onTail : WriteCond) : DiskWarmupCache → DiskWarmupCache → Prop
  | memo {s s' : DiskWarmupCache} (hview : ∀ p, s'.view p = s.view p) (hdisk : s'.disk = s.disk) :
      Prim onHead onTail s s'
  | evict (s : DiskWarmupCache) (p : WarmupPath) : Prim onHead onTail s (s.evict p)
  | storeSize (s : DiskWarmupCache) (p : WarmupPath) (n : ℕ) (hn : s.disk.size p = some n) :
      Prim onHead onTail s (s.storeSize p n)
  | storeMissing (s : DiskWarmupCache) (p : WarmupPath) (hp : s.disk.content p = none) :
      Prim onHead onTail s (s.storeMissing p)
  | clearMissing (s : DiskWarmupCache) (p : WarmupPath) :
      Prim onHead onTail s { s with missing := Function.update s.missing p false }
  | openHandle (s : DiskWarmupCache) (p : WarmupPath)
      (hp : s.handles p = true ∨ s.disk.content p ≠ none) :
      Prim onHead onTail s { s with handles := Function.update s.handles p true }
  | handleReaper (s : DiskWarmupCache) (idle : WarmupPath → Bool) :
      Prim onHead onTail s (s.handleReaper idle)
  | dropOversize (s : DiskWarmupCache) (hash : String) (fileID : ℤ) :
      Prim onHead onTail s (s.dropOversize (.head hash fileID))
  | createFile (s : DiskWarmupCache) (p : WarmupPath) (hp : s.disk.content p = none) :
      Prim onHead onTail s (s.createFile p)
  | setCoverage (s : DiskWarmupCache) (p : WarmupPath) :
      Prim onHead onTail s
        { s with tailCoverage := Function.update s.tailCoverage p (s.disk.size p) }
  | writeHead (s : DiskWarmupCache) (hash : String) (fileID : ℤ) (data : Bytes) (off : ℕ)
      (io : IoFaults) (f : Bytes) (hf : s.disk.content (.head hash fileID) = some f)
      (hoff : off ≤ cfg.warmupFileSize) (hin : onHead f.length off (io.written data)) :
      Prim onHead onTail s (s.writeHead (.head hash fileID) data off io)
  | writeTailAt (s : DiskWarmupCache) (hash : String) (fileID : ℤ) (data : Bytes) (relOffset : ℕ)
      (io : IoFaults) (f : Bytes) (hf : s.disk.content (.tail hash fileID) = some f)
      (hin : onTail f.length relOffset (io.written data)) :
      Prim onHead onTail s (s.writeTailAt (.tail hash fileID) data relOffset io)
  | initDiskWarmup (s : DiskWarmupCache) : Prim onHead onTail s s.initDiskWarmup

variable {cfg} {S} {onHead onTail : WriteCond} {s s' : DiskWarmupCache} {p : WarmupPath}
  {io : IoFaults}

abbrev Prims (cfg : WarmupConfig) (onHead onTail : WriteCond) :=
  ReflTransGen (Prim cfg onHead onTail)

variable (cfg) (onHead) in
def OnHeadWrite (s : DiskWarmupCache) (hash : String) (fileID : ℤ) (data : Bytes) (off : ℕ)
    (io : IoFaults) : Prop :=
  off ≤ cfg.warmupFileSize → s.canOpen (.head hash fileID) io = true →
    onHead ((s.disk.size (.head hash fileID)).getD 0) off (io.written (headData cfg data off))

variable (cfg) (onHead) in
def OnHeadStep (s : DiskWarmupCache) : Op → Prop
  | .processWrite hash fileID data off io => OnHeadWrite cfg onHead s hash fileID data off io
  | .writeWorker io =>
      ∀ w ∈ s.writeCh.head?, OnHeadWrite cfg onHead s w.hash w.fileID w.data w.off io
  | _ => True

variable (cfg) (onTail) in
def OnTailWrite (s : DiskWarmupCache) (hash : String) (fileID : ℤ) (data : Bytes)
    (absoluteOffset fileSize : ℕ) (io : IoFaults) : Prop :=
  tailStart cfg fileSize ≤ absoluteOffset →
    tailData cfg data (absoluteOffset - tailStart cfg fileSize) ≠ [] →
    s.canOpen (.tail hash fileID) io = true →
    onTail ((s.disk.size (.tail hash fileID)).getD 0) (absoluteOffset - tailStart cfg fileSize)
      (io.written (tailData cfg data (absoluteOffset - tailStart cfg fileSize)))

variable (cfg) (onTail) in
def OnTailStep (s : DiskWarmupCache) : Op → Prop
  | .writeTail hash fileID data absoluteOffset fileSize io =>
      OnTailWrite cfg onTail s hash fileID data absoluteOffset fileSize io
  | _ => True

theorem prims_enforceQuotaLocked (s : DiskWarmupCache) (needed : ℤ) :
    Prims cfg onHead onTail s (s.enforceQuotaLocked cfg S needed) :=
  enforceQuotaLocked_keeps cfg S (fun _ _ h => h.tail (.memo (fun _ => rfl) rfl))
    (fun s p h => h.tail (.evict s p)) .refl needed

theorem prims_removeHash (s : DiskWarmupCache) (hash : String) :
    Prims cfg onHead onTail s (s.removeHash hash) :=
  removeHash_keeps (fun _ _ h => h.tail (.memo (fun _ => rfl) rfl))
    (fun s p h => h.tail (.evict s p)) .refl hash

theorem prim_getHandle {openFails : Bool} (h : s.getHandle p openFails = some s') :
    Prim cfg onHead onTail s s' := by
  have hp : s.handles p = true ∨ s.disk.content p ≠ none := by
    unfold DiskWarmupCache.getHandle at h
    split_ifs at h with hopen hno
    · exact .inl hopen
    · simp only [Bool.or_eq_true, not_or, Option.isNone_iff_eq_none] at hno
      exact .inr hno.2
  rw [getHandle_eq_some s p h]
  exact .openHandle s p hp

variable (cfg) (S) in
def roomFor (s : DiskWarmupCache) (p : WarmupPath) : DiskWarmupCache :=
  if (s.disk.content p).isNone then s.enforceQuotaLocked cfg S cfg.warmupFileSize else s

theorem content_roomFor (s : DiskWarmupCache) (p : WarmupPath) :
    (s.roomFor cfg S p).disk.content p = s.disk.content p := by
  unfold roomFor
  split_ifs with hnone
  · have habsent := Option.isNone_iff_eq_none.mp hnone
    rw [habsent, enforceQuotaLocked_absent cfg S s habsent]
  · rfl

theorem openHead_eq (s : DiskWarmupCache) (p : WarmupPath) (io : IoFaults) :
    s.openHead cfg S p io = (s.roomFor cfg S p).openTail p io := by
  have hcontent := @content_roomFor cfg S s p
  unfold DiskWarmupCache.openHead DiskWarmupCache.openTail
  rw [hcontent]
  unfold roomFor
  split_ifs <;> rfl

theorem openTail_snd (s : DiskWarmupCache) (p : WarmupPath) (io : IoFaults) :
    (s.openTail p io).2 = s.canOpen p io := by
  unfold DiskWarmupCache.openTail canOpen DiskWarmupCache.getHandle
  cases s.disk.content p <;> cases io.createFails <;> cases s.handles p <;> cases io.openFails <;>
    simp

theorem openHead_snd (s : DiskWarmupCache) (p : WarmupPath) (io : IoFaults) :
    (s.openHead cfg S p io).2 = s.canOpen p io := by
  rw [openHead_eq, openTail_snd, canOpen, content_roomFor, canOpen, roomFor]
  split_ifs <;> rfl

theorem openTail_file (hok : (s.openTail p io).2 = true) :
    (s.openTail p io).1.disk.content p = some ((s.disk.content p).getD []) ∧
      (s.openTail p io).1.handles p = true := by
  unfold DiskWarmupCache.openTail at hok ⊢
  by_cases hnone : s.disk.content p = none
  · cases hc : io.createFails <;> simp_all [createFile]
  · obtain ⟨f, hf⟩ := Option.ne_none_iff_exists'.mp hnone
    simp only [hf, Option.isNone_some, Bool.false_eq_true, ↓reduceIte] at hok ⊢
    cases hg : s.getHandle p io.openFails with
    | none => simp [hg] at hok
    | some s' => simp [getHandle_eq_some s p hg, hf]

theorem openHead_file (hok : (s.openHead cfg S p io).2 = true) :
    (s.openHead cfg S p io).1.disk.content p = some ((s.disk.content p).getD []) ∧
      (s.openHead cfg S p io).1.handles p = true := by
  rw [openHead_eq] at hok ⊢
  have hfile := openTail_file hok
  rwa [content_roomFor] at hfile

theorem prims_openTail (s : DiskWarmupCache) (p : WarmupPath) (io : IoFaults) :
    Prims cfg onHead onTail s (s.openTail p io).1 := by
  unfold DiskWarmupCache.openTail
  split_ifs with hnone
  · exact .single (.clearMissing s p)
  · exact .single (.createFile s p (Option.isNone_iff_eq_none.mp hnone))
  · split
    · exact .refl
    · next s' hs' => exact .single (prim_getHandle hs')

theorem prims_openHead (s : DiskWarmupCache) (p : WarmupPath) (io : IoFaults) :
    Prims cfg onHead onTail s (s.openHead cfg S p io).1 := by
  have hroom : Prims cfg onHead onTail s (s.roomFor cfg S p) := by
    unfold roomFor
    split_ifs
    · exact prims_enforceQuotaLocked s _
    · exact .refl
  rw [openHead_eq]
  exact hroom.trans (prims_openTail _ p io)

theorem headComplete_eq_some (h : s.headComplete cfg p = some s') :
    s' = s ∨ ∃ n, s.disk.size p = some n ∧ s' = s.storeSize p n := by
  unfold DiskWarmupCache.headComplete at h
  split at h
  · split_ifs at h
    exact .inl (Option.some.inj h).symm
  · split at h
    · next n hn =>
      split_ifs at h
      exact .inr ⟨n, hn, (Option.some.inj h).symm⟩
    · cases h

theorem tailComplete_eq_some (h : s.tailComplete cfg p = some s') :
    s' = s ∨ s' = { s with tailCoverage := Function.update s.tailCoverage p (s.disk.size p) } := by
  unfold DiskWarmupCache.tailComplete at h
  split at h
  · split_ifs at h
    exact .inl (Option.some.inj h).symm
  · split at h
    · next n hn =>
      split_ifs at h
      exact .inr (hn ▸ (Option.some.inj h).symm)
    · cases h

theorem prims_headComplete (h : s.headComplete cfg p = some s') :
    Prims cfg onHead onTail s s' := by
  obtain rfl | ⟨n, hn, rfl⟩ := headComplete_eq_some h
  · exact .refl
  · exact .single (.storeSize s p n hn)

theorem prims_tailComplete (h : s.tailComplete cfg p = some s') :
    Prims cfg onHead onTail s s' := by
  obtain rfl | rfl := tailComplete_eq_some h
  · exact .refl
  · exact .single (.setCoverage s p)

theorem size_getD_eq (s : DiskWarmupCache) (p : WarmupPath) :
    (s.disk.size p).getD 0 = ((s.disk.content p).getD []).length := by
  cases hc : s.disk.content p <;> simp [Disk.size, hc]

section Writes

variable {hash : String} {fileID : ℤ} {data : Bytes} {off absoluteOffset fileSize : ℕ}

theorem processWrite_of_complete (hoff : off ≤ cfg.warmupFileSize)
    (h : s.headComplete cfg (.head hash fileID) = some s') :
    s.processWrite cfg S hash fileID data off io = s' := by
  rw [processWrite, if_neg (not_lt.mpr hoff)]
  dsimp only
  rw [h]

theorem processWrite_of_incomplete (hoff : off ≤ cfg.warmupFileSize)
    (h : s.headComplete cfg (.head hash fileID) = none) :
    s.processWrite cfg S hash fileID data off io =
      if s.canOpen (.head hash fileID) io then
        (s.openHead cfg S (.head hash fileID) io).1.writeHead (.head hash fileID)
          (headData cfg data off) off io
      else (s.openHead cfg S (.head hash fileID) io).1 := by
  rw [← @openHead_snd cfg S, processWrite, if_neg (not_lt.mpr hoff)]
  dsimp only
  rw [h]
  dsimp only
  cases s.openHead cfg S (.head hash fileID) io with
  | mk s' ok => cases ok <;> rfl

theorem writeTail_of_nil
    (hdata : tailData cfg data (absoluteOffset - tailStart cfg fileSize) = []) :
    s.writeTail cfg hash fileID data absoluteOffset fileSize io = s := by
  rw [writeTail]
  dsimp only
  rw [if_pos hdata, ite_self]

theorem writeTail_of_complete (hstart : tailStart cfg fileSize ≤ absoluteOffset)
    (hdata : tailData cfg data (absoluteOffset - tailStart cfg fileSize) ≠ [])
    (h : s.tailComplete cfg (.tail hash fileID) = some s') :
    s.writeTail cfg hash fileID data absoluteOffset fileSize io = s' := by
  rw [writeTail, if_neg (not_lt.mpr hstart)]
  dsimp only
  rw [if_neg hdata, h]

theorem writeTail_of_incomplete (hstart : tailStart cfg fileSize ≤ absoluteOffset)
    (hdata : tailData cfg data (absoluteOffset - tailStart cfg fileSize) ≠ [])
    (h : s.tailComplete cfg (.tail hash fileID) = none) :
    s.writeTail cfg hash fileID data absoluteOffset fileSize io =
      if s.canOpen (.tail hash fileID) io then
        (s.openTail (.tail hash fileID) io).1.writeTailAt (.tail hash fileID)
          (tailData cfg data (absoluteOffset - tailStart cfg fileSize))
          (absoluteOffset - tailStart cfg fileSize) io
      else (s.openTail (.tail hash fileID) io).1 := by
  rw [← openTail_snd, writeTail, if_neg (not_lt.mpr hstart)]
  dsimp only
  rw [if_neg hdata, h]
  dsimp only
  cases s.openTail (.tail hash fileID) io with
  | mk s' ok => cases ok <;> rfl

end Writes

theorem prims_processWrite (s : DiskWarmupCache) (hash : String) (fileID : ℤ) (data : Bytes)
    (off : ℕ) (io : IoFaults) (hin : OnHeadWrite cfg onHead s hash fileID data off io) :
    Prims cfg onHead onTail s (s.processWrite cfg S hash fileID data off io) := by
  rcases lt_or_ge cfg.warmupFileSize off with hoff | hoff
  · rw [processWrite, if_pos hoff]
  cases hcomplete : s.headComplete cfg (.head hash fileID) with
  | some s' =>
    rw [processWrite_of_complete hoff hcomplete]
    exact prims_headComplete hcomplete
  | none =>
    have hprims := @prims_openHead cfg S onHead onTail s (.head hash fileID) io
    rw [processWrite_of_incomplete hoff hcomplete]
    split_ifs with hcan
    · have hfile := openHead_file ((@openHead_snd cfg S s _ io).trans hcan)
      refine hprims.tail (.writeHead _ hash fileID _ off io _ hfile.1 hoff ?_)
      rw [← size_getD_eq]
      exact hin hoff hcan
    · exact hprims

theorem prims_writeTail (s : DiskWarmupCache) (hash : String) (fileID : ℤ) (data : Bytes)
    (absoluteOffset fileSize : ℕ) (io : IoFaults)
    (hin : OnTailWrite cfg onTail s hash fileID data absoluteOffset fileSize io) :
    Prims cfg onHead onTail s (s.writeTail cfg hash fileID data absoluteOffset fileSize io) := by
  rcases lt_or_ge absoluteOffset (tailStart cfg fileSize) with hstart | hstart
  · rw [writeTail, if_pos hstart]
  by_cases hdata : tailData cfg data (absoluteOffset - tailStart cfg fileSize) = []
  · rw [writeTail_of_nil hdata]
  cases hcomplete : s.tailComplete cfg (.tail hash fileID) with
  | some s' =>
    rw [writeTail_of_complete hstart hdata hcomplete]
    exact prims_tailComplete hcomplete
  | none =>
    have hprims := @prims_openTail cfg onHead onTail s (.tail hash fileID) io
    rw [writeTail_of_incomplete hstart hdata hcomplete]
    split_ifs with hcan
    · have hfile := openTail_file ((openTail_snd s _ io).trans hcan)
      refine hprims.tail (.writeTailAt _ hash fileID _ _ io _ hfile.1 ?_)
      rw [← size_getD_eq]
      exact hin hstart hdata hcan
    · exact hprims

theorem prims_getAvailableRange (s : DiskWarmupCache) (hash : String) (fileID : ℤ) :
    Prims cfg onHead onTail s (s.getAvailableRange cfg hash fileID).1 := by
  unfold DiskWarmupCache.getAvailableRange
  dsimp only
  split_ifs
  · exact .refl
  split
  · exact .refl
  split
  · next hn => exact .single (.storeMissing s _ (by simpa [Disk.size] using hn))
  · next n hn =>
    split_ifs
    · exact .single (.dropOversize s hash fileID)
    · exact .single (.storeSize s _ n hn)

theorem prims_readAt (s : DiskWarmupCache) (hash : String) (fileID : ℤ) (len off : ℕ)
    (openFails : Bool) :
    Prims cfg onHead onTail s (s.readAt cfg hash fileID len off openFails).1 := by
  unfold DiskWarmupCache.readAt
  split_ifs
  · exact .refl
  dsimp only
  split
  · exact .refl
  · next s' hs' =>
    have h : Prims cfg onHead onTail s (s'.getAvailableRange cfg hash fileID).1 :=
      (prims_getAvailableRange s' hash fileID).head (prim_getHandle hs')
    split_ifs <;> exact h

theorem prims_readTail (s : DiskWarmupCache) (hash : String) (fileID : ℤ)
    (len absoluteOffset fileSize : ℕ) (openFails : Bool) :
    Prims cfg onHead onTail s
      (s.readTail cfg hash fileID len absoluteOffset fileSize openFails).1 := by
  unfold DiskWarmupCache.readTail
  dsimp only
  split_ifs
  · exact .refl
  · exact .refl
  have hc : Prims cfg onHead onTail s (s.noteCoverage (.tail hash fileID)) := by
    unfold noteCoverage
    split
    · exact .refl
    · exact .single (.setCoverage s _)
  split
  · exact hc
  · next s' hs' => exact hc.tail (prim_getHandle hs')

theorem prims_getTailRange (s : DiskWarmupCache) (hash : String) (fileID : ℤ) :
    Prims cfg onHead onTail s (s.getTailRange hash fileID).1 := by
  unfold DiskWarmupCache.getTailRange
  dsimp only
  split_ifs
  · exact .refl
  split
  · exact .refl
  split
  · next hn => exact .single (.storeMissing s _ (by simpa [Disk.size] using hn))
  · next n hn => exact .single (.storeSize s _ n hn)

theorem prims_writeChunk (s : DiskWarmupCache) (hash : String) (fileID : ℤ) (data : Bytes)
    (off : ℕ) : Prims cfg onHead onTail s (s.writeChunk cfg hash fileID data off) := by
  unfold DiskWarmupCache.writeChunk
  split_ifs
  · exact .refl
  · exact .single (.memo (fun _ => rfl) rfl)
  · exact .refl

theorem prims_writeWorker (s : DiskWarmupCache) (io : IoFaults)
    (hin : ∀ w ∈ s.writeCh.head?, OnHeadWrite cfg onHead s w.hash w.fileID w.data w.off io) :
    Prims cfg onHead onTail s (s.writeWorker cfg S io) := by
  unfold DiskWarmupCache.writeWorker
  split
  · exact .refl
  · next w ws hw =>
    have hpop : Prim cfg onHead onTail s { s with writeCh := ws } := .memo (fun _ => rfl) rfl
    exact .head hpop (prims_processWrite _ w.hash w.fileID w.data w.off io (hin w (by simp [hw])))

theorem step_prims (s : DiskWarmupCache) (op : Op) (hhead : OnHeadStep cfg onHead s op)
    (htail : OnTailStep cfg onTail s op) : Prims cfg onHead onTail s (s.step cfg S op) := by
  cases op with
  | tick nanos => exact .single (.memo (fun _ => rfl) rfl)
  | writeChunk hash fileID data off => exact prims_writeChunk s hash fileID data off
  | writeWorker io => exact prims_writeWorker s io hhead
  | processWrite hash fileID data off io =>
    exact prims_processWrite s hash fileID data off io hhead
  | getAvailableRange hash fileID => exact prims_getAvailableRange s hash fileID
  | readAt hash fileID len off openFails => exact prims_readAt s hash fileID len off openFails
  | writeTail hash fileID data absoluteOffset fileSize io =>
    exact prims_writeTail s hash fileID data absoluteOffset fileSize io htail
  | readTail hash fileID len absoluteOffset fileSize openFails =>
    exact prims_readTail s hash fileID len absoluteOffset fileSize openFails
  | getTailRange hash fileID => exact prims_getTailRange s hash fileID
  | removeHash hash => exact prims_removeHash s hash
  | handleReaper idle => exact .single (.handleReaper s idle)
  | initDiskWarmup => exact .single (.initDiskWarmup s)

theorem onHeadStep_trivial (s : DiskWarmupCache) (op : Op) :
    OnHeadStep cfg (fun _ _ _ => True) s op := by
  cases op <;> simp [OnHeadStep, OnHeadWrite]

theorem onTailStep_trivial (s : DiskWarmupCache) (op : Op) :
    OnTailStep cfg (fun _ _ _ => True) s op := by
  cases op <;> simp [OnTailStep, OnTailWrite]

theorem prims_keep {P : DiskWarmupCache → Prop}
    (keep : ∀ s s', Prim cfg onHead onTail s s' → P s → P s') (h : Prims cfg onHead onTail s s')
    (hs : P s) : P s' := by
  induction h with
  | refl => exact hs
  | tail _ hlast ih => exact keep _ _ hlast ih

variable (cfg) in
inductive PathStep (onHead onTail : WriteCond) (q : WarmupPath) (v : PathView) : PathView → Prop
  | same : PathStep onHead onTail q v v
  | evict : PathStep onHead onTail q v ⟨false, v.missing, none, none, none⟩
  | storeSize (f : Bytes) (now : ℕ) (hf : v.content = some f) :
      PathStep onHead onTail q v { v with size := some ⟨f.length, now⟩ }
  | storeMissing (hf : v.content = none) : PathStep onHead onTail q v { v with missing := true }
  | clearMissing : PathStep onHead onTail q v { v with missing := false }
  | openHandle (h : v.isOpen = true ∨ v.content ≠ none) :
      PathStep onHead onTail q v { v with isOpen := true }
  | closeHandle (keep : Bool) : PathStep onHead onTail q v { v with isOpen := v.isOpen && keep }
  | dropOversize (hq : q.isHead = true) :
      PathStep onHead onTail q v ⟨false, true, none, v.coverage, none⟩
  | createFile (hf : v.content = none) :
      PathStep onHead onTail q v { v with isOpen := true, missing := false, content := some [] }
  | setCoverage : PathStep onHead onTail q v { v with coverage := v.content.map List.length }
  | writeHead (hq : q.isHead = true) (f data : Bytes) (off : ℕ) (io : IoFaults) (now : ℕ)
      (hf : v.content = some f) (hoff : off ≤ cfg.warmupFileSize)
      (hin : onHead f.length off (io.written data)) :
      PathStep onHead onTail q v
        { v with
          size := if io.written data < data.length then v.size
            else some ⟨off + io.written data, now⟩
          content := some (pwrite f off (data.take (io.written data))) }
  | writeTailAt (hq : q.isHead = false) (f data : Bytes) (relOffset : ℕ) (io : IoFaults) (now : ℕ)
      (hf : v.content = some f) (hin : onTail f.length relOffset (io.written data)) :
      PathStep onHead onTail q v
        { v with
          size := some ⟨relOffset + io.written data, now⟩
          coverage := some (max (v.coverage.getD 0) (relOffset + io.written data))
          content := some (pwrite f relOffset (data.take (io.written data))) }
  | initDiskWarmup : PathStep onHead onTail q v ⟨false, false, none, none, v.content⟩

theorem Prim.pathStep (h : Prim cfg onHead onTail s s') (q : WarmupPath) :
    PathStep cfg onHead onTail q (s.view q) (s'.view q) := by
  have hone : ∀ {p : WarmupPath} {v : PathView},
      (q = p → PathStep cfg onHead onTail q (s.view q) v) →
      PathStep cfg onHead onTail q (s.view q) (if q = p then v else s.view q) := by
    intro p v hv
    split_ifs with hqp
    · exact hv hqp
    · exact .same
  cases h with
  | memo hview _ => rw [hview]; exact .same
  | evict p => rw [view_evict]; exact hone fun _ => .evict
  | storeSize p n hn =>
    rw [view_storeSize]
    obtain ⟨f, hf, rfl⟩ := Option.map_eq_some_iff.mp hn
    exact hone fun hqp => .storeSize f s.now (hqp ▸ hf)
  | storeMissing p hp => rw [view_storeMissing]; exact hone fun hqp => .storeMissing (hqp ▸ hp)
  | clearMissing p => rw [view_clearMissing]; exact hone fun _ => .clearMissing
  | openHandle p hp => rw [view_openHandle]; exact hone fun hqp => .openHandle (hqp ▸ hp)
  | handleReaper idle => exact .closeHandle (!idle q)
  | dropOversize hash fileID =>
    rw [view_dropOversize]
    exact hone fun hqp => .dropOversize (by rw [hqp]; rfl)
  | createFile p hp => rw [view_createFile]; exact hone fun hqp => .createFile (hqp ▸ hp)
  | setCoverage p =>
    rw [view_setCoverage]
    exact hone fun hqp => hqp ▸ .setCoverage
  | writeHead hash fileID data off io f hf hoff hin =>
    rw [view_writeHead]
    refine hone fun hqp => ?_
    have hc : (s.view q).content = some f := hqp ▸ hf
    rw [hc]
    exact .writeHead (by rw [hqp]; rfl) f data off io s.now hc hoff hin
  | writeTailAt hash fileID data relOffset io f hf hin =>
    rw [view_writeTailAt]
    refine hone fun hqp => ?_
    have hc : (s.view q).content = some f := hqp ▸ hf
    rw [hc]
    exact .writeTailAt (by rw [hqp]; rfl) f data relOffset io s.now hc hin
  | initDiskWarmup => exact .initDiskWarmup

variable (cfg) in
structure PathOk (p : WarmupPath) (v : PathView) : Prop where
  openExists : v.isOpen = true → v.content ≠ none
  missingAbsent : v.missing = true → v.content = none
  sizeOnDisk : p.isHead = true → ∀ e, v.size = some e → cfg.warmupFileSize < e.size →
    ∃ f, v.content = some f ∧ cfg.warmupFileSize < f.length

variable (cfg) in
def MapsOk (s : DiskWarmupCache) : Prop := ∀ p, PathOk cfg p (s.view p)

theorem mapsOk_empty : MapsOk cfg empty := fun _ =>
  ⟨by simp [view, empty], by simp [view, empty], by simp [view, empty]⟩

theorem length_pwrite_written (f data : Bytes) (off : ℕ) (io : IoFaults) :
    (pwrite f off (data.take (io.written data))).length =
      if io.written data = 0 then f.length else max f.length (off + io.written data) := by
  have hlen := io.length_take_written data
  split_ifs with hzero
  · rw [hzero, List.take_zero, pwrite, if_pos rfl]
  · have hne : data.take (io.written data) ≠ [] := by
      intro hnil
      rw [hnil, List.length_nil] at hlen
      exact hzero hlen.symm
    rw [length_pwrite _ _ hne, hlen]

theorem lt_length_pwrite_written {f data : Bytes} {off bound : ℕ} (hoff : off ≤ bound)
    (hend : bound < off + io.written data) :
    bound < (pwrite f off (data.take (io.written data))).length := by
  rw [length_pwrite_written]
  split_ifs <;> omega

theorem Prim.mapsOk (h : Prim cfg onHead onTail s s') (hs : MapsOk cfg s) : MapsOk cfg s' := by
  intro q
  have hq := hs q
  have hstep := h.pathStep q
  generalize s'.view q = v' at hstep ⊢
  cases hstep with
  | same => exact hq
  | evict => exact ⟨by simp, fun _ => rfl, by simp⟩
  | storeSize f now hf =>
    refine ⟨hq.openExists, hq.missingAbsent, fun _ e he hlt => ?_⟩
    obtain rfl := Option.some.inj he
    exact ⟨f, hf, hlt⟩
  | storeMissing hf => exact ⟨hq.openExists, fun _ => hf, hq.sizeOnDisk⟩
  | clearMissing => exact ⟨hq.openExists, by simp, hq.sizeOnDisk⟩
  | openHandle h => exact ⟨fun _ => h.elim hq.openExists id, hq.missingAbsent, hq.sizeOnDisk⟩
  | closeHandle keep =>
    refine ⟨fun ho => ?_, hq.missingAbsent, hq.sizeOnDisk⟩
    exact hq.openExists ((Bool.and_eq_true _ _).mp ho).1
  | dropOversize _ | initDiskWarmup => exact ⟨by simp, by simp, by simp⟩
  | createFile hf =>
    refine ⟨by simp, by simp, fun hhead e he hlt => ?_⟩
    obtain ⟨f, hf', -⟩ := hq.sizeOnDisk hhead e he hlt
    cases hf'.symm.trans hf
  | setCoverage => exact ⟨hq.openExists, hq.missingAbsent, hq.sizeOnDisk⟩
  | writeHead _ f data off io now hf hoff _ =>
    refine ⟨by simp, fun hm => absurd (hq.missingAbsent hm) (by simp [hf]),
      fun hhead e he hlt => ⟨_, rfl, ?_⟩⟩
    dsimp only at he
    split_ifs at he
    · obtain ⟨g, hg, hlen⟩ := hq.sizeOnDisk hhead e he hlt
      obtain rfl := Option.some.inj (hf.symm.trans hg)
      exact hlen.trans_le (length_le_pwrite _ _ _)
    · obtain rfl := Option.some.inj he
      exact lt_length_pwrite_written hoff hlt
  | writeTailAt hq' f data relOffset io now hf _ =>
    exact ⟨by simp, fun hm => absurd (hq.missingAbsent hm) (by simp [hf]), by simp [hq']⟩

def SizesOk (s : DiskWarmupCache) : Prop :=
  ∀ p, (s.view p).size ≠ none → (s.view p).content ≠ none

theorem Prim.sizesOk (h : Prim cfg onHead onTail s s') (hs : SizesOk s) : SizesOk s' := by
  intro q
  have hq := hs q
  have hstep := h.pathStep q
  generalize s'.view q = v' at hstep ⊢
  cases hstep with
  | evict | dropOversize _ | initDiskWarmup | createFile _ | writeHead _ _ _ _ _ _ _ _ _
  | writeTailAt _ _ _ _ _ _ _ _ =>
    simp
  | storeSize f now hf => simp [hf]
  | _ => exact hq

end DiskWarmupCache

end GoStream.Warmup
