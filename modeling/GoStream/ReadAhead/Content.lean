import GoStream.Foundations.Run
import GoStream.ReadAhead.Cache

/-!
# What the read-ahead cache serves
-/

namespace GoStream.ReadAhead

open Foundations

namespace ReadAheadCache

variable (cfg : Config) (hash : Path → ℕ) (content : Path → Bytes)

def Holds (H : Heap) (key : Key) (b : RaBuffer) : Prop :=
  ∃ (p : Path) (n : ℤ), key = p ++ 58 :: itoa n ∧ 0 ≤ b.start ∧ b.start ≤ b.stop ∧
    b.stop < (content p).length ∧ H.cells b.data = byteRange (content p) b.start b.stop

def owner (c : ReadAheadCache) (held : Option ℕ) : Option (Fin 32 × Key) → Option ℕ
  | none => held
  | some (i, key) => (c.entry i key).map RaBuffer.data

structure Inv (c : ReadAheadCache) (held : Option ℕ) : Prop where
  separated : Separated c.heap (owner c held) c.pool
  holds : ∀ i key b, c.entry i key = some b → Holds content c.heap key b

variable {cfg hash content} {c c' : ReadAheadCache} {held : Option ℕ} {i j : Fin 32}
  {key k : Key} {b : RaBuffer}

theorem entry_setShard (c : ReadAheadCache) (i j : Fin 32) (s : RaShard) (k : Key) :
    (c.setShard i s).entry j k = if j = i then s.buffers.lookup k else c.entry j k := by
  by_cases h : j = i
  · subst h; simp [entry, setShard]
  · simp [entry, setShard, h]

@[simp] theorem entry_setOrder (c : ReadAheadCache) (i j : Fin 32) (order : List Key) (k : Key) :
    (c.setOrder i order).entry j k = c.entry j k := by
  rw [setOrder, entry_setShard]
  split_ifs with h
  · rw [h, entry]
  · rfl

theorem Inv.congr (h : Inv content c held) (hentry : ∀ i k, c'.entry i k = c.entry i k)
    (hpool : c'.pool = c.pool) (hheap : c'.heap = c.heap) : Inv content c' held := by
  have howner : owner c' held = owner c held := by
    funext o
    rcases o with - | ⟨i, k⟩
    · rfl
    · simp only [owner, hentry]
  refine ⟨?_, fun i key b hb => ?_⟩
  · rw [howner, hpool, hheap]
    exact h.separated
  · rw [hheap]
    exact h.holds i key b (hentry i key ▸ hb)

theorem Inv.setOrder (h : Inv content c held) (i : Fin 32) (order : List Key) :
    Inv content (c.setOrder i order) held :=
  h.congr (fun _ _ => entry_setOrder ..) rfl rfl

theorem Inv.mono (h : Inv content c held)
    (hentry : ∀ i k b, c'.entry i k = some b → c.entry i k = some b)
    (hpool : c'.pool = c.pool) (hheap : c'.heap = c.heap) : Inv content c' held := by
  refine ⟨?_, fun i key b hb => ?_⟩
  · rw [hpool, hheap]
    refine h.separated.mono ?_ (List.Sublist.refl _)
    rintro (- | ⟨i, k⟩) a ha
    · exact ha
    · obtain ⟨b, hb, rfl⟩ := Option.map_eq_some_iff.mp ha
      exact Option.map_eq_some_iff.mpr ⟨b, hentry i k b hb, rfl⟩
  · rw [hheap]
    exact h.holds i key b (hentry i key b hb)

theorem entry_recycle (c : ReadAheadCache) (a : ℕ) : (c.recycle cfg a).entry = c.entry := by
  unfold recycle
  split_ifs <;> rfl

theorem heap_recycle (c : ReadAheadCache) (a : ℕ) : (c.recycle cfg a).heap = c.heap := by
  unfold recycle
  split_ifs <;> rfl

theorem pool_recycle (c : ReadAheadCache) (a : ℕ) :
    (c.recycle cfg a).pool = c.pool ∨ (c.recycle cfg a).pool = c.pool ++ [a] := by
  unfold recycle
  split_ifs
  · exact .inr rfl
  · exact .inl rfl

theorem entry_dropKey (c : ReadAheadCache) (i j : Fin 32) (key k : Key) :
    (c.dropKey cfg i key).entry j k = if j = i ∧ k = key then none else c.entry j k := by
  unfold dropKey
  split
  · next hnone =>
    split_ifs with h
    · rw [h.1, h.2, hnone]
    · rfl
  · next old hold =>
    rw [entry_recycle]
    refine (entry_setShard c i j _ k).trans ?_
    by_cases hj : j = i
    · subst hj
      by_cases hk : k = key
      · subst hk; simp
      · simp [hk, entry]
    · simp [hj]

theorem heap_dropKey (c : ReadAheadCache) (i : Fin 32) (key : Key) :
    (c.dropKey cfg i key).heap = c.heap := by
  unfold dropKey
  split
  · rfl
  · exact heap_recycle _ _

theorem owner_dropKey (c : ReadAheadCache) (held : Option ℕ) (i : Fin 32) (key : Key) :
    owner (c.dropKey cfg i key) held = Function.update (owner c held) (some (i, key)) none := by
  funext o
  rcases o with - | ⟨j, k⟩
  · simp [owner]
  · simp only [owner, entry_dropKey]
    by_cases h : j = i ∧ k = key
    · obtain ⟨rfl, rfl⟩ := h
      simp
    · have hne : (some (j, k) : Option (Fin 32 × Key)) ≠ some (i, key) := by simpa using h
      simp [h, hne, owner]

theorem Inv.dropKey (h : Inv content c held) (i : Fin 32) (key : Key) :
    Inv content (c.dropKey cfg i key) held := by
  refine ⟨?_, fun j k b hb => ?_⟩
  · rw [owner_dropKey, heap_dropKey]
    have hkeep : Separated c.heap (Function.update (owner c held) (some (i, key)) none) c.pool := by
      refine h.separated.mono (fun o a ha => ?_) (List.Sublist.refl _)
      by_cases ho : o = some (i, key)
      · simp [ho] at ha
      · simpa [ho] using ha
    unfold ReadAheadCache.dropKey
    split
    · exact hkeep
    · next old hold =>
      rcases @pool_recycle cfg _ old.data with hp | hp
      · rw [hp]
        exact hkeep
      · rw [hp]
        exact h.separated.release (by simp [owner, hold])
  · rw [heap_dropKey]
    rw [entry_dropKey] at hb
    split_ifs at hb
    exact h.holds j k b hb

theorem lookup_foldl_erase (keys : List Key) (m : AList fun _ : Key => RaBuffer)
    (h : (keys.foldl (fun m key => m.erase key) m).lookup k = some b) : m.lookup k = some b := by
  induction keys generalizing m with
  | nil => exact h
  | cons key keys ih =>
    have hm := ih (m.erase key) h
    by_cases hk : k = key
    · subst hk
      simp at hm
    · rwa [AList.lookup_erase_ne hk] at hm

theorem entry_of_evictPathShard {path : Path} (h : (c.evictPathShard path i).entry j k = some b) :
    c.entry j k = some b := by
  unfold ReadAheadCache.evictPathShard at h
  dsimp only at h
  split_ifs at h
  · exact h
  · replace h := (entry_setShard c i j _ k).symm.trans h
    split_ifs at h with hj
    · subst hj
      exact lookup_foldl_erase _ _ h
    · exact h

theorem heap_evictPathShard (c : ReadAheadCache) (path : Path) (i : Fin 32) :
    (c.evictPathShard path i).heap = c.heap ∧ (c.evictPathShard path i).pool = c.pool := by
  unfold ReadAheadCache.evictPathShard
  dsimp only
  split_ifs <;> exact ⟨rfl, rfl⟩

theorem Inv.evictPathShard (h : Inv content c held) (path : Path) (i : Fin 32) :
    Inv content (c.evictPathShard path i) held :=
  h.mono (fun _ _ _ => entry_of_evictPathShard) (heap_evictPathShard c path i).2
    (heap_evictPathShard c path i).1

theorem entry_touchKey (c : ReadAheadCache) (i j : Fin 32) (key k : Key) :
    (c.touchKey i key).entry j k = if j = i ∧ k = key then
      (c.entry i key).map fun b => { b with lastAccess := c.now } else c.entry j k := by
  unfold ReadAheadCache.touchKey
  split
  · next hnone =>
    split_ifs with hjk
    · rw [hjk.1, hjk.2, hnone]
      rfl
    · rfl
  · next b hb =>
    refine (entry_setShard c i j _ k).trans ?_
    by_cases hj : j = i
    · subst hj
      by_cases hk : k = key
      · subst hk; simp [hb]
      · simp [hk, entry]
    · simp [hj]

theorem heap_touchKey (c : ReadAheadCache) (i : Fin 32) (key : Key) :
    (c.touchKey i key).heap = c.heap ∧ (c.touchKey i key).pool = c.pool := by
  unfold ReadAheadCache.touchKey
  split <;> exact ⟨rfl, rfl⟩

theorem Inv.touchKey (h : Inv content c held) (i : Fin 32) (key : Key) :
    Inv content (c.touchKey i key) held := by
  have howner : owner (c.touchKey i key) held = owner c held := by
    funext o
    rcases o with - | ⟨j, k⟩
    · rfl
    · simp only [owner, entry_touchKey]
      split_ifs with hjk
      · rw [hjk.1, hjk.2, Option.map_map]
        rfl
      · rfl
  obtain ⟨hheap, hpool⟩ := heap_touchKey c i key
  refine ⟨?_, fun j k b' hb' => ?_⟩
  · rw [howner, hheap, hpool]
    exact h.separated
  · rw [hheap]
    rw [entry_touchKey] at hb'
    split_ifs at hb' with hjk
    · obtain ⟨b, hb, rfl⟩ := Option.map_eq_some_iff.mp hb'
      rw [hjk.2]
      exact h.holds i key b hb
    · exact h.holds j k b' hb'

theorem stable_inv (held : Option ℕ) : Stable cfg fun c => Inv content c held where
  dropKey := fun i key h => h.dropKey i key
  setOrder := fun i order h => h.setOrder i order
  evictPathShard := fun path i h => h.evictPathShard path i
  touchKey := fun i key h => h.touchKey i key
  setContext := fun _ _ _ h => h.congr (fun _ _ => rfl) rfl rfl

theorem Inv.takeBuffer (h : Inv content c none) (d : Bytes) :
    Inv content (c.takeBuffer d).1 (some (c.takeBuffer d).2) ∧
      (c.takeBuffer d).1.heap.cells (c.takeBuffer d).2 = d := by
  have howner : ∀ (H : Heap) (pool : List ℕ) (a : ℕ),
      owner { c with pool := pool, heap := H } (some a) =
        Function.update (owner c none) none (some a) := by
    intro H pool a
    funext o
    rcases o with - | ⟨j, k⟩
    · simp [owner]
    · simp [owner, entry]
  have hfresh : ∀ pool, Separated c.heap (owner c none) pool →
      Inv content { c with pool := pool, heap := c.heap.alloc d } (some c.heap.next) := by
    intro pool hsep
    refine ⟨?_, fun j k b hb => ?_⟩
    · rw [howner]
      exact hsep.alloc rfl d
    · obtain ⟨p, n, hkey, hlo, hle, hhi, hcells⟩ := h.holds j k b hb
      refine ⟨p, n, hkey, hlo, hle, hhi, ?_⟩
      have hown : owner c none (some (j, k)) = some b.data :=
        Option.map_eq_some_iff.mpr ⟨b, hb, rfl⟩
      exact (hsep.cells_alloc hown d).trans hcells
  unfold ReadAheadCache.takeBuffer
  split
  · next hpool => exact ⟨hpool ▸ hfresh c.pool h.separated, by simp [Heap.alloc]⟩
  · next a pool hpool =>
    have hmem : a ∈ c.pool := by simp [hpool]
    split_ifs with hlen
    · have hsep := h.separated.acquire (i := none) rfl hmem
      have herase : c.pool.erase a = pool := by simp [hpool]
      rw [herase] at hsep
      refine ⟨⟨?_, fun j k b hb => ?_⟩, ?_⟩
      · rw [howner]
        exact hsep.store _
      · obtain ⟨p, n, hkey, hlo, hle, hhi, hcells⟩ := h.holds j k b hb
        refine ⟨p, n, hkey, hlo, hle, hhi, ?_⟩
        refine (hsep.cells_store (i := none) (j := some (j, k)) (by simp) ?_ (by simp) _).trans hcells
        simpa [owner] using ⟨b, hb, rfl⟩
      · simp [Heap.store, copyInto_of_length_eq hlen]
    · refine ⟨hfresh pool (h.separated.mono (fun _ _ ha => ha) ?_), by simp [Heap.alloc]⟩
      rw [hpool]
      exact List.sublist_cons_self a pool

theorem entry_overwrite (c : ReadAheadCache) (i : Fin 32) (key : Key) :
    (c.overwrite cfg i key).entry i key = none := by
  unfold ReadAheadCache.overwrite
  split
  · assumption
  · simp [entry_dropKey]

theorem heap_overwrite (c : ReadAheadCache) (i : Fin 32) (key : Key) :
    (c.overwrite cfg i key).heap = c.heap := by
  unfold ReadAheadCache.overwrite
  split
  · rfl
  · exact heap_dropKey c i key

theorem entry_insertChunk (c : ReadAheadCache) (i j : Fin 32) (key k : Key) (b : RaBuffer) :
    (c.insertChunk i key b).entry j k = if j = i ∧ k = key then some b else c.entry j k := by
  refine (entry_setShard c i j _ k).trans ?_
  by_cases hj : j = i
  · subst hj
    by_cases hk : k = key
    · subst hk; simp
    · simp [hk, entry]
  · simp [hj]

theorem Inv.insertChunk (h : Inv content c (some b.data)) (hnone : c.entry i key = none)
    (hb : Holds content c.heap key b) : Inv content (c.insertChunk i key b) none := by
  have howner : owner (c.insertChunk i key b) none = Function.update
      (Function.update (owner c (some b.data)) none none) (some (i, key)) (some b.data) := by
    funext o
    rcases o with - | ⟨j, k⟩
    · simp [owner]
    · simp only [owner, entry_insertChunk]
      by_cases hjk : j = i ∧ k = key
      · obtain ⟨rfl, rfl⟩ := hjk
        simp
      · have hne : (some (j, k) : Option (Fin 32 × Key)) ≠ some (i, key) := by simpa using hjk
        simp [hjk, hne, owner]
  refine ⟨?_, fun j k b' hb' => ?_⟩
  · rw [howner]
    exact h.separated.move rfl (by simp [owner, hnone])
  · rw [entry_insertChunk] at hb'
    split_ifs at hb' with hjk
    · obtain rfl := Option.some.inj hb'
      exact hjk.2 ▸ hb
    · exact h.holds j k b' hb'

theorem Inv.put (h : Inv content c none) {p : Path} {start stop : ℤ} {d : Bytes} {responsive : Bool}
    (hlo : 0 ≤ start) (hle : start ≤ stop) (hhi : stop < (content p).length)
    (hd : d = byteRange (content p) start stop) :
    Inv content (c.put cfg hash p start stop d responsive) none := by
  obtain ⟨htake, hcells⟩ := h.takeBuffer d
  have hstored : Stable cfg fun c => Inv content c none := stable_inv none
  rw [put_eq]
  refine hstored.compact (hstored.evictLocal _ _ ?_) _
  unfold ReadAheadCache.stored
  generalize (c.takeBuffer d).1 = c₁ at htake hcells ⊢
  generalize (c.takeBuffer d).2 = a at htake hcells ⊢
  have hheld : Stable cfg fun c => Inv content c (some a) := stable_inv (some a)
  refine Inv.insertChunk (hheld.overwrite htake _ _) (entry_overwrite ..) ?_
  refine ⟨p, start.tdiv cfg.chunkSize, rfl, hlo, hle, hhi, ?_⟩
  rw [heap_overwrite]
  exact hcells.trans hd

variable (content) in
def TruePut : Op → Prop
  | .put p start stop d _ =>
      0 ≤ start ∧ start ≤ stop ∧ stop < (content p).length ∧ d = byteRange (content p) start stop
  | _ => True

theorem inv_step (c : ReadAheadCache) (op : Op) (h : Inv content c none) (hop : TruePut content op) :
    Inv content (c.step cfg hash op) none := by
  apply (stable_inv none).step h
  rintro p start stop d responsive rfl
  exact h.put hop.1 hop.2.1 hop.2.2.1 hop.2.2.2

theorem inv_new : Inv content new none := by
  have hnone : ∀ i k, new.entry i k = none := by simp [entry, new]
  refine ⟨⟨?_, by simp [new], ?_, ?_, by simp [new]⟩, by simp [hnone]⟩ <;>
    · rintro (- | ⟨i, k⟩) <;> simp [owner, hnone]

theorem Inv.holds_path (h : Inv content c held) {p : Path} {off : ℤ}
    (hb : c.entry i (raChunkKey cfg p off) = some b) :
    0 ≤ b.start ∧ b.start ≤ b.stop ∧ b.stop < (content p).length ∧
      c.bytes b = byteRange (content p) b.start b.stop := by
  obtain ⟨q, n, hkey, hlo, hle, hhi, hcells⟩ := h.holds i _ b hb
  have hsep : ∀ m : ℤ, (58 : UInt8) ∉ itoa m := fun m hm => absurd (le_of_mem_itoa hm) (by decide)
  obtain rfl := append_separator_inj (hsep _) (hsep n) hkey
  exact ⟨hlo, hle, hhi, hcells⟩

theorem Inv.find_one (h : Inv content c held) {p : Path} {off stop : ℤ}
    (hf : c.find cfg hash p off stop = some (b, none)) :
    0 ≤ off ∧ stop < (content p).length ∧
      ((c.bytes b).drop (off - b.start).toNat).take (stop - off + 1).toNat =
        byteRange (content p) off stop := by
  unfold find at hf
  dsimp only at hf
  split at hf
  · cases hf
  next b' hb' =>
  split_ifs at hf with hin hstop
  · obtain ⟨rfl, -⟩ := Prod.mk.inj (Option.some.inj hf)
    obtain ⟨hlo, -, hhi, hbytes⟩ := h.holds_path hb'
    refine ⟨by omega, by omega, ?_⟩
    rw [hbytes, byteRange_drop hlo hin.1, byteRange_take hstop]
  · split at hf
    · cases hf
    · split_ifs at hf
      simp at hf

theorem Inv.find_two (h : Inv content c held) {p : Path} {off stop : ℤ} {b2 : RaBuffer}
    (hf : c.find cfg hash p off stop = some (b, some b2)) :
    0 ≤ off ∧ stop < (content p).length ∧
      (c.bytes b).drop (off - b.start).toNat ++ (c.bytes b2).take (stop - b2.start + 1).toNat =
        byteRange (content p) off stop := by
  unfold find at hf
  dsimp only at hf
  split at hf
  · cases hf
  next b' hb' =>
  split_ifs at hf with hin hstop
  · simp at hf
  · split at hf
    · cases hf
    next b2' hb2' =>
    split_ifs at hf with hnext
    obtain ⟨rfl, hb2⟩ := Prod.mk.inj (Option.some.inj hf)
    obtain rfl := Option.some.inj hb2
    obtain ⟨hlo, -, -, hbytes⟩ := h.holds_path hb'
    obtain ⟨-, -, hhi, hbytes2⟩ := h.holds_path hb2'
    refine ⟨by omega, by omega, ?_⟩
    rw [hbytes, hbytes2, byteRange_drop hlo hin.1, byteRange_take hnext.2, hnext.1,
      byteRange_append (by omega) hin.2 (by omega)]

variable (cfg hash content) in
def GetsContent (c : ReadAheadCache) : Prop :=
  ∀ p off stop out, off ≤ stop → c.get cfg hash p off stop = some out →
    0 ≤ off ∧ stop < (content p).length ∧ out = byteRange (content p) off stop

variable (cfg hash content) in
def CopiesContent (c : ReadAheadCache) : Prop :=
  ∀ p off stop dest n dest', off ≤ stop → c.copyTo cfg hash p off stop dest = (n, dest') →
    n = 0 ∨ n = min dest.length (stop - off + 1).toNat ∧ 0 ≤ off ∧ stop < (content p).length ∧
      dest'.take n = byteRange (content p) off (off + n - 1)

theorem Inv.getsContent (h : Inv content c held) : GetsContent cfg hash content c := by
  intro p off stop out hle hget
  unfold ReadAheadCache.get at hget
  split at hget
  · cases hget
  · next b hf =>
    obtain ⟨hlo, hhi, hbytes⟩ := h.find_one hf
    exact ⟨hlo, hhi, (Option.some.inj hget).symm.trans hbytes⟩
  · next b b2 hf =>
    obtain ⟨hlo, hhi, hbytes⟩ := h.find_two hf
    refine ⟨hlo, hhi, ?_⟩
    rw [← Option.some.inj hget]
    refine (copyInto_append ..).trans ?_
    rw [hbytes]
    exact copyInto_of_length_eq (by simp [length_byteRange hlo hhi])

theorem Inv.copiesContent (h : Inv content c held) : CopiesContent cfg hash content c := by
  intro p off stop dest n dest' hle hcopy
  -- both ways of serving are one copy of the range asked for
  have hcopied : 0 ≤ off → stop < (content p).length →
      n = min dest.length (byteRange (content p) off stop).length →
      dest' = copyInto dest (byteRange (content p) off stop) →
      n = 0 ∨ n = min dest.length (stop - off + 1).toNat ∧ 0 ≤ off ∧
        stop < (content p).length ∧ dest'.take n = byteRange (content p) off (off + n - 1) := by
    intro hlo hhi hn hdest
    have hn' : n = min dest.length (stop - off + 1).toNat := by
      rw [hn, length_byteRange hlo hhi]
    refine .inr ⟨hn', hlo, hhi, ?_⟩
    have htake : n = (off + n - 1 - off + 1).toNat := by omega
    rw [hdest, hn, take_copyInto, ← hn]
    conv_lhs => rw [htake]
    exact byteRange_take (by omega)
  unfold ReadAheadCache.copyTo at hcopy
  split at hcopy
  · exact .inl (Prod.mk.inj hcopy).1.symm
  · next b hf =>
    obtain ⟨hlo, hhi, hbytes⟩ := h.find_one hf
    obtain ⟨hn, hdest⟩ := Prod.mk.inj hcopy
    rw [hbytes] at hn hdest
    exact hcopied hlo hhi hn.symm hdest.symm
  · next b b2 hf =>
    obtain ⟨hlo, hhi, hbytes⟩ := h.find_two hf
    obtain ⟨hn, hdest⟩ := Prod.mk.inj hcopy
    refine hcopied hlo hhi ?_ ?_
    · rw [← hn, ← hbytes, List.length_append]
      simp only [copyInto, List.length_append, List.length_take, List.length_drop]
      omega
    · rw [← hdest, ← hbytes]
      exact copyInto_append ..

/-- The cache only delivers true bytes. -/
theorem serves_content (cfg : Config) (hash : Path → ℕ) (content : Path → Bytes) (ops : List Op)
    (h : ∀ op ∈ ops, TruePut content op) :
    GetsContent cfg hash content (run (step cfg hash) new ops) ∧
      CopiesContent cfg hash content (run (step cfg hash) new ops) := by
  have hinv : Inv content (run (step cfg hash) new ops) none :=
    run_invariant inv_step ops inv_new h
  exact ⟨hinv.getsContent, hinv.copiesContent⟩

theorem serves_content_stitched :
    let content : Path → Bytes := fun _ => [0, 1, 2, 3, 4, 5, 6, 7, 8, 9]
    let cfg : Config := { readAheadBase := 4 }
    let ops : List Op := [.put [97] 1 4 [1, 2, 3, 4] true, .put [97] 1 4 [1, 2, 3, 4] true,
      .put [97] 5 8 [5, 6, 7, 8] true]
    (run (step cfg fun _ => 0) new ops).get cfg (fun _ => 0) [97] 3 6 = some [3, 4, 5, 6] ∧
      GetsContent cfg (fun _ => 0) content (run (step cfg fun _ => 0) new ops) := by
  intro content cfg ops
  refine ⟨by decide, (serves_content cfg (fun _ => 0) content ops ?_).1⟩
  simp [ops, TruePut, content, byteRange]

end ReadAheadCache

end GoStream.ReadAhead
