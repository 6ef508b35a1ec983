import GoStream.Foundations.Ledger
import GoStream.ReadAhead.Content

/-!
# The byte counts of the read-ahead cache
-/

namespace GoStream.ReadAhead

open Foundations

namespace ReadAheadCache

def size (H : Heap) (b : RaBuffer) : ℤ := (H.cells b.data).length

def orders (c : ReadAheadCache) : Fin 32 → List Key := fun i => (c.shards i).order

structure Accounted (c : ReadAheadCache) (order : Fin 32 → List Key) : Prop where
  inUse : ∀ i k b, c.entry i k = some b → b.data < c.heap.next
  pooled : ∀ a ∈ c.pool, a < c.heap.next
  balanced : ∀ i, Balanced (size c.heap) (c.shards i).buffers (order i) (c.shards i).total
  used : c.used = ∑ i, (c.shards i).total

variable {cfg : Config} {hash : Path → ℕ} {c c' : ReadAheadCache} {order : Fin 32 → List Key}
  {i j : Fin 32} {key k : Key} {b : RaBuffer} {l : List Key}

theorem size_nonneg (H : Heap) (b : RaBuffer) : 0 ≤ size H b := Int.natCast_nonneg _

@[simp] theorem orders_setOrder (c : ReadAheadCache) (i : Fin 32) (l : List Key) :
    (c.setOrder i l).orders = Function.update c.orders i l := by
  funext j
  by_cases h : j = i
  · subst h; simp [orders, setOrder, setShard]
  · simp [orders, setOrder, setShard, h]

theorem shards_setOrder (c : ReadAheadCache) (i j : Fin 32) (l : List Key) :
    ((c.setOrder i l).shards j).buffers = (c.shards j).buffers ∧
      ((c.setOrder i l).shards j).total = (c.shards j).total := by
  by_cases h : j = i
  · subst h; simp [setOrder, setShard]
  · simp [setOrder, setShard, h]

theorem Accounted.setOrder (h : Accounted c order) (i : Fin 32) (l : List Key) :
    Accounted (c.setOrder i l) order where
  inUse := fun j k b hb => h.inUse j k b ((entry_setOrder c i j l k).symm.trans hb)
  pooled := h.pooled
  balanced := fun j => by
    rw [(shards_setOrder c i j l).1, (shards_setOrder c i j l).2]
    exact h.balanced j
  used := by
    refine h.used.trans (Finset.sum_congr rfl fun j _ => ?_)
    rw [(shards_setOrder c i j l).2]

theorem Accounted.setShard (h : Accounted c order) (i : Fin 32) {s : RaShard} {used : ℤ}
    (hin : ∀ k b, s.buffers.lookup k = some b → b.data < c.heap.next)
    (hs : Balanced (size c.heap) s.buffers l s.total)
    (hused : used = c.used - (c.shards i).total + s.total) :
    Accounted { c.setShard i s with used := used } (Function.update order i l) where
  inUse := fun j k b hb => by
    replace hb := (entry_setShard c i j s k).symm.trans hb
    split_ifs at hb
    · exact hin k b hb
    · exact h.inUse j k b hb
  pooled := h.pooled
  balanced := fun j => by
    by_cases hj : j = i
    · subst hj
      simpa [ReadAheadCache.setShard] using hs
    · simpa [ReadAheadCache.setShard, hj] using h.balanced j
  used := by
    have htotals : (fun j => ((c.setShard i s).shards j).total) =
        Function.update (fun j => (c.shards j).total) i s.total := by
      funext j
      by_cases hj : j = i
      · subst hj; simp [ReadAheadCache.setShard]
      · simp [ReadAheadCache.setShard, hj]
    change used = ∑ j, (fun j => ((c.setShard i s).shards j).total) j
    rw [htotals, sum_update, ← h.used, hused]

theorem orders_setShard (c : ReadAheadCache) (i : Fin 32) (s : RaShard) (used : ℤ) :
    orders { c.setShard i s with used := used } = Function.update c.orders i s.order := by
  funext j
  by_cases h : j = i
  · subst h; simp [orders, ReadAheadCache.setShard]
  · simp [orders, ReadAheadCache.setShard, h]

theorem Accounted.recycle (h : Accounted c order) {a : ℕ} (ha : a < c.heap.next) :
    Accounted (c.recycle cfg a) order := by
  unfold ReadAheadCache.recycle
  split_ifs
  · refine ⟨h.inUse, fun x hx => ?_, h.balanced, h.used⟩
    rcases List.mem_append.mp hx with hx | hx
    · exact h.pooled x hx
    · exact List.mem_singleton.mp hx ▸ ha
  · exact h

theorem Accounted.dropKey (h : Accounted c order) (i : Fin 32) (key : Key) :
    Accounted (c.dropKey cfg i key) (Function.update order i ((order i).erase key)) := by
  unfold ReadAheadCache.dropKey
  split
  · next hnone =>
    have hnot : key ∉ order i := by
      intro hmem
      obtain ⟨b, hb⟩ := (h.balanced i).lookup_of_mem hmem
      exact absurd (hnone.symm.trans hb) (by simp)
    rwa [List.erase_of_not_mem hnot, Function.update_eq_self]
  · next old hold =>
    refine Accounted.recycle ?_ (h.inUse i key old hold)
    refine h.setShard i (fun k b hb => ?_) ((h.balanced i).erase hold) ?_
    · rw [Dict.lookup_erase] at hb
      split_ifs at hb
      exact h.inUse i k b hb
    · simp only [bytes]
      ring

theorem shards_recycle (c : ReadAheadCache) (a : ℕ) : (c.recycle cfg a).shards = c.shards := by
  unfold ReadAheadCache.recycle
  split_ifs <;> rfl

@[simp] theorem orders_dropKey (c : ReadAheadCache) (i : Fin 32) (key : Key) :
    (c.dropKey cfg i key).orders = c.orders := by
  unfold ReadAheadCache.dropKey
  split
  · rfl
  · funext j
    simp only [orders, shards_recycle]
    by_cases h : j = i
    · subst h; simp [ReadAheadCache.setShard]
    · simp [ReadAheadCache.setShard, h]

theorem Accounted.startLoop (h : Accounted c c.orders) :
    Accounted c (Function.update c.orders i (c.shards i).order) :=
  (Function.update_eq_self i c.orders).symm ▸ h

theorem Accounted.endLoop (h : Accounted c (Function.update c.orders i l)) :
    Accounted (c.setOrder i l) (c.setOrder i l).orders := by
  rw [orders_setOrder]
  exact h.setOrder i l

theorem Accounted.dropInLoop {l' : List Key} (h : Accounted c (Function.update c.orders i l))
    (hl : l.erase key = l') :
    Accounted (c.dropKey cfg i key) (Function.update (c.dropKey cfg i key).orders i l') := by
  have hdrop : Accounted (c.dropKey cfg i key) _ := h.dropKey i key
  rwa [Function.update_self, Function.update_idem, hl, ← orders_dropKey c i key] at hdrop

theorem Accounted.evictLocal : ∀ {l : List Key} {c : ReadAheadCache},
    Accounted c (Function.update c.orders i l) →
      Accounted (evictLocal cfg i l c) (evictLocal cfg i l c).orders
  | [], _, h => h.endLoop
  | [_], _, h => h.endLoop
  | v :: w :: rest, c, h => by
    unfold ReadAheadCache.evictLocal
    split_ifs
    · exact (h.dropInLoop (List.erase_cons_head _ _)).evictLocal
    · exact h.endLoop

theorem Accounted.compact (h : Accounted c c.orders) (i : Fin 32) :
    Accounted (c.compact i) (c.compact i).orders := by
  unfold ReadAheadCache.compact
  dsimp only
  split_ifs
  · have hall : ((c.shards i).order.filter fun key => ((c.shards i).buffers.lookup key).isSome) =
        c.orders i := by
      apply List.filter_eq_self.mpr
      intro key hkey
      obtain ⟨b, hb⟩ := (h.balanced i).lookup_of_mem hkey
      rw [hb]
      rfl
    rw [hall]
    exact h.startLoop.endLoop
  · exact h

theorem Accounted.evictStale (activePath : Path) (activeSessionID : ℤ) (i : Fin 32) :
    ∀ (keys newOrder : List Key) {c : ReadAheadCache},
      Accounted c (Function.update c.orders i (newOrder ++ keys)) →
        Accounted (evictStale cfg activePath activeSessionID i keys newOrder c)
          (evictStale cfg activePath activeSessionID i keys newOrder c).orders
  | [], newOrder, c, h => by
    rw [List.append_nil] at h
    exact h.endLoop
  | key :: rest, newOrder, c, h => by
    have hkept : Accounted c (Function.update c.orders i (newOrder ++ [key] ++ rest)) := by
      rwa [List.append_assoc, List.singleton_append]
    unfold ReadAheadCache.evictStale
    split
    · split_ifs
      · exact Accounted.evictStale activePath activeSessionID i rest _ hkept
      · refine Accounted.evictStale activePath activeSessionID i rest _ (h.dropInLoop ?_)
        have hnodup := (h.balanced i).nodup
        rw [Function.update_self] at hnodup
        have hnot : key ∉ newOrder := by
          intro hmem
          exact (List.nodup_append.mp hnodup).2.2 key hmem key (by simp) rfl
        rw [List.erase_append_right _ hnot, List.erase_cons_head]
    · exact Accounted.evictStale activePath activeSessionID i rest _ hkept

theorem Accounted.evictShard (h : Accounted c c.orders) (activePath : Path) (activeSessionID : ℤ)
    (i : Fin 32) : Accounted (evictShard cfg activePath activeSessionID c i)
      (evictShard cfg activePath activeSessionID c i).orders := by
  apply Accounted.evictStale
  rw [List.nil_append]
  exact h.startLoop

theorem Accounted.triggerGlobalEviction (h : Accounted c c.orders) (activePath : Path)
    (activeSessionID : ℤ) (skipped : Fin 32 → Bool) :
    Accounted (c.triggerGlobalEviction cfg activePath activeSessionID skipped)
      (c.triggerGlobalEviction cfg activePath activeSessionID skipped).orders := by
  unfold ReadAheadCache.triggerGlobalEviction
  split_ifs
  · exact h.evictShard activePath activeSessionID 0
  · generalize (List.finRange 32).filter _ = shards
    induction shards generalizing c with
    | nil => exact h
    | cons i shards ih => exact ih (h.evictShard activePath activeSessionID i)

theorem Accounted.evictPathShard (h : Accounted c c.orders) (path : Path) (i : Fin 32) :
    Accounted (c.evictPathShard path i) (c.evictPathShard path i).orders := by
  unfold ReadAheadCache.evictPathShard
  dsimp only
  split_ifs
  · exact h
  · set toDelete := (c.shards i).buffers.keys.filter fun key => (keyPrefix path).isPrefixOf key
    have hall := (h.balanced i).eraseAll toDelete ((c.shards i).buffers.keys_nodup.filter _)
      fun k hk => AList.mem_keys.mpr (List.mem_filter.mp hk).1
    have hfreed : (toDelete.map fun k => (((c.shards i).buffers.lookup k).map (size c.heap)).getD 0) =
        toDelete.map fun k => (((c.entry i k).map fun b => (c.bytes b).length).getD 0 : ℤ) := by
      apply List.map_congr_left
      intro k _
      unfold entry
      cases (c.shards i).buffers.lookup k <;> rfl
    rw [hfreed] at hall
    rw [orders_setShard]
    refine h.setShard i (fun k b hb => h.inUse i k b (lookup_foldl_erase toDelete _ hb)) hall ?_
    ring

theorem Accounted.evictPath (h : Accounted c c.orders) (path : Path) :
    Accounted (c.evictPath path) (c.evictPath path).orders := by
  unfold ReadAheadCache.evictPath
  generalize List.finRange 32 = shards
  induction shards generalizing c with
  | nil => exact h
  | cons i shards ih => exact ih (h.evictPathShard path i)

theorem Accounted.touchKey (h : Accounted c c.orders) (i : Fin 32) (key : Key) :
    Accounted (c.touchKey i key) (c.touchKey i key).orders := by
  unfold ReadAheadCache.touchKey
  split
  · exact h
  · next b hb =>
    have hset := h.setShard i (s := { c.shards i with
        buffers := (c.shards i).buffers.insert key { b with lastAccess := c.now } })
      (fun k b' hb' => ?_) ((h.balanced i).replace hb rfl) (sub_add_cancel c.used _).symm
    · exact (orders_setShard c i _ c.used).symm ▸ hset
    · rw [Dict.lookup_insert] at hb'
      split_ifs at hb'
      · obtain rfl := Option.some.inj hb'
        exact h.inUse i key b hb
      · exact h.inUse i k b' hb'

theorem Accounted.touch (h : Accounted c c.orders) (p : Path) (off stop : ℤ) :
    Accounted (c.touch cfg hash p off stop) (c.touch cfg hash p off stop).orders := by
  unfold ReadAheadCache.touch
  dsimp only
  split
  · exact h
  · split_ifs
    · split
      · exact (h.touchKey _ _).touchKey _ _
      · exact h.touchKey _ _
    · exact h

theorem Accounted.setHeap (h : Accounted c order) {pool : List ℕ} {H : Heap}
    (hpool : ∀ a ∈ pool, a < H.next) (hnext : c.heap.next ≤ H.next)
    (hcells : ∀ a < c.heap.next, (H.cells a).length = (c.heap.cells a).length) :
    Accounted { c with pool := pool, heap := H } order where
  inUse := fun i k b hb => (h.inUse i k b hb).trans_le hnext
  pooled := hpool
  balanced := fun i => (h.balanced i).congr fun k b hb => by
    rw [size, size, hcells _ (h.inUse i k b hb)]
  used := h.used

theorem length_cells_takeBuffer (c : ReadAheadCache) (d : Bytes) {a : ℕ} (ha : a < c.heap.next) :
    ((c.takeBuffer d).1.heap.cells a).length = (c.heap.cells a).length := by
  unfold ReadAheadCache.takeBuffer
  split
  · simp [Heap.alloc, ha.ne]
  · next x pool hpool =>
    split_ifs with hlen
    · by_cases hx : a = x
      · subst hx
        simp [Heap.store, copyInto_of_length_eq hlen, hlen]
      · simp [Heap.store, hx]
    · simp [Heap.alloc, ha.ne]

theorem length_cells_taken (c : ReadAheadCache) (d : Bytes) :
    ((c.takeBuffer d).1.heap.cells (c.takeBuffer d).2).length = d.length := by
  unfold ReadAheadCache.takeBuffer
  split
  · simp [Heap.alloc]
  · split_ifs with hlen
    · simp [Heap.store, copyInto_of_length_eq hlen]
    · simp [Heap.alloc]

theorem Accounted.takeBuffer (h : Accounted c order) (d : Bytes) :
    Accounted (c.takeBuffer d).1 order ∧ (c.takeBuffer d).2 < (c.takeBuffer d).1.heap.next := by
  have hlength : ∀ a < c.heap.next, _ := fun a ha => length_cells_takeBuffer c d ha
  unfold ReadAheadCache.takeBuffer at hlength ⊢
  split at hlength
  · have hpool : ∀ a ∈ c.pool, a < (c.heap.alloc d).next := fun a ha =>
      (h.pooled a ha).trans (Nat.lt_succ_self _)
    exact ⟨h.setHeap hpool (Nat.le_succ _) hlength, Nat.lt_succ_self _⟩
  · next x pool hpool =>
    have hmem : ∀ a ∈ pool, a < c.heap.next := fun a ha =>
      h.pooled a (hpool ▸ List.mem_cons_of_mem x ha)
    split_ifs at hlength ⊢ with hlen
    · exact ⟨h.setHeap hmem le_rfl hlength, h.pooled x (hpool ▸ List.mem_cons_self)⟩
    · exact ⟨h.setHeap (fun a ha => (hmem a ha).trans (Nat.lt_succ_self _)) (Nat.le_succ _) hlength,
        Nat.lt_succ_self _⟩

theorem Accounted.overwrite (h : Accounted c c.orders) (i : Fin 32) (key : Key) :
    Accounted (c.overwrite cfg i key) (c.overwrite cfg i key).orders := by
  unfold ReadAheadCache.overwrite
  split
  · exact h
  · apply Accounted.endLoop
    rw [orders_dropKey]
    exact h.dropKey i key

theorem Accounted.insertChunk (h : Accounted c c.orders) (hnone : c.entry i key = none)
    (hb : b.data < c.heap.next) :
    Accounted (c.insertChunk i key b) (c.insertChunk i key b).orders := by
  unfold ReadAheadCache.insertChunk
  rw [orders_setShard]
  refine h.setShard i (fun k b' hb' => ?_) ((h.balanced i).insert hnone b) ?_
  · rw [Dict.lookup_insert] at hb'
    split_ifs at hb'
    · exact Option.some.inj hb' ▸ hb
    · exact h.inUse i k b' hb'
  · simp only [bytes]
    ring

theorem Accounted.stored (h : Accounted c c.orders) (p : Path) (start stop : ℤ) (d : Bytes)
    (responsive : Bool) : Accounted (c.stored cfg hash p start stop d responsive)
      (c.stored cfg hash p start stop d responsive).orders := by
  obtain ⟨htake, hlt⟩ := h.takeBuffer d
  have horders : (c.takeBuffer d).1.orders = c.orders := by
    unfold ReadAheadCache.takeBuffer
    split
    · rfl
    · split_ifs <;> rfl
  rw [← horders] at htake
  rw [← heap_overwrite _ (getShard hash p) (raChunkKey cfg p start)] at hlt
  exact (htake.overwrite _ _).insertChunk (entry_overwrite ..) hlt

theorem Accounted.put (h : Accounted c c.orders) (p : Path) (start stop : ℤ) (d : Bytes)
    (responsive : Bool) : Accounted (c.put cfg hash p start stop d responsive)
      (c.put cfg hash p start stop d responsive).orders := by
  rw [put_eq]
  exact (h.stored p start stop d responsive).startLoop.evictLocal.compact _

theorem accounted_step (c : ReadAheadCache) (op : Op) (h : Accounted c c.orders) :
    Accounted (c.step cfg hash op) (c.step cfg hash op).orders := by
  cases op with
  | tick nanos => exact ⟨h.inUse, h.pooled, h.balanced, h.used⟩
  | put p start stop d responsive => exact h.put p start stop d responsive
  | get p off stop | copyTo p off stop => exact h.touch p off stop
  | evictPath p => exact h.evictPath p
  | switchContext p =>
    simp only [ReadAheadCache.step, switchContext]
    split_ifs
    · exact h
    · exact ⟨h.inUse, h.pooled, h.balanced, h.used⟩
  | triggerGlobalEviction activePath activeSessionID skipped =>
    exact h.triggerGlobalEviction activePath activeSessionID skipped

theorem accounted_new : Accounted new new.orders where
  inUse := by simp [entry, new]
  pooled := by simp [new]
  balanced := fun _ => Balanced.empty _
  used := by simp [new]

/-- The byte counts are right after any calls. -/
theorem counts_agree (cfg : Config) (hash : Path → ℕ) (ops : List Op) :
    let c := run (step cfg hash) new ops
    c.used = ∑ i, (c.shards i).total ∧
      ∑ i, (c.shards i).total = ∑ i, Dict.total (size c.heap) (c.shards i).buffers ∧
      ∀ i, (c.shards i).order.Nodup ∧ ∀ k, k ∈ (c.shards i).order ↔ k ∈ (c.shards i).buffers := by
  intro c
  have h : Accounted c c.orders :=
    run_keeps (fun c => Accounted c c.orders) accounted_step ops accounted_new
  exact ⟨h.used, Finset.sum_congr rfl fun i _ => (h.balanced i).total_eq,
    fun i => ⟨(h.balanced i).nodup, (h.balanced i).listed⟩⟩

end ReadAheadCache

end GoStream.ReadAhead
