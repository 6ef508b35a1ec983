import GoStream.ReadAhead.Accounting

/-!
# The budget of the read-ahead cache
-/

namespace GoStream.ReadAhead

open Foundations

def RaBuffer.chunk (b : RaBuffer) : ℤ × ℤ × ℕ := (b.start, b.stop, b.data)

namespace ReadAheadCache

variable {cfg : Config} {hash : Path → ℕ} {c c' : ReadAheadCache} {i j : Fin 32} {key k : Key}
  {b : RaBuffer}

def chunk (c : ReadAheadCache) (i : Fin 32) (k : Key) : Option (ℤ × ℤ × ℕ) :=
  (c.entry i k).map RaBuffer.chunk

def Retains (c c' : ReadAheadCache) : Prop :=
  ∀ i k x, c'.chunk i k = some x → c.chunk i k = some x

theorem chunk_dropKey (c : ReadAheadCache) (i j : Fin 32) (key k : Key) :
    (c.dropKey cfg i key).chunk j k = if j = i ∧ k = key then none else c.chunk j k := by
  unfold chunk
  rw [entry_dropKey]
  split_ifs <;> rfl

theorem chunk_setOrder (c : ReadAheadCache) (i j : Fin 32) (order : List Key) (k : Key) :
    (c.setOrder i order).chunk j k = c.chunk j k := by
  unfold chunk
  rw [entry_setOrder]

theorem chunk_touchKey (c : ReadAheadCache) (i j : Fin 32) (key k : Key) :
    (c.touchKey i key).chunk j k = c.chunk j k := by
  unfold chunk
  rw [entry_touchKey]
  split_ifs with hjk
  · rw [hjk.1, hjk.2, Option.map_map]
    rfl
  · rfl

theorem stable_retains (c₀ : ReadAheadCache) : Stable cfg (Retains c₀) where
  dropKey := fun i key h j k x hx => by
    rw [chunk_dropKey] at hx
    split_ifs at hx
    exact h j k x hx
  setOrder := fun i order h j k x hx => h j k x ((chunk_setOrder ..).symm.trans hx)
  evictPathShard := fun path i h j k x hx => by
    obtain ⟨b, hb, rfl⟩ := Option.map_eq_some_iff.mp hx
    exact h j k _ (Option.map_eq_some_iff.mpr ⟨b, entry_of_evictPathShard hb, rfl⟩)
  touchKey := fun i key h j k x hx => h j k x ((chunk_touchKey ..).symm.trans hx)
  setContext := fun _ _ _ h => h

theorem stable_heap (H : Heap) : Stable cfg fun c => c.heap = H where
  dropKey := fun i key h => (heap_dropKey _ i key).trans h
  setOrder := fun _ _ h => h
  evictPathShard := fun path i h => (heap_evictPathShard _ path i).1.trans h
  touchKey := fun i key h => (heap_touchKey _ i key).1.trans h
  setContext := fun _ _ _ h => h

theorem chunk_evictLocal (i : Fin 32) (key : Key) : ∀ (l : List Key) {c : ReadAheadCache}, key ∉ l →
    (evictLocal cfg i (l ++ [key]) c).chunk i key = c.chunk i key
  | [], c, _ => chunk_setOrder c i i [key] key
  | v :: l, c, hnot => by
    obtain ⟨hne, hnot⟩ := not_or.mp (List.mem_cons.not.mp hnot)
    obtain ⟨w, rest, hw⟩ := List.exists_cons_of_ne_nil (List.append_ne_nil_of_right_ne_nil l
      (List.cons_ne_nil key []))
    rw [List.cons_append, hw]
    unfold ReadAheadCache.evictLocal
    split_ifs
    · rw [← hw, chunk_evictLocal i key l hnot, chunk_dropKey, if_neg]
      exact fun h => hne h.2
    · exact chunk_setOrder c i i _ key

theorem evictLocal_budget (i : Fin 32) : ∀ (l : List Key) {c : ReadAheadCache}, l ≠ [] →
    (evictLocal cfg i l c).used ≤ cfg.globalLimit ∨
      ∃ k, ((evictLocal cfg i l c).shards i).order = [k]
  | [k], c, _ => .inr ⟨k, by simp [ReadAheadCache.evictLocal, setOrder, setShard]⟩
  | v :: w :: rest, c, _ => by
    unfold ReadAheadCache.evictLocal
    split_ifs with hover
    · exact evictLocal_budget i (w :: rest) (List.cons_ne_nil w rest)
    · exact .inl (not_lt.mp hover)

theorem compact_of_order (h : (c.shards i).order = [k]) : c.compact i = c := by
  simp [ReadAheadCache.compact, h]

theorem used_compact (c : ReadAheadCache) (i : Fin 32) : (c.compact i).used = c.used := by
  unfold ReadAheadCache.compact
  dsimp only
  split_ifs <;> rfl

section Put

variable {p : Path} {start stop : ℤ} {d : Bytes} {responsive : Bool}

theorem chunk_takeBuffer (c : ReadAheadCache) (d : Bytes) : (c.takeBuffer d).1.chunk = c.chunk := by
  unfold ReadAheadCache.takeBuffer
  split
  · rfl
  · split_ifs <;> rfl

theorem chunk_stored (x : ℤ × ℤ × ℕ)
    (hx : (c.stored cfg hash p start stop d responsive).chunk i k = some x) :
    i = getShard hash p ∧ k = raChunkKey cfg p start ∧ x = (start, stop, (c.takeBuffer d).2) ∨
      c.chunk i k = some x := by
  unfold ReadAheadCache.stored chunk at hx
  rw [entry_insertChunk] at hx
  by_cases hik : i = getShard hash p ∧ k = raChunkKey cfg p start
  · rw [if_pos hik] at hx
    exact .inl ⟨hik.1, hik.2, (Option.some.inj hx).symm⟩
  · rw [if_neg hik] at hx
    have hover : Retains (c.takeBuffer d).1 ((c.takeBuffer d).1.overwrite cfg (getShard hash p)
        (raChunkKey cfg p start)) :=
      (stable_retains _).overwrite (fun _ _ _ => id) _ _
    exact .inr (chunk_takeBuffer c d ▸ hover i k x hx)

theorem order_stored (c : ReadAheadCache) (p : Path) (start stop : ℤ) (d : Bytes)
    (responsive : Bool) : ∃ l, ((c.stored cfg hash p start stop d responsive).shards
      (getShard hash p)).order = l ++ [raChunkKey cfg p start] := by
  refine ⟨(((c.takeBuffer d).1.overwrite cfg (getShard hash p) (raChunkKey cfg p start)).shards
    (getShard hash p)).order, ?_⟩
  simp [ReadAheadCache.stored, insertChunk, setShard]

theorem chunk_put_cases (x : ℤ × ℤ × ℕ)
    (hx : (c.put cfg hash p start stop d responsive).chunk i k = some x) :
    i = getShard hash p ∧ k = raChunkKey cfg p start ∧ x = (start, stop, (c.takeBuffer d).2) ∨
      c.chunk i k = some x := by
  have hstable : Stable cfg (Retains (c.stored cfg hash p start stop d responsive)) :=
    stable_retains _
  rw [put_eq] at hx
  exact chunk_stored x
    (hstable.compact (hstable.evictLocal _ _ fun _ _ _ => id) _ i k x hx)

theorem chunk_put_self (h : Accounted c c.orders) :
    (c.put cfg hash p start stop d responsive).chunk (getShard hash p) (raChunkKey cfg p start) =
      some (start, stop, (c.takeBuffer d).2) := by
  set i := getShard hash p
  set key := raChunkKey cfg p start
  set s := c.stored cfg hash p start stop d responsive with hs
  have haccounted : Accounted s s.orders := h.stored p start stop d responsive
  obtain ⟨l, hl⟩ : ∃ l, (s.shards i).order = l ++ [key] := order_stored ..
  have hnot : key ∉ l := by
    have hnodup := (haccounted.balanced i).nodup
    rw [orders, hl] at hnodup
    exact fun hmem => (List.nodup_append.mp hnodup).2.2 key hmem key (by simp) rfl
  have hself : s.chunk i key = some (start, stop, (c.takeBuffer d).2) := by
    rw [hs, chunk, ReadAheadCache.stored, entry_insertChunk, if_pos ⟨rfl, rfl⟩]
    rfl
  have hcompact : ∀ c' : ReadAheadCache, (c'.compact i).chunk i key = c'.chunk i key := by
    intro c'
    unfold ReadAheadCache.compact
    dsimp only
    split_ifs
    · exact chunk_setOrder ..
    · rfl
  rw [put_eq, hcompact, hl, chunk_evictLocal i key l hnot, hself]

theorem put_budget (c : ReadAheadCache) (p : Path) (start stop : ℤ) (d : Bytes)
    (responsive : Bool) : (c.put cfg hash p start stop d responsive).used ≤ cfg.globalLimit ∨
      ∃ k, ((c.put cfg hash p start stop d responsive).shards (getShard hash p)).order = [k] := by
  rw [put_eq]
  set i := getShard hash p
  set s := c.stored cfg hash p start stop d responsive
  obtain ⟨l, hl⟩ : ∃ l, (s.shards i).order = l ++ [raChunkKey cfg p start] := order_stored ..
  have hne : (s.shards i).order ≠ [] := by simp [hl]
  rcases evictLocal_budget i (s.shards i).order hne with hused | ⟨k, hk⟩
  · exact .inl ((used_compact _ i).trans_le hused)
  · exact .inr ⟨k, by rw [compact_of_order hk, hk]⟩

theorem heap_put (c : ReadAheadCache) (p : Path) (start stop : ℤ) (d : Bytes) (responsive : Bool) :
    (c.put cfg hash p start stop d responsive).heap = (c.takeBuffer d).1.heap := by
  have hheap : Stable cfg fun c' => c'.heap = (c.takeBuffer d).1.heap := stable_heap _
  rw [put_eq]
  refine hheap.compact (hheap.evictLocal _ _ ?_) _
  exact hheap.overwrite rfl _ _

end Put

section Bound

variable {M : ℕ}

def Op.AtMost (M : ℕ) : Op → Prop
  | .put _ _ _ d _ => d.length ≤ M
  | _ => True

instance (M : ℕ) (op : Op) : Decidable (op.AtMost M) :=
  match op with
  | .put .. => inferInstanceAs (Decidable (_ ≤ _))
  | .tick _ | .get .. | .copyTo .. | .evictPath _ | .switchContext _ | .triggerGlobalEviction .. =>
    inferInstanceAs (Decidable True)

structure WithinBudget (cfg : Config) (M : ℕ) (c : ReadAheadCache) : Prop where
  accounted : Accounted c c.orders
  small : ∀ i k b, c.entry i k = some b → size c.heap b ≤ M
  grown : ∃ base : Fin 32 → ℤ, (∀ i, 0 ≤ base i) ∧ ∑ i, base i ≤ cfg.globalLimit ∧
    ∀ i, (c.shards i).total ≤ base i + M

theorem WithinBudget.used_le (h : WithinBudget cfg M c) : c.used ≤ cfg.globalLimit + 32 * M := by
  obtain ⟨base, -, hbase, hgrown⟩ := h.grown
  calc c.used = ∑ i, (c.shards i).total := h.accounted.used
    _ ≤ ∑ i : Fin 32, (base i + M) := Finset.sum_le_sum fun i _ => hgrown i
    _ = ∑ i, base i + 32 * M := by simp [Finset.sum_add_distrib]
    _ ≤ cfg.globalLimit + 32 * M := by omega

theorem total_le_of_retained (h : Accounted c c.orders) (h' : Accounted c' c'.orders)
    (hchunk : ∀ k b', c'.entry i k = some b' →
      ∃ b, c.entry i k = some b ∧ size c'.heap b' = size c.heap b) :
    (c'.shards i).total ≤ (c.shards i).total := by
  rw [(h'.balanced i).total_eq, (h.balanced i).total_eq]
  exact Dict.total_le (size_nonneg c.heap) hchunk

theorem entry_of_chunk {b' : RaBuffer} (h : c.chunk i k = some b'.chunk) :
    ∃ b, c.entry i k = some b ∧ b.data = b'.data := by
  obtain ⟨b, hb, heq⟩ := Option.map_eq_some_iff.mp h
  exact ⟨b, hb, congrArg (fun x => x.2.2) heq⟩

theorem WithinBudget.retained (h : WithinBudget cfg M c) (h' : Accounted c' c'.orders)
    (hretains : Retains c c') (hheap : c'.heap = c.heap) : WithinBudget cfg M c' := by
  have hentry : ∀ i k b', c'.entry i k = some b' →
      ∃ b, c.entry i k = some b ∧ size c'.heap b' = size c.heap b := by
    intro i k b' hb'
    obtain ⟨b, hb, hdata⟩ := entry_of_chunk (hretains i k b'.chunk (by simp [chunk, hb']))
    exact ⟨b, hb, by rw [size, size, hheap, hdata]⟩
  refine ⟨h', fun i k b' hb' => ?_, ?_⟩
  · obtain ⟨b, hb, hsize⟩ := hentry i k b' hb'
    exact hsize.trans_le (h.small i k b hb)
  · obtain ⟨base, hnonneg, hbase, hgrown⟩ := h.grown
    exact ⟨base, hnonneg, hbase,
      fun i => (total_le_of_retained h.accounted h' (hentry i)).trans (hgrown i)⟩

theorem WithinBudget.put (h : WithinBudget cfg M c) (p : Path) (start stop : ℤ) {d : Bytes}
    (hd : d.length ≤ M) (responsive : Bool) :
    WithinBudget cfg M (c.put cfg hash p start stop d responsive) := by
  set c' := c.put cfg hash p start stop d responsive with hc'
  have h' : Accounted c' c'.orders := h.accounted.put p start stop d responsive
  have hheap : c'.heap = (c.takeBuffer d).1.heap := heap_put c p start stop d responsive
  -- the new chunk has the length of the data, every other one is as long as before
  have hentry : ∀ i k b', c'.entry i k = some b' → (i = getShard hash p ∧ size c'.heap b' ≤ M) ∨
      ∃ b, c.entry i k = some b ∧ size c'.heap b' = size c.heap b := by
    intro i k b' hb'
    rcases chunk_put_cases b'.chunk (by rw [← hc', chunk, hb']; rfl) with ⟨hi, -, hx⟩ | hx
    · have hdata : b'.data = (c.takeBuffer d).2 := congrArg (fun x => x.2.2) hx
      refine .inl ⟨hi, ?_⟩
      rw [size, hheap, hdata, length_cells_taken]
      exact_mod_cast hd
    · obtain ⟨b, hb, hdata⟩ := entry_of_chunk hx
      refine .inr ⟨b, hb, ?_⟩
      rw [size, size, hheap, ← hdata, length_cells_takeBuffer c d (h.accounted.inUse i k b hb)]
  have hsmall : ∀ i k b', c'.entry i k = some b' → size c'.heap b' ≤ M := by
    intro i k b' hb'
    rcases hentry i k b' hb' with ⟨-, hle⟩ | ⟨b, hb, hsize⟩
    · exact hle
    · exact hsize.trans_le (h.small i k b hb)
  refine ⟨h', hsmall, ?_⟩
  rcases put_budget c p start stop d responsive with hused | ⟨k, hk⟩
  · refine ⟨fun i => (c'.shards i).total, fun i => ?_, h'.used.symm.trans_le hused, fun i => ?_⟩
    · exact (Dict.total_nonneg (size_nonneg _) _).trans_eq (h'.balanced i).total_eq.symm
    · exact le_add_of_nonneg_right (Int.natCast_nonneg M)
  · obtain ⟨base, hnonneg, hbase, hgrown⟩ := h.grown
    refine ⟨base, hnonneg, hbase, fun i => ?_⟩
    by_cases hi : i = getShard hash p
    · have hone := h'.balanced i
      rw [orders, hi, hk, ← hi] at hone
      obtain ⟨b', hb', htotal⟩ := hone.total_singleton
      have hle := hsmall i k b' hb'
      have hpos := hnonneg i
      omega
    · refine (total_le_of_retained h.accounted h' fun k b' hb' => ?_).trans (hgrown i)
      exact (hentry i k b' hb').resolve_left fun hnew => hi hnew.1

theorem withinBudget_new (cfg : Config) (M : ℕ) : WithinBudget cfg M new where
  accounted := accounted_new
  small := by simp [entry, new]
  grown := ⟨fun _ => 0, fun _ => le_rfl, by simpa using cfg.globalLimit_nonneg,
    fun _ => by simp [new]⟩

theorem withinBudget_step (c : ReadAheadCache) (op : Op) (h : WithinBudget cfg M c)
    (hop : op.AtMost M) : WithinBudget cfg M (c.step cfg hash op) := by
  by_cases hput : ∃ p start stop d responsive, op = .put p start stop d responsive
  · obtain ⟨p, start, stop, d, responsive, rfl⟩ := hput
    exact h.put p start stop hop responsive
  · have hnot : ∀ p start stop d responsive, op ≠ .put p start stop d responsive :=
      fun p start stop d responsive heq => hput ⟨p, start, stop, d, responsive, heq⟩
    refine h.retained (accounted_step c op h.accounted) ?_ ?_
    · exact (stable_retains c).step (fun _ _ _ => id) op fun p start stop d responsive heq =>
        absurd heq (hnot p start stop d responsive)
    · exact (stable_heap c.heap).step rfl op fun p start stop d responsive heq =>
        absurd heq (hnot p start stop d responsive)

/-- How far the cache can exceed its budget. -/
theorem memory_bound (cfg : Config) (hash : Path → ℕ) (M : ℕ) (ops : List Op)
    (h : ∀ op ∈ ops, op.AtMost M) :
    (∀ pre p start stop d responsive, pre ++ [.put p start stop d responsive] <+: ops →
      let c := run (step cfg hash) new (pre ++ [.put p start stop d responsive])
      c.used ≤ cfg.globalLimit ∨ (c.shards (getShard hash p)).buffers.keys.length = 1) ∧
    ∀ pre, pre <+: ops → (run (step cfg hash) new pre).used ≤ cfg.globalLimit + 32 * M := by
  have hbudget : ∀ pre, pre <+: ops → WithinBudget cfg M (run (step cfg hash) new pre) :=
    fun pre hpre => run_invariant withinBudget_step pre (withinBudget_new cfg M) fun op hop =>
      h op (hpre.subset hop)
  refine ⟨fun pre p start stop d responsive hpre => ?_, fun pre hpre => (hbudget pre hpre).used_le⟩
  have hlast := hbudget _ hpre
  rw [run, List.foldl_append] at hlast ⊢
  rcases put_budget (run (step cfg hash) new pre) p start stop d responsive with hused | ⟨k, hk⟩
  · exact .inl hused
  · right
    rw [(hlast.accounted.balanced (getShard hash p)).length_keys]
    exact congrArg List.length hk

theorem memory_bound_two_paths :
    let cfg : Config := { readAheadBase := 4, readAheadBudget := 4 }
    let first : Op := .put [97] 0 3 [1, 2, 3, 4] true
    let second : Op := .put [98] 0 5 [1, 2, 3, 4, 5, 6] true
    let c := run (step cfg fun _ => 0) new ([first] ++ [second])
    c.used = 6 ∧ (c.used ≤ 4 ∨ (c.shards (getShard (fun _ => 0) [98])).buffers.keys.length = 1) ∧
      c.used ≤ 4 + 32 * 6 := by
  intro cfg first second c
  have h := memory_bound cfg (fun _ => 0) 6 ([first] ++ [second]) (by decide)
  refine ⟨by decide +kernel, h.1 [first] [98] 0 5 [1, 2, 3, 4, 5, 6] true (List.prefix_refl _), ?_⟩
  exact h.2 ([first] ++ [second]) (List.prefix_refl _)

end Bound

end ReadAheadCache

end GoStream.ReadAhead
