import GoStream.ReadAhead.Budget

/-!
# Chunks that are there and bytes that can be read
-/

namespace GoStream.ReadAhead

open Foundations

namespace ReadAheadCache

variable {cfg : Config} {hash : Path → ℕ} {c : ReadAheadCache} {i : Fin 32} {k : Key}

variable (cfg hash) in
def Readable (c : ReadAheadCache) : Prop :=
  ∀ (p : Path) (off : ℕ),
    c.existsChunk cfg hash p off = true ↔ (c.get cfg hash p off off).isSome = true

def WholeChunk (cfg : Config) : Op → Prop
  | .put _ start stop _ _ =>
      start ≤ -cfg.chunkSize ∨
        start ≤ start.tdiv cfg.chunkSize * cfg.chunkSize ∧
          (start.tdiv cfg.chunkSize + 1) * cfg.chunkSize ≤ stop + 1
  | _ => True

theorem get_isSome_iff (c : ReadAheadCache) (p : Path) (off : ℤ) :
    (c.get cfg hash p off off).isSome = true ↔
      ∃ x, c.chunk (getShard hash p) (raChunkKey cfg p off) = some x ∧ x.1 ≤ off ∧ off ≤ x.2.1 := by
  unfold ReadAheadCache.get find chunk
  dsimp only
  cases hb : c.entry (getShard hash p) (raChunkKey cfg p off) with
  | none => simp
  | some b =>
    by_cases hin : off ≥ b.start ∧ off ≤ b.stop
    · simp only [hin, and_self, if_true]
      simpa [RaBuffer.chunk] using hin
    · simp only [hin, if_false]
      simpa [RaBuffer.chunk] using hin

theorem existsChunk_iff (c : ReadAheadCache) (p : Path) (off : ℤ) :
    c.existsChunk cfg hash p off = true ↔
      ∃ x, c.chunk (getShard hash p) (raChunkKey cfg p off) = some x := by
  unfold existsChunk chunk
  cases c.entry (getShard hash p) (raChunkKey cfg p off) <;> simp

theorem readable_iff : Readable cfg hash c ↔ ∀ (p : Path) (off : ℕ) (x : ℤ × ℤ × ℕ),
    c.chunk (getShard hash p) (raChunkKey cfg p off) = some x → x.1 ≤ off ∧ off ≤ x.2.1 := by
  constructor
  · intro h p off x hx
    obtain ⟨y, hy, hcovers⟩ := (get_isSome_iff c p off).mp
      ((h p off).mp ((existsChunk_iff c p off).mpr ⟨x, hx⟩))
    obtain rfl := Option.some.inj (hx.symm.trans hy)
    exact hcovers
  · intro h p off
    rw [existsChunk_iff, get_isSome_iff]
    constructor
    · rintro ⟨x, hx⟩
      exact ⟨x, hx, h p off x hx⟩
    · rintro ⟨x, hx, -⟩
      exact ⟨x, hx⟩

theorem Readable.retained {c' : ReadAheadCache} (h : Readable cfg hash c) (hc : Retains c c') :
    Readable cfg hash c' :=
  readable_iff.mpr fun p off x hx => readable_iff.mp h p off x (hc _ _ x hx)

theorem raChunkKey_inj {p q : Path} {off start : ℤ}
    (h : raChunkKey cfg p off = raChunkKey cfg q start) :
    p = q ∧ off.tdiv cfg.chunkSize = start.tdiv cfg.chunkSize := by
  have hsep : ∀ m : ℤ, (58 : UInt8) ∉ itoa m := fun m hm => absurd (le_of_mem_itoa hm) (by decide)
  have hp := append_separator_inj (hsep _) (hsep _) h
  subst hp
  exact ⟨rfl, itoa_injective (List.cons.inj (List.append_cancel_left h)).2⟩

theorem tdiv_neg_iff {start m : ℤ} (hm : 0 < m) : start.tdiv m < 0 ↔ start ≤ -m := by
  rcases lt_or_ge start 0 with hneg | hpos
  · obtain ⟨t, rfl⟩ : ∃ t, start = -t := ⟨-start, by ring⟩
    rw [Int.neg_tdiv, Int.tdiv_eq_ediv_of_nonneg (by omega), neg_lt_zero, neg_le_neg_iff,
      ← Int.add_one_le_iff, zero_add, Int.le_ediv_iff_mul_le hm, one_mul]
  · have hdiv := Int.tdiv_nonneg hpos hm.le
    omega

theorem wholeChunk_iff {p : Path} {start stop : ℤ} {d : Bytes} {responsive : Bool} :
    WholeChunk cfg (.put p start stop d responsive) ↔
      ∀ off : ℕ, (off : ℤ).tdiv cfg.chunkSize = start.tdiv cfg.chunkSize →
        start ≤ off ∧ off ≤ stop := by
  simp only [WholeChunk]
  have hm := cfg.chunkSize_pos
  rw [← tdiv_neg_iff hm]
  generalize cfg.chunkSize = m at hm ⊢
  generalize start.tdiv m = q
  rw [add_mul, one_mul]
  constructor
  · rintro hwhole off hoff
    rw [Int.tdiv_eq_ediv_of_nonneg (Int.natCast_nonneg off)] at hoff
    have hlo : q * m ≤ off := hoff ▸ Int.ediv_mul_le _ hm.ne'
    have hhi : (off : ℤ) < q * m + m := by
      rw [← hoff]
      have hlt := Int.lt_ediv_add_one_mul_self (off : ℤ) hm
      rwa [add_mul, one_mul] at hlt
    have hq : 0 ≤ q := hoff ▸ Int.ediv_nonneg (Int.natCast_nonneg off) hm.le
    omega
  · intro h
    by_cases hq : q < 0
    · exact .inl hq
    · right
      have hqm : 0 ≤ q * m := mul_nonneg (by omega) hm.le
      -- the first and the last byte of the chunk
      have hfirst := h (q * m).toNat (by
        rw [Int.toNat_of_nonneg hqm, Int.tdiv_eq_ediv_of_nonneg hqm, Int.mul_ediv_cancel _ hm.ne'])
      have hlast := h (q * m + (m - 1)).toNat (by
        rw [Int.toNat_of_nonneg (by omega), Int.tdiv_eq_ediv_of_nonneg (by omega), add_comm,
          Int.add_mul_ediv_right _ _ hm.ne', Int.ediv_eq_zero_of_lt (by omega) (by omega), zero_add])
      omega

theorem readable_step (c : ReadAheadCache) (op : Op)
    (h : Accounted c c.orders ∧ Readable cfg hash c) :
    (Accounted (c.step cfg hash op) (c.step cfg hash op).orders ∧
      Readable cfg hash (c.step cfg hash op)) ↔ WholeChunk cfg op := by
  rw [and_iff_right (accounted_step c op h.1)]
  by_cases hput : ∃ p start stop d responsive, op = .put p start stop d responsive
  · obtain ⟨p, start, stop, d, responsive, rfl⟩ := hput
    rw [wholeChunk_iff, readable_iff]
    constructor
    · intro hreadable off hoff
      refine hreadable p off (start, stop, (c.takeBuffer d).2) ?_
      rw [raChunkKey, hoff]
      exact chunk_put_self h.1
    · intro hwhole q off x hx
      rcases chunk_put_cases x hx with ⟨-, hkey, rfl⟩ | hold
      · exact hwhole off (raChunkKey_inj hkey).2
      · exact readable_iff.mp h.2 q off x hold
  · have hkeep : Readable cfg hash (c.step cfg hash op) := by
      refine h.2.retained ((stable_retains c).step (fun _ _ _ => id) op ?_)
      exact fun p start stop d responsive heq =>
        absurd ⟨p, start, stop, d, responsive, heq⟩ hput
    have hok : WholeChunk cfg op := by
      cases op with
      | put p start stop d responsive => exact absurd ⟨p, start, stop, d, responsive, rfl⟩ hput
      | _ => trivial
    exact iff_of_true hkeep hok

theorem readable_new : Readable cfg hash new :=
  readable_iff.mpr fun p off x hx => by simp [chunk, entry, new] at hx

/-- When what exists is readable. -/
theorem exists_iff_readable (cfg : Config) (hash : Path → ℕ) (ops : List Op) :
    (∀ pre, pre <+: ops → Readable cfg hash (run (step cfg hash) new pre)) ↔
      ∀ op ∈ ops, WholeChunk cfg op := by
  have hruns : (∀ pre, pre <+: ops → Accounted (run (step cfg hash) new pre) _ ∧
      Readable cfg hash (run (step cfg hash) new pre)) ↔
        Meets (fun _ op => WholeChunk cfg op) (step cfg hash) new ops :=
    good_iff_meets (fun c => Accounted c c.orders ∧ Readable cfg hash c) readable_step
      ⟨accounted_new, readable_new⟩ ops
  rw [meets_const] at hruns
  rw [← hruns]
  refine forall₂_congr fun pre _ => (and_iff_right ?_).symm
  exact run_keeps (fun c => Accounted c c.orders) accounted_step pre accounted_new

theorem exists_unreadable : ¬ ∀ (cfg : Config) (hash : Path → ℕ) (ops : List Op),
    ∀ pre, pre <+: ops → Readable cfg hash (run (step cfg hash) new pre) := by
  intro h
  have hreadable := h { readAheadBase := 4 } (fun _ => 0) [.put [97] 0 1 [1, 2] true] _
    (List.prefix_refl _) [97] 2
  exact absurd (hreadable.mp (by decide +kernel)) (by decide +kernel)

end ReadAheadCache

end GoStream.ReadAhead
