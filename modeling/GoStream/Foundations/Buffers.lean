import GoStream.Foundations.Disk

/-!
# Buffers that are recycled
-/

namespace GoStream.Foundations

structure Heap where
  cells : ℕ → Bytes
  next : ℕ

namespace Heap

def empty : Heap := ⟨fun _ => [], 0⟩

variable (H : Heap)

def alloc (b : Bytes) : Heap := ⟨Function.update H.cells H.next b, H.next + 1⟩

def store (a : ℕ) (b : Bytes) : Heap := { H with cells := Function.update H.cells a b }

end Heap

section Ownership

variable {ι : Type*}

structure Separated (H : Heap) (own : ι → Option ℕ) (pool : List ℕ) : Prop where
  ownLt : ∀ {i a}, own i = some a → a < H.next
  poolLt : ∀ {a}, a ∈ pool → a < H.next
  unique : ∀ {i j a}, own i = some a → own j = some a → i = j
  apart : ∀ {i a}, own i = some a → a ∉ pool
  nodup : pool.Nodup

variable {H : Heap} {own own' : ι → Option ℕ} {pool pool' : List ℕ} {i j : ι} {a : ℕ}

theorem Separated.mono (h : Separated H own pool)
    (hown : ∀ j b, own' j = some b → own j = some b) (hpool : pool'.Sublist pool) :
    Separated H own' pool' where
  ownLt := fun hj => h.ownLt (hown _ _ hj)
  poolLt := fun ha => h.poolLt (hpool.subset ha)
  unique := fun hi hj => h.unique (hown _ _ hi) (hown _ _ hj)
  apart := fun hi ha => h.apart (hown _ _ hi) (hpool.subset ha)
  nodup := h.nodup.sublist hpool

theorem Separated.store (h : Separated H own pool) (b : Bytes) :
    Separated (H.store a b) own pool :=
  ⟨h.ownLt, h.poolLt, h.unique, h.apart, h.nodup⟩

theorem Separated.cells_store (h : Separated H own pool) (hi : own i = some a) {b : ℕ}
    (hj : own j = some b) (hne : j ≠ i) (d : Bytes) : (H.store a d).cells b = H.cells b := by
  refine Function.update_of_ne ?_ _ _
  rintro rfl
  exact hne (h.unique hj hi)

theorem Separated.cells_alloc (h : Separated H own pool) (hj : own j = some a) (d : Bytes) :
    (H.alloc d).cells a = H.cells a :=
  Function.update_of_ne (h.ownLt hj).ne _ _

variable [DecidableEq ι]

theorem Separated.release (h : Separated H own pool) (hi : own i = some a) :
    Separated H (Function.update own i none) (pool ++ [a]) := by
  have hown : ∀ j b, Function.update own i none j = some b → own j = some b ∧ j ≠ i := by
    intro j b hj
    by_cases hji : j = i
    · subst hji
      simp at hj
    · exact ⟨by simpa [hji] using hj, hji⟩
  refine ⟨fun hj => h.ownLt (hown _ _ hj).1, ?_,
    fun hj hk => h.unique (hown _ _ hj).1 (hown _ _ hk).1, ?_, ?_⟩
  · intro b hb
    rcases List.mem_append.mp hb with hb | hb
    · exact h.poolLt hb
    · exact List.mem_singleton.mp hb ▸ h.ownLt hi
  · intro j b hj hb
    rcases List.mem_append.mp hb with hb | hb
    · exact h.apart (hown _ _ hj).1 hb
    · rw [List.mem_singleton.mp hb] at hj
      exact (hown _ _ hj).2 (h.unique (hown _ _ hj).1 hi)
  · refine List.nodup_append.mpr ⟨h.nodup, List.nodup_singleton a, ?_⟩
    rintro b hb c hc rfl
    exact h.apart hi (List.mem_singleton.mp hc ▸ hb)

theorem Separated.acquire (h : Separated H own pool) (hi : own i = none) (ha : a ∈ pool) :
    Separated H (Function.update own i (some a)) (pool.erase a) := by
  have hown : ∀ j b, Function.update own i (some a) j = some b →
      j = i ∧ b = a ∨ j ≠ i ∧ own j = some b := by
    intro j b hj
    by_cases hji : j = i
    · subst hji
      exact .inl ⟨rfl, by simpa using hj.symm⟩
    · exact .inr ⟨hji, by simpa [hji] using hj⟩
  refine ⟨?_, fun hb => h.poolLt (List.mem_of_mem_erase hb), ?_, ?_, h.nodup.erase a⟩
  · intro j b hj
    rcases hown j b hj with ⟨-, rfl⟩ | ⟨-, hj⟩
    · exact h.poolLt ha
    · exact h.ownLt hj
  · intro j k b hj hk
    rcases hown j b hj with ⟨rfl, rfl⟩ | ⟨-, hj'⟩ <;>
      rcases hown k _ hk with ⟨rfl, hb⟩ | ⟨-, hk'⟩
    · rfl
    · exact absurd ha (h.apart hk')
    · exact absurd (hb ▸ ha) (h.apart hj')
    · exact h.unique hj' hk'
  · intro j b hj hb
    rcases hown j b hj with ⟨-, rfl⟩ | ⟨-, hj⟩
    · exact absurd hb h.nodup.not_mem_erase
    · exact h.apart hj (List.mem_of_mem_erase hb)

theorem Separated.alloc (h : Separated H own pool) (hi : own i = none) (d : Bytes) :
    Separated (H.alloc d) (Function.update own i (some H.next)) pool := by
  have hown : ∀ j b, Function.update own i (some H.next) j = some b →
      j = i ∧ b = H.next ∨ own j = some b ∧ b < H.next := by
    intro j b hj
    by_cases hji : j = i
    · subst hji
      exact .inl ⟨rfl, by simpa using hj.symm⟩
    · have hj : own j = some b := by simpa [hji] using hj
      exact .inr ⟨hj, h.ownLt hj⟩
  refine ⟨?_, fun hb => Nat.lt_succ_of_lt (h.poolLt hb), ?_, ?_, h.nodup⟩
  · intro j b hj
    rcases hown j b hj with ⟨-, rfl⟩ | ⟨-, hlt⟩
    · exact Nat.lt_succ_self _
    · exact Nat.lt_succ_of_lt hlt
  · intro j k b hj hk
    rcases hown j b hj with ⟨rfl, rfl⟩ | ⟨hj', hlt⟩ <;>
      rcases hown k _ hk with ⟨rfl, hb⟩ | ⟨hk', hlt'⟩
    · rfl
    · exact absurd hlt' (lt_irrefl _)
    · exact absurd (hb ▸ hlt) (lt_irrefl _)
    · exact h.unique hj' hk'
  · intro j b hj hb
    rcases hown j b hj with ⟨-, rfl⟩ | ⟨hj, -⟩
    · exact absurd (h.poolLt hb) (lt_irrefl _)
    · exact h.apart hj hb

theorem Separated.move (h : Separated H own pool) (hi : own i = some a) (hj : own j = none) :
    Separated H (Function.update (Function.update own i none) j (some a)) pool := by
  have hij : i ≠ j := by
    rintro rfl
    simp [hj] at hi
  have hown : ∀ k b, Function.update (Function.update own i none) j (some a) k = some b →
      k = j ∧ b = a ∨ k ≠ i ∧ own k = some b := by
    intro k b hk
    by_cases hkj : k = j
    · subst hkj
      exact .inl ⟨rfl, by simpa using hk.symm⟩
    · by_cases hki : k = i
      · subst hki
        simp [hkj] at hk
      · exact .inr ⟨hki, by simpa [hkj, hki] using hk⟩
  refine ⟨?_, h.poolLt, ?_, ?_, h.nodup⟩
  · intro k b hk
    rcases hown k b hk with ⟨-, rfl⟩ | ⟨-, hk⟩
    · exact h.ownLt hi
    · exact h.ownLt hk
  · intro k l b hk hl
    rcases hown k b hk with ⟨rfl, rfl⟩ | ⟨hki, hk'⟩ <;>
      rcases hown l _ hl with ⟨rfl, hb⟩ | ⟨hli, hl'⟩
    · rfl
    · exact absurd (h.unique hl' hi) hli
    · exact absurd (h.unique (hb ▸ hk') hi) hki
    · exact h.unique hk' hl'
  · intro k b hk
    rcases hown k b hk with ⟨-, rfl⟩ | ⟨-, hk⟩
    · exact h.apart hi
    · exact h.apart hk

end Ownership

section Ranges

def copyInto (dst src : Bytes) : Bytes := src.take dst.length ++ dst.drop src.length

theorem copyInto_of_length_eq {dst src : Bytes} (h : dst.length = src.length) :
    copyInto dst src = src := by
  simp [copyInto, h, List.drop_of_length_le h.le]

theorem take_copyInto (dst src : Bytes) :
    (copyInto dst src).take (min dst.length src.length) = src.take (min dst.length src.length) := by
  unfold copyInto
  rw [List.take_append_of_le_length (by simp), List.take_take]
  congr 1
  omega

theorem copyInto_append (dst s t : Bytes) :
    (copyInto dst s).take (min dst.length s.length) ++
        copyInto ((copyInto dst s).drop (min dst.length s.length)) t =
      copyInto dst (s ++ t) := by
  rcases le_total dst.length s.length with h | h
  · rw [min_eq_left h]
    simp [copyInto, List.take_append_of_le_length h, List.drop_of_length_le h, h,
      List.drop_of_length_le (h.trans (Nat.le_add_right s.length t.length))]
  · rw [min_eq_right h]
    have hs : copyInto dst s = s ++ dst.drop s.length := by
      simp [copyInto, List.take_of_length_le h]
    rw [hs, List.take_left, List.drop_left]
    simp [copyInto, List.take_append, List.take_of_length_le h, List.drop_drop, List.length_drop]

def copyAt (buf : Bytes) (off : ℕ) (src : Bytes) : Bytes :=
  buf.take off ++ copyInto (buf.drop off) src

theorem length_copyAt (buf : Bytes) (off : ℕ) (src : Bytes) :
    (copyAt buf off src).length = buf.length := by
  simp only [copyAt, copyInto, List.length_append, List.length_take, List.length_drop]
  omega

theorem getElem?_copyAt {buf src : Bytes} {off : ℕ} (h : off + src.length ≤ buf.length) (o : ℕ) :
    (copyAt buf off src)[o]? =
      if off ≤ o ∧ o < off + src.length then src[o - off]? else buf[o]? := by
  have hcopy : copyAt buf off src = buf.take off ++ (src ++ buf.drop (off + src.length)) := by
    have hfit : src.length ≤ (buf.drop off).length := by
      rw [List.length_drop]
      omega
    rw [copyAt, copyInto, List.take_of_length_le hfit, List.drop_drop]
  have htake : (buf.take off).length = off := by
    rw [List.length_take]
    omega
  rw [hcopy]
  split_ifs with hin
  · rw [List.getElem?_append_right (by omega), htake, List.getElem?_append_left (by omega)]
  · rcases lt_or_ge o off with hlo | hlo
    · rw [List.getElem?_append_left (by omega), List.getElem?_take_of_lt hlo]
    · rw [List.getElem?_append_right (by omega), htake, List.getElem?_append_right (by omega),
        List.getElem?_drop]
      congr 1
      omega

def byteRange (bs : Bytes) (lo hi : ℤ) : Bytes := (bs.drop lo.toNat).take (hi - lo + 1).toNat

theorem length_byteRange {bs : Bytes} {lo hi : ℤ} (hlo : 0 ≤ lo) (hhi : hi < bs.length) :
    (byteRange bs lo hi).length = (hi - lo + 1).toNat := by
  simp only [byteRange, List.length_take, List.length_drop]
  omega

theorem byteRange_drop {bs : Bytes} {lo hi off : ℤ} (hlo : 0 ≤ lo) (hoff : lo ≤ off) :
    (byteRange bs lo hi).drop (off - lo).toNat = byteRange bs off hi := by
  simp only [byteRange, List.drop_take, List.drop_drop]
  have h1 : lo.toNat + (off - lo).toNat = off.toNat := by omega
  have h2 : (hi - lo + 1).toNat - (off - lo).toNat = (hi - off + 1).toNat := by omega
  rw [h1, h2]

theorem byteRange_take {bs : Bytes} {lo hi stop : ℤ} (hstop : stop ≤ hi) :
    (byteRange bs lo hi).take (stop - lo + 1).toNat = byteRange bs lo stop := by
  simp only [byteRange, List.take_take]
  have h : min (stop - lo + 1).toNat (hi - lo + 1).toNat = (stop - lo + 1).toNat := by omega
  rw [h]

theorem byteRange_append {bs : Bytes} {lo mid hi : ℤ} (hlo : 0 ≤ lo) (hmid : lo ≤ mid)
    (hhi : mid ≤ hi) :
    byteRange bs lo mid ++ byteRange bs (mid + 1) hi = byteRange bs lo hi := by
  have h1 : (hi - lo + 1).toNat = (mid - lo + 1).toNat + (hi - (mid + 1) + 1).toNat := by omega
  have h2 : (mid + 1).toNat = lo.toNat + (mid - lo + 1).toNat := by omega
  simp only [byteRange, h1, h2, List.take_add, List.drop_drop]

end Ranges

end GoStream.Foundations
