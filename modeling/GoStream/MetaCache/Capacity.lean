import GoStream.MetaCache.Recency

/-!
# The capacity of a shard
-/

namespace GoStream.MetaCache

open Foundations

variable {ν : Type}

def InRange (capacity : Int64) : Op ν → Prop
  | .put _ _ size _ => 0 ≤ size ∧ size ≤ capacity
  | _ => True

instance (capacity : Int64) : ∀ op : Op ν, Decidable (InRange capacity op)
  | .put _ _ size _ => inferInstanceAs (Decidable (0 ≤ size ∧ size ≤ capacity))
  | .get _ _ | .delete _ | .cleanupExpired _ | .clear => .isTrue trivial

namespace SimpleLRU

def Room (c : SimpleLRU ν) : Op ν → Prop
  | .put key _ size _ =>
    match c.entry key with
    | some e => c.currentSize.toInt - e.size.toInt + size.toInt ≤ c.capacity.toInt
    | none => c.currentSize.toInt + size.toInt < 2 ^ 63
  | _ => True

instance (c : SimpleLRU ν) : ∀ op : Op ν, Decidable (c.Room op)
  | .put key _ size _ =>
    match h : c.entry key with
    | some e =>
      decidable_of_iff (c.currentSize.toInt - e.size.toInt + size.toInt ≤ c.capacity.toInt)
        (by simp only [Room, h])
    | none =>
      decidable_of_iff (c.currentSize.toInt + size.toInt < 2 ^ 63) (by simp only [Room, h])
  | .get _ _ | .delete _ | .cleanupExpired _ | .clear => .isTrue trivial

structure Within (capacity : Int64) (c : SimpleLRU ν) : Prop where
  capacity_eq : c.capacity = capacity
  entries : ∃ l, c.Represents l ∧ (∀ e ∈ l, 0 ≤ e.size) ∧ total l ≤ c.capacity.toInt

variable {c : SimpleLRU ν} {l : List (CacheEntry ν)}

theorem Represents.toInt_currentSize (h : c.Represents l) (hsizes : ∀ e ∈ l, 0 ≤ e.size)
    (hfits : total l ≤ c.capacity.toInt) : c.currentSize.toInt = total l := by
  rw [h.size, toInt_ofInt_of_lt (total_nonneg hsizes) (hfits.trans_lt c.capacity.toInt_lt)]

theorem Within.size_le {capacity : Int64} (h : Within capacity c) :
    0 ≤ c.currentSize ∧ c.currentSize ≤ c.capacity := by
  obtain ⟨l, hrep, hsizes, hfits⟩ := h.entries
  have hsum := hrep.toInt_currentSize hsizes hfits
  rw [Int64.le_iff_toInt_le, Int64.le_iff_toInt_le, hsum]
  exact ⟨total_nonneg hsizes, hfits⟩

theorem total_le_of_sublist {l' : List (CacheEntry ν)} (hsizes : ∀ e ∈ l, 0 ≤ e.size)
    (hsub : l'.Sublist l) : total l' ≤ total l := by
  refine (hsub.map _).sum_le_sum fun n hn => ?_
  obtain ⟨e, he, rfl⟩ := List.mem_map.mp hn
  exact Int64.le_iff_toInt_le.mp (hsizes e he)

theorem Within.of_sublist {capacity : Int64} (hcap : c.capacity = capacity)
    (hsizes : ∀ e ∈ l, 0 ≤ e.size) (hfits : total l ≤ capacity.toInt) {l' : List (CacheEntry ν)}
    (hsub : l'.Sublist l) (hrep : c.Represents l') : Within capacity c := by
  refine ⟨hcap, l', hrep, fun e he => hsizes e (hsub.subset he), ?_⟩
  rw [hcap]
  exact (total_le_of_sublist hsizes hsub).trans hfits

theorem Represents.put_known (h : c.Represents l) {key : Bytes} {e : CacheEntry ν}
    (he : c.entry key = some e) (value : ν) (size : Int64) (now : ℕ) :
    e ∈ l ∧ ∃ l', (c.put key value size now).Represents (⟨key, value, size, now + c.ttl⟩ :: l') ∧
      l'.Sublist l ∧ total l' = total l - e.size.toInt := by
  have hfind := h.find? key
  rw [he] at hfind
  obtain rfl : e.key = key := by simpa using List.find?_some hfind
  have hmem := List.mem_of_find?_eq_some hfind
  have hput := h.put e.key value size now
  rw [recencyAfter, hfind] at hput
  exact ⟨hmem, _, hput, without_sublist _ l, total_without h.nodup_keys hmem⟩

theorem Represents.put_unknown (h : c.Represents l) {key : Bytes} (hnew : c.entry key = none)
    (value : ν) (size : Int64) (now : ℕ) :
    (c.put key value size now).Represents
      (⟨key, value, size, now + c.ttl⟩ :: trim (Fits c.capacity size) l) := by
  have hput := h.put key value size now
  rwa [recencyAfter, h.find?, hnew] at hput

theorem Within.put {capacity : Int64} (h : Within capacity c) {key : Bytes} {value : ν}
    {size : Int64} {now : ℕ} (hrange : InRange capacity (Op.put key value size now))
    (hroom : c.Room (.put key value size now)) :
    Within capacity (c.put key value size now) := by
  obtain ⟨hcap, l, hrep, hsizes, hfits⟩ := h
  obtain ⟨hnonneg, hle⟩ := hrange
  have hsum := hrep.toInt_currentSize hsizes hfits
  have hlimit : (c.put key value size now).capacity = c.capacity :=
    (c.after_limits (.put key value size now)).1
  -- what stays of the entries fits together with the new one
  have hnew : ∀ {l'}, (c.put key value size now).Represents
      (⟨key, value, size, now + c.ttl⟩ :: l') → l'.Sublist l →
      size.toInt + total l' ≤ c.capacity.toInt → Within capacity (c.put key value size now) := by
    intro l' hput hsub hle
    refine ⟨hlimit.trans hcap, _, hput, ?_, ?_⟩
    · intro e he
      rcases List.mem_cons.mp he with rfl | he
      · exact hnonneg
      · exact hsizes e (hsub.subset he)
    · rw [hlimit, total_cons]
      exact hle
  cases hentry : c.entry key with
  | some e =>
    obtain ⟨-, l', hput, hsub, htotal⟩ := hrep.put_known hentry value size now
    simp only [Room, hentry] at hroom
    exact hnew hput hsub (by omega)
  | none =>
    simp only [Room, hentry] at hroom
    have hcut := shortestCut_trim (Fits c.capacity size) l
    refine hnew (hrep.put_unknown hentry value size now) hcut.initial.sublist ?_
    rcases hcut.fits_or_nil with hkept | hnil
    · have hle' := total_le_of_prefix hsizes hcut.initial
      have hkept' := (fits_iff (fun e he => hsizes e (hcut.initial.subset he)) hnonneg
        (by omega)).mp hkept
      omega
    · rw [hnil, total_nil, add_zero, hcap]
      exact Int64.le_iff_toInt_le.mp hle

theorem Within.after {capacity : Int64} (h : Within capacity c) {op : Op ν}
    (hrange : InRange capacity op) (hroom : c.Room op) : Within capacity (c.after op) := by
  have hlimit := (c.after_limits op).1
  obtain ⟨hcap, l, hrep, hsizes, hfits⟩ := h
  have hstay : ∀ {l'}, (c.after op).Represents l' → l'.Sublist l → Within capacity (c.after op) :=
    fun hrep' hsub => .of_sublist (hlimit.trans hcap) hsizes (hcap ▸ hfits) hsub hrep'
  cases op with
  | put key value size now => exact Within.put ⟨hcap, l, hrep, hsizes, hfits⟩ hrange hroom
  | get key now =>
    have hget := (hrep.get key now).1
    rw [recencyAfter] at hget
    cases hfind : l.find? fun e => e.key = key with
    | none =>
      rw [hfind] at hget
      exact hstay hget (List.Sublist.refl l)
    | some e =>
      obtain rfl : e.key = key := by simpa using List.find?_some hfind
      have hperm := perm_cons_without hrep.nodup_keys (List.mem_of_find?_eq_some hfind)
      rw [hfind] at hget
      simp only at hget
      split_ifs at hget with hexp
      · exact hstay hget (without_sublist _ l)
      · -- a promotion changes the order and nothing else
        refine ⟨hlimit.trans hcap, _, hget, ?_, ?_⟩
        · exact fun d hd => hsizes d (hperm.mem_iff.mpr hd)
        · rw [← total_perm hperm, hlimit]
          exact hfits
  | delete key => exact hstay (hrep.delete key) (without_sublist key l)
  | cleanupExpired now => exact hstay (hrep.cleanupExpired now) List.filter_sublist
  | clear => exact hstay represents_clear (List.nil_sublist l)

theorem toInt_ofInt_of_ge {n : ℤ} (hn : 2 ^ 63 ≤ n) (hlt : n < 2 ^ 64) :
    (Int64.ofInt n).toInt = n - 2 ^ 64 := by
  have hsize : Int64.size = 2 ^ 64 := rfl
  rw [Int64.toInt_ofInt, Int.bmod_def, hsize]
  split_ifs
  all_goals omega

theorem out_of_range {capacity : Int64} {n : ℤ} (hcap : 0 ≤ capacity.toInt)
    (hn : capacity.toInt < n) (hlt : n < 2 ^ 64) :
    ¬ (0 ≤ Int64.ofInt n ∧ Int64.ofInt n ≤ capacity) ∧
      (n < 2 ^ 63 → ¬ Int64.ofInt n ≤ capacity) := by
  have hexact : n < 2 ^ 63 → ¬ Int64.ofInt n ≤ capacity := by
    intro hsmall
    rw [Int64.le_iff_toInt_le, toInt_ofInt_of_lt (by omega) hsmall]
    omega
  refine ⟨fun ⟨hnonneg, hle⟩ => ?_, hexact⟩
  by_cases hsmall : n < 2 ^ 63
  · exact hexact hsmall hle
  · have hzero : (0 : Int64).toInt = 0 := rfl
    rw [Int64.le_iff_toInt_le, toInt_ofInt_of_ge (by omega) hlt] at hnonneg
    omega

theorem Within.beyond {capacity : Int64} (h : Within capacity c) {op : Op ν}
    (hrange : InRange capacity op) (hroom : ¬ c.Room op) :
    ¬ (0 ≤ (c.after op).currentSize ∧ (c.after op).currentSize ≤ (c.after op).capacity) ∧
      (capacity.toInt < 2 ^ 62 → ¬ (c.after op).currentSize ≤ (c.after op).capacity) := by
  obtain ⟨hcap, l, hrep, hsizes, hfits⟩ := h
  have htotal := total_nonneg hsizes
  have hsum := hrep.toInt_currentSize hsizes hfits
  rw [(c.after_limits op).1]
  cases op with
  | get key now | delete key | cleanupExpired now | clear => exact absurd trivial hroom
  | put key value size now =>
    have hsize : size.toInt < 2 ^ 63 := size.toInt_lt
    have hcapLt : c.capacity.toInt < 2 ^ 63 := c.capacity.toInt_lt
    have hle : size.toInt ≤ c.capacity.toInt := by
      rw [hcap]
      exact Int64.le_iff_toInt_le.mp hrange.2
    rw [SimpleLRU.after]
    cases hentry : c.entry key with
    | some e =>
      obtain ⟨hmem, l', hput, hsub, hrest⟩ := hrep.put_known hentry value size now
      have he : 0 ≤ e.size.toInt := Int64.le_iff_toInt_le.mp (hsizes e hmem)
      simp only [Room, hentry] at hroom
      have hbeyond : c.capacity.toInt < size.toInt + total l' := by omega
      obtain ⟨hbad, hexact⟩ := out_of_range (htotal.trans hfits) hbeyond (by omega)
      rw [hput.size, total_cons]
      exact ⟨hbad, fun hsmall => hexact (by rw [← hcap] at hsmall; omega)⟩
    | none =>
      simp only [Room, hentry] at hroom
      -- the loop sees a negative sum and drops nothing
      have hkeep : trim (Fits c.capacity size) l = l := by
        apply trim_of_fits
        rw [Fits, ← Int64.ofInt_toInt size, ← Int64.ofInt_add, Int64.le_iff_toInt_le,
          toInt_ofInt_of_ge (by omega) (by omega)]
        omega
      have hput := hrep.put_unknown hentry value size now
      rw [hkeep] at hput
      have hbeyond : c.capacity.toInt < size.toInt + total l := by omega
      obtain ⟨hbad, hexact⟩ := out_of_range (htotal.trans hfits) hbeyond (by omega)
      rw [hput.size, total_cons]
      exact ⟨hbad, fun hsmall => hexact (by rw [← hcap] at hsmall; omega)⟩

theorem within_new {capacity : Int64} {ttl : ℕ}
    (hcap : 0 ≤ (new capacity ttl : SimpleLRU ν).capacity) :
    Within (new capacity ttl : SimpleLRU ν).capacity (new capacity ttl : SimpleLRU ν) :=
  ⟨rfl, [], represents_new capacity ttl, fun _ he => absurd he List.not_mem_nil,
    Int64.le_iff_toInt_le.mp hcap⟩

theorem size_le_of_meets {capacity : Int64} (hc : Within capacity c) {ops : List (Op ν)}
    (hsizes : ∀ op ∈ ops, InRange capacity op) (hroom : Meets Room after c ops) :
    ∀ pre, pre <+: ops → 0 ≤ (run after c pre).currentSize ∧
      (run after c pre).currentSize ≤ (run after c pre).capacity := by
  have hkeep : ∀ (c : SimpleLRU ν) op, Within capacity c → InRange capacity op ∧ c.Room op →
      Within capacity (c.after op) := fun c op h hop => h.after hop.1 hop.2
  exact Meets.good hkeep (fun _ h => h.size_le) ops hc ((meets_and_const ops).mpr ⟨hsizes, hroom⟩)

theorem meets_of_shown {capacity : Int64} (good : SimpleLRU ν → Prop)
    (hshown : ∀ (c : SimpleLRU ν) op, Within capacity c → InRange capacity op → ¬ c.Room op →
      ¬ good (c.after op))
    (hc : Within capacity c) {ops : List (Op ν)} (hsizes : ∀ op ∈ ops, InRange capacity op)
    (hgood : ∀ pre, pre <+: ops → good (run after c pre)) : Meets Room after c ops := by
  have hkeep : ∀ (c : SimpleLRU ν) op, Within capacity c → InRange capacity op ∧ c.Room op →
      Within capacity (c.after op) := fun c op h hop => h.after hop.1 hop.2
  have hmeets : Meets (fun c op => InRange capacity op ∧ c.Room op) after c ops := by
    refine meets_of_good hkeep (fun c op h hop hnot => ?_) ops hc hsizes hgood
    exact hshown c op h hop fun hroom => hnot ⟨hop, hroom⟩
  exact ((meets_and_const ops).mp hmeets).2

/-- When the size of a shard stays within the capacity. -/
theorem within_capacity_iff (capacity : Int64) (ttl : ℕ) (ops : List (Op ν))
    (hsizes : ∀ op ∈ ops, InRange (new capacity ttl : SimpleLRU ν).capacity op) :
    ((∀ pre, pre <+: ops → 0 ≤ (run after (new capacity ttl) pre).currentSize ∧
        (run after (new capacity ttl) pre).currentSize ≤
          (run after (new capacity ttl) pre).capacity) ↔
      0 ≤ (new capacity ttl : SimpleLRU ν).capacity ∧ Meets Room after (new capacity ttl) ops) ∧
    ((new capacity ttl : SimpleLRU ν).capacity.toInt < 2 ^ 62 →
      ((∀ pre, pre <+: ops → (run after (new capacity ttl) pre).currentSize ≤
          (run after (new capacity ttl) pre).capacity) ↔
        0 ≤ (new capacity ttl : SimpleLRU ν).capacity ∧
          Meets Room after (new capacity ttl) ops)) := by
  refine ⟨⟨fun hgood => ?_, fun h => ?_⟩, fun hsmall => ⟨fun hgood => ?_, fun h => ?_⟩⟩
  · have hcap : 0 ≤ (new capacity ttl : SimpleLRU ν).capacity := (hgood [] List.nil_prefix).2
    refine ⟨hcap, meets_of_shown (fun c => 0 ≤ c.currentSize ∧ c.currentSize ≤ c.capacity)
      (fun c op hc hop hroom => ?_) (within_new hcap) hsizes hgood⟩
    exact (hc.beyond hop hroom).1
  · exact size_le_of_meets (within_new h.1) hsizes h.2
  · have hcap : 0 ≤ (new capacity ttl : SimpleLRU ν).capacity := hgood [] List.nil_prefix
    refine ⟨hcap, meets_of_shown (fun c => c.currentSize ≤ c.capacity)
      (fun c op hc hop hroom => ?_) (within_new hcap) hsizes hgood⟩
    exact (hc.beyond hop hroom).2 hsmall
  · exact fun pre hpre => (size_le_of_meets (within_new h.1) hsizes h.2 pre hpre).2

theorem within_capacity_iff_ten :
    0 ≤ (run after (new 10 60 : SimpleLRU ℕ)
      [.put [97] 1 4 0, .put [97] 2 6 1, .put [98] 3 5 2]).currentSize ∧
    (run after (new 10 60 : SimpleLRU ℕ)
      [.put [97] 1 4 0, .put [97] 2 6 1, .put [98] 3 5 2]).currentSize ≤ 10 :=
  (within_capacity_iff 10 60 [.put [97] 1 4 0, .put [97] 2 6 1, .put [98] 3 5 2]
    (by decide)).1.mpr ⟨by decide, by decide +kernel⟩ _ (List.prefix_refl _)

theorem replaced_beyond_capacity :
    (∀ op ∈ [Op.put [97] 1 6 0, .put [98] 2 4 1, .put [97] 3 10 2],
      InRange (new 10 60 : SimpleLRU ℕ).capacity op) ∧
    (run after (new 10 60 : SimpleLRU ℕ)
      [.put [97] 1 6 0, .put [98] 2 4 1, .put [97] 3 10 2]).currentSize = 14 ∧
    (run after (new 10 60 : SimpleLRU ℕ)
      [.put [97] 1 6 0, .put [98] 2 4 1, .put [97] 3 10 2]).capacity = 10 := by
  refine ⟨by decide, by decide +kernel, by decide +kernel⟩

end SimpleLRU

end GoStream.MetaCache
