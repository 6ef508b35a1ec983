import GoStream.Foundations.Maps

/-!
# Maps with an order and a total
-/

namespace GoStream.Foundations

open scoped BigOperators

theorem sum_update {ι : Type*} [Fintype ι] [DecidableEq ι] (f : ι → ℤ) (i : ι) (x : ℤ) :
    ∑ j, Function.update f i x j = ∑ j, f j - f i + x := by
  rw [Finset.sum_update_of_mem (Finset.mem_univ i), Finset.sdiff_singleton_eq_erase,
    ← Finset.add_sum_erase Finset.univ f (Finset.mem_univ i)]
  ring

variable {κ ν : Type*}

def Dict.total (size : ν → ℤ) (d : Dict κ ν) : ℤ := (d.entries.map fun e => size e.2).sum

theorem Dict.total_empty (size : ν → ℤ) : Dict.total size (∅ : Dict κ ν) = 0 := rfl

theorem Dict.total_nonneg {size : ν → ℤ} (h : ∀ v, 0 ≤ size v) (d : Dict κ ν) :
    0 ≤ d.total size := by
  apply List.sum_nonneg
  intro x hx
  obtain ⟨e, -, rfl⟩ := List.mem_map.mp hx
  exact h e.2

variable [DecidableEq κ] {size : ν → ℤ} {d : Dict κ ν} {k : κ} {v w : ν}

theorem Dict.total_congr {size' : ν → ℤ}
    (h : ∀ k v, d.lookup k = some v → size v = size' v) : d.total size = d.total size' := by
  unfold Dict.total
  congr 1
  apply List.map_congr_left
  intro e he
  exact h e.1 e.2 (AList.mem_lookup_iff.mpr he)

theorem Dict.total_erase (h : d.lookup k = some v) :
    Dict.total size (AList.erase k d) = d.total size - size v := by
  have hmem : k ∈ d.entries.keys := AList.lookup_isSome.mp (by rw [h]; rfl)
  obtain ⟨v', l₁, l₂, -, hd, herase⟩ := List.exists_of_kerase hmem
  have hv : v' = v := by
    have hlookup : d.lookup k = some v' := by
      apply AList.mem_lookup_iff.mpr
      rw [hd]
      simp
    exact Option.some.inj (hlookup.symm.trans h)
  change ((List.kerase k d.entries).map fun e => size e.2).sum = _
  rw [herase, Dict.total, hd, hv]
  simp only [List.map_append, List.map_cons, List.sum_append, List.sum_cons]
  ring

theorem Dict.total_insert (d : Dict κ ν) (k : κ) (v : ν) :
    Dict.total size (AList.insert k v d) = size v + Dict.total size (AList.erase k d) := by
  simp only [Dict.total, AList.entries_insert, List.map_cons, List.sum_cons]
  rfl

theorem Dict.erase_of_lookup_eq_none (h : d.lookup k = none) : AList.erase k d = d := by
  apply AList.ext
  exact List.kerase_of_notMem_keys (AList.lookup_eq_none.mp h)

theorem Dict.total_le {size' : ν → ℤ} {d' : Dict κ ν} (hsize : ∀ v, 0 ≤ size v)
    (h : ∀ k v', d'.lookup k = some v' → ∃ v, d.lookup k = some v ∧ size' v' = size v) :
    d'.total size' ≤ d.total size := by
  induction d' using AList.insertRec generalizing d with
  | H0 => exact Dict.total_nonneg hsize d
  | IH k v' d' hk ih =>
    obtain ⟨v, hv, hsame⟩ := h k v' (AList.lookup_insert d')
    have hrest : Dict.total size' d' ≤ Dict.total size (AList.erase k d) := by
      apply ih
      intro a w hw
      have hne : a ≠ k := by
        rintro rfl
        exact hk (AList.lookup_isSome.mp (by rw [hw]; rfl))
      rw [AList.lookup_erase_ne hne]
      exact h a w ((AList.lookup_insert_ne hne).trans hw)
    rw [Dict.total_erase hv] at hrest
    rw [Dict.total_insert, Dict.erase_of_lookup_eq_none (AList.lookup_eq_none.mpr hk), hsame]
    omega

structure Balanced (size : ν → ℤ) (d : Dict κ ν) (order : List κ) (total : ℤ) : Prop where
  nodup : order.Nodup
  listed : ∀ k, k ∈ order ↔ k ∈ d
  total_eq : total = d.total size

namespace Balanced

variable {order : List κ} {total : ℤ}

omit [DecidableEq κ] in
theorem empty (size : ν → ℤ) : Balanced size (∅ : Dict κ ν) [] 0 :=
  ⟨List.nodup_nil, by simp, rfl⟩

theorem lookup_of_mem (h : Balanced size d order total) (hk : k ∈ order) :
    ∃ v, d.lookup k = some v :=
  Option.isSome_iff_exists.mp (AList.lookup_isSome.mpr ((h.listed k).mp hk))

theorem congr {size' : ν → ℤ} (h : Balanced size d order total)
    (hsize : ∀ k v, d.lookup k = some v → size v = size' v) : Balanced size' d order total :=
  ⟨h.nodup, h.listed, h.total_eq.trans (Dict.total_congr hsize)⟩

theorem erase [BEq κ] [LawfulBEq κ] (h : Balanced size d order total) (hk : d.lookup k = some v) :
    Balanced size (AList.erase k d) (order.erase k) (total - size v) where
  nodup := h.nodup.erase k
  listed := fun a => by rw [h.nodup.mem_erase_iff, AList.mem_erase, h.listed a]
  total_eq := by rw [Dict.total_erase hk, h.total_eq]

theorem insert (h : Balanced size d order total) (hk : d.lookup k = none) (v : ν) :
    Balanced size (AList.insert k v d) (order ++ [k]) (total + size v) where
  nodup := by
    have hnot : k ∉ order := fun hmem => AList.lookup_eq_none.mp hk ((h.listed k).mp hmem)
    refine List.nodup_append.mpr ⟨h.nodup, List.nodup_singleton k, ?_⟩
    rintro a ha b hb rfl
    exact hnot (List.mem_singleton.mp hb ▸ ha)
  listed := fun a => by
    rw [List.mem_append, List.mem_singleton, AList.mem_insert, h.listed a]
    exact or_comm
  total_eq := by
    rw [Dict.total_insert, Dict.erase_of_lookup_eq_none hk, h.total_eq, add_comm]

theorem replace (h : Balanced size d order total) (hk : d.lookup k = some v)
    (hsize : size w = size v) : Balanced size (AList.insert k w d) order total where
  nodup := h.nodup
  listed := fun a => by
    rw [AList.mem_insert, h.listed a]
    constructor
    · exact Or.inr
    · rintro (rfl | ha)
      · exact AList.lookup_isSome.mp (by rw [hk]; rfl)
      · exact ha
  total_eq := by
    rw [Dict.total_insert, Dict.total_erase hk, h.total_eq, hsize]
    ring

theorem eraseAll [BEq κ] [LawfulBEq κ] (h : Balanced size d order total) (keys : List κ)
    (hnodup : keys.Nodup) (hkeys : ∀ k ∈ keys, k ∈ d) :
    Balanced size (keys.foldl (fun d k => AList.erase k d) d)
      (order.filter fun k => !keys.contains k)
      (total - (keys.map fun k => ((d.lookup k).map size).getD 0).sum) := by
  induction keys generalizing d order total with
  | nil => simpa using h
  | cons k keys ih =>
    obtain ⟨hnot, hnodup⟩ := List.nodup_cons.mp hnodup
    obtain ⟨v, hv⟩ := Option.isSome_iff_exists.mp (AList.lookup_isSome.mpr (hkeys k (by simp)))
    have hne : ∀ a ∈ keys, a ≠ k := fun a ha heq => hnot (heq ▸ ha)
    have hrest := ih (h.erase hv) hnodup fun a ha =>
      AList.mem_erase.mpr ⟨hne a ha, hkeys a (by simp [ha])⟩
    have hsizes : (keys.map fun a => ((AList.lookup a (AList.erase k d)).map size).getD 0) =
        keys.map fun a => ((d.lookup a).map size).getD 0 := by
      apply List.map_congr_left
      intro a ha
      rw [AList.lookup_erase_ne (hne a ha)]
    have horder : (order.erase k).filter (fun a => !keys.contains a) =
        order.filter fun a => !(k :: keys).contains a := by
      rw [h.nodup.erase_eq_filter, List.filter_filter]
      apply List.filter_congr
      intro a _
      rw [List.contains_cons, Bool.not_or, Bool.and_comm]
      rfl
    rw [hsizes, horder] at hrest
    rw [List.foldl_cons, List.map_cons, List.sum_cons, hv, Option.map_some, Option.getD_some,
      ← sub_sub]
    exact hrest

omit [DecidableEq κ] in
theorem length_keys (h : Balanced size d order total) : d.keys.length = order.length := by
  apply List.Perm.length_eq
  rw [List.perm_ext_iff_of_nodup d.keys_nodup h.nodup]
  exact fun k => (AList.mem_keys.symm.trans (h.listed k).symm)

theorem total_singleton (h : Balanced size d [k] total) :
    ∃ v, d.lookup k = some v ∧ total = size v := by
  obtain ⟨v, hv⟩ := h.lookup_of_mem (List.mem_singleton_self k)
  refine ⟨v, hv, ?_⟩
  have hrest := h.erase hv
  rw [List.erase_cons_head] at hrest
  have hempty : AList.erase k d = ∅ := by
    apply AList.ext
    rw [AList.empty_entries]
    apply List.eq_nil_iff_forall_not_mem.mpr
    intro e he
    have hmem : e.1 ∈ AList.erase k d := List.mem_keys_of_mem he
    exact absurd ((hrest.listed e.1).mpr hmem) (by simp)
  have htotal := hrest.total_eq
  rw [hempty, Dict.total_empty] at htotal
  omega

end Balanced

end GoStream.Foundations
