import Mathlib.Data.List.Nodup
import Mathlib.Tactic

/-!
# Threads, and counting records
-/

namespace GoStream.Foundations

variable {τ κ : Type*}

/-- No two threads have the same key. -/
def Exclusive (key : τ → Option κ) (threads : List τ) : Prop := (threads.filterMap key).Nodup

namespace Exclusive

variable {key : τ → Option κ} {threads : List τ} {t : τ}

theorem nil : Exclusive key [] := List.nodup_nil

theorem sublist (h : Exclusive key threads) {l : List τ} (hl : l.Sublist threads) :
    Exclusive key l := List.Nodup.sublist (hl.filterMap key) h

theorem eraseIdx (h : Exclusive key threads) {i : ℕ} (ht : threads[i]? = some t) :
    Exclusive key (threads.eraseIdx i) ∧
      ∀ k, key t = some k → ∀ u ∈ threads.eraseIdx i, key u ≠ some k := by
  obtain ⟨hi, rfl⟩ := List.getElem?_eq_some_iff.mp ht
  have hnodup : ((threads[i] :: threads.eraseIdx i).filterMap key).Nodup :=
    ((List.getElem_cons_eraseIdx_perm hi).filterMap key).nodup_iff.mpr h
  constructor
  · exact hnodup.sublist ((List.sublist_cons_self _ _).filterMap key)
  · intro k hk u hu huk
    rw [List.filterMap_cons_some hk] at hnodup
    exact (List.nodup_cons.mp hnodup).1 (List.mem_filterMap.mpr ⟨u, hu, huk⟩)

theorem append (h : Exclusive key threads) {new : List τ} (hnew : Exclusive key new)
    (hfree : ∀ t ∈ new, ∀ k, key t = some k → ∀ u ∈ threads, key u ≠ some k) :
    Exclusive key (threads ++ new) := by
  unfold Exclusive
  rw [List.filterMap_append]
  refine List.Nodup.append h hnew ?_
  intro k hk hk'
  obtain ⟨u, hu, huk⟩ := List.mem_filterMap.mp hk
  obtain ⟨t, ht, htk⟩ := List.mem_filterMap.mp hk'
  exact hfree t ht k htk u hu huk

theorem of_key_eq_none {new : List τ} (hnone : ∀ t ∈ new, key t = none) : Exclusive key new := by
  have hnil : new.filterMap key = [] := List.filterMap_eq_nil_iff.mpr hnone
  rw [Exclusive, hnil]
  exact List.nodup_nil

theorem singleton (t : τ) : Exclusive key [t] := by
  unfold Exclusive
  cases hk : key t with
  | none => rw [List.filterMap_cons_none hk, List.filterMap_nil]; exact List.nodup_nil
  | some k => rw [List.filterMap_cons_some hk, List.filterMap_nil]; exact List.nodup_singleton k

end Exclusive

theorem filterMap_perm_eraseIdx {threads : List τ} {i : ℕ} {t : τ} (f : τ → Option κ)
    (ht : threads[i]? = some t) :
    (threads.filterMap f).Perm ((f t).toList ++ (threads.eraseIdx i).filterMap f) := by
  obtain ⟨hi, rfl⟩ := List.getElem?_eq_some_iff.mp ht
  have hperm := ((List.getElem_cons_eraseIdx_perm hi).filterMap f).symm
  rw [List.filterMap_cons] at hperm
  cases hf : f threads[i] with
  | none | some k => rwa [hf] at hperm

theorem filterMap_toList_append (f : τ → Option κ) (t : Option τ) (threads : List τ) :
    (t.toList ++ threads).filterMap f = (t.bind f).toList ++ threads.filterMap f := by
  cases t with
  | none => rfl
  | some t =>
    rw [Option.toList_some, List.singleton_append, List.filterMap_cons, Option.bind_some]
    cases f t <;> rfl

theorem ite_eq_toNat (b : Bool) : (if b = true then 1 else 0) = b.toNat := by
  cases b <;> rfl

theorem countP_set_add {α : Type*} {p : α → Bool} {l : List α} {i : ℕ} {x : α} (y : α)
    (hx : l[i]? = some x) :
    (l.set i y).countP p + (if p x then 1 else 0) = l.countP p + (if p y then 1 else 0) := by
  obtain ⟨hi, rfl⟩ := List.getElem?_eq_some_iff.mp hx
  rw [List.countP_set hi]
  have hpos : p l[i] = true → 0 < l.countP p := fun h =>
    List.countP_pos_iff.mpr ⟨l[i], List.getElem_mem hi, h⟩
  split_ifs with h₁ h₂ h₂
  · have := hpos h₁
    omega
  · have := hpos h₁
    omega
  · omega
  · omega

theorem mem_set_of_ne {α : Type*} {l : List α} {i : ℕ} {x y : α} (z : α) (hx : l[i]? = some x)
    (hy : y ∈ l) (hne : y ≠ x) : y ∈ l.set i z := by
  obtain ⟨j, hj⟩ := List.mem_iff_getElem?.mp hy
  refine List.mem_iff_getElem?.mpr ⟨j, ?_⟩
  rw [List.getElem?_set_ne, hj]
  rintro rfl
  exact hne (Option.some.inj (hj.symm.trans hx))

theorem mem_eraseIdx_of_ne {α : Type*} {l : List α} {i : ℕ} {x y : α} (hx : l[i]? = some x)
    (hy : y ∈ l) (hne : y ≠ x) : y ∈ l.eraseIdx i := by
  obtain ⟨hi, rfl⟩ := List.getElem?_eq_some_iff.mp hx
  have hmem := (List.getElem_cons_eraseIdx_perm hi).mem_iff.mpr hy
  exact (List.mem_cons.mp hmem).resolve_left hne

theorem countP_eraseIdx_add {α : Type*} {p : α → Bool} {l : List α} {i : ℕ} {x : α}
    (hx : l[i]? = some x) : (l.eraseIdx i).countP p + (if p x then 1 else 0) = l.countP p := by
  obtain ⟨hi, rfl⟩ := List.getElem?_eq_some_iff.mp hx
  rw [← (List.getElem_cons_eraseIdx_perm hi).countP_eq p, List.countP_cons]

end GoStream.Foundations
