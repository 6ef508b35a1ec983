import Mathlib.Data.List.Basic
import Mathlib.Tactic

/-!
# Tables with uniqueness constraints
-/

namespace GoStream.Foundations

variable {ρ : Type*}

structure Table (ρ : Type*) (clash : ρ → ρ → Prop) where
  rows : List ρ
  unique : rows.Pairwise fun a b => ¬ clash a b

def Lasts (clash : ρ → ρ → Prop) (x : ρ) : List ρ → Prop
  | [] => False
  | r :: rs => (x = r ∧ ∀ s ∈ rs, ¬ clash x s) ∨ Lasts clash x rs

namespace Table

variable {clash : ρ → ρ → Prop}

def empty : Table ρ clash := ⟨[], .nil⟩

@[simp] theorem rows_empty : (empty : Table ρ clash).rows = [] := rfl

variable [DecidableRel clash]

def insertOrReplace (t : Table ρ clash) (r : ρ) : Table ρ clash where
  rows := t.rows.filter (fun x => ¬ clash x r) ++ [r]
  unique := by
    refine List.pairwise_append.mpr ⟨t.unique.filter _, List.pairwise_singleton _ _, ?_⟩
    intro a ha b hb
    rw [List.mem_singleton.mp hb]
    simpa using (List.mem_filter.mp ha).2

def insertAll (t : Table ρ clash) (rs : List ρ) : Table ρ clash := rs.foldl insertOrReplace t

theorem mem_insertOrReplace {t : Table ρ clash} {r x : ρ} :
    x ∈ (t.insertOrReplace r).rows ↔ (x ∈ t.rows ∧ ¬ clash x r) ∨ x = r := by
  simp [insertOrReplace]

@[simp] theorem insertAll_nil (t : Table ρ clash) : t.insertAll [] = t := rfl

@[simp] theorem insertAll_cons (t : Table ρ clash) (r : ρ) (rs : List ρ) :
    t.insertAll (r :: rs) = (t.insertOrReplace r).insertAll rs := rfl

theorem mem_insertAll {t : Table ρ clash} {rs : List ρ} {x : ρ} :
    x ∈ (t.insertAll rs).rows ↔ (x ∈ t.rows ∧ ∀ r ∈ rs, ¬ clash x r) ∨ Lasts clash x rs := by
  induction rs generalizing t with
  | nil => simp [Lasts]
  | cons r rs ih =>
    rw [insertAll_cons, ih, mem_insertOrReplace]
    simp only [Lasts, List.forall_mem_cons]
    tauto

def insert? (t : Table ρ clash) (r : ρ) : Option (Table ρ clash) :=
  if h : ∀ x ∈ t.rows, ¬ clash x r then
    some ⟨t.rows ++ [r], List.pairwise_append.mpr ⟨t.unique, List.pairwise_singleton _ _,
      fun a ha b hb => by rw [List.mem_singleton.mp hb]; exact h a ha⟩⟩
  else none

def insertAll? (t : Table ρ clash) (rs : List ρ) : Option (Table ρ clash) := rs.foldlM insert? t

omit [DecidableRel clash] in
theorem eq_of_clash (t : Table ρ clash) (hsymm : ∀ a b, clash a b → clash b a) {a b : ρ}
    (ha : a ∈ t.rows) (hb : b ∈ t.rows) (h : clash a b) : a = b := by
  by_contra hne
  have : Std.Symm fun a b => ¬ clash a b := ⟨fun x y hxy hyx => hxy (hsymm y x hyx)⟩
  exact t.unique.forall ha hb hne h

omit [DecidableRel clash] in
def deleteWhere (t : Table ρ clash) (p : ρ → Bool) : Table ρ clash :=
  ⟨t.rows.filter fun x => !p x, t.unique.filter _⟩

omit [DecidableRel clash] in
def mapRows (t : Table ρ clash) (f : ρ → ρ) (hf : ∀ a b, clash (f a) (f b) → clash a b) :
    Table ρ clash :=
  ⟨t.rows.map f, List.pairwise_map.mpr (t.unique.imp fun h hclash => h (hf _ _ hclash))⟩

theorem insertAll?_of_pairwise {t : Table ρ clash} {rs : List ρ}
    (h : (t.rows ++ rs).Pairwise fun a b => ¬ clash a b) :
    ∃ t', t.insertAll? rs = some t' ∧ t'.rows = t.rows ++ rs := by
  induction rs generalizing t with
  | nil => exact ⟨t, rfl, (List.append_nil _).symm⟩
  | cons r rs ih =>
    have hfree : ∀ x ∈ t.rows, ¬ clash x r :=
      fun x hx => (List.pairwise_append.mp h).2.2 x hx r (by simp)
    have hinsert : t.insert? r = some ⟨t.rows ++ [r], _⟩ := dif_pos hfree
    rw [List.append_cons] at h
    obtain ⟨t', ht', hrows⟩ := ih (t := ⟨t.rows ++ [r], (List.pairwise_append.mp h).1⟩) h
    refine ⟨t', ?_, hrows.trans (List.append_cons _ _ _).symm⟩
    rw [insertAll?, List.foldlM_cons, hinsert]
    exact ht'

theorem mem_of_mem_insertAll? {t t' : Table ρ clash} {rs : List ρ} {x : ρ}
    (h : t.insertAll? rs = some t') (hx : x ∈ t'.rows) : x ∈ t.rows ∨ x ∈ rs := by
  induction rs generalizing t with
  | nil =>
    obtain rfl := Option.some.inj h
    exact .inl hx
  | cons r rs ih =>
    obtain ⟨u, hu, hrest⟩ := Option.bind_eq_some_iff.mp h
    rcases ih hrest with hx | hx
    · unfold insert? at hu
      split_ifs at hu
      obtain rfl := Option.some.inj hu
      rcases List.mem_append.mp hx with hx | hx
      · exact .inl hx
      · exact .inr (List.mem_cons.mpr (.inl (List.mem_singleton.mp hx)))
    · exact .inr (List.mem_cons_of_mem _ hx)

end Table

theorem Lasts.mem {clash : ρ → ρ → Prop} {x : ρ} : ∀ {rs : List ρ}, Lasts clash x rs → x ∈ rs
  | _ :: _, .inl h => by simp [h.1]
  | _ :: _, .inr h => List.mem_cons_of_mem _ h.mem

theorem lasts_append {clash : ρ → ρ → Prop} {x : ρ} {ss : List ρ} (h : ∀ s ∈ ss, ¬ clash x s) :
    ∀ rs : List ρ, Lasts clash x (rs ++ x :: ss)
  | [] => .inl ⟨rfl, h⟩
  | _ :: rs => .inr (lasts_append h rs)

theorem lasts_of_pairwise {clash : ρ → ρ → Prop} {x : ρ} {rs : List ρ} (hx : x ∈ rs)
    (h : rs.Pairwise fun a b => a = x → ¬ clash x b) : Lasts clash x rs := by
  induction rs with
  | nil => cases hx
  | cons r rs ih =>
    obtain ⟨hr, hrs⟩ := List.pairwise_cons.mp h
    rcases List.mem_cons.mp hx with rfl | hx
    · exact .inl ⟨rfl, fun s hs => hr s hs rfl⟩
    · exact .inr (ih hx hrs)

theorem Lasts.map {τ : Type*} {clash : ρ → ρ → Prop} (f : τ → ρ) {x : τ} :
    ∀ {rs : List τ}, Lasts (fun a b => clash (f a) (f b)) x rs → Lasts clash (f x) (rs.map f)
  | _ :: _, .inl ⟨hx, h⟩ => by
    refine .inl ⟨congrArg f hx, fun s hs => ?_⟩
    obtain ⟨r, hr, rfl⟩ := List.mem_map.mp hs
    exact h r hr
  | _ :: _, .inr h => .inr (h.map f)

theorem Table.mem_of_mem_insertAll {clash : ρ → ρ → Prop} [DecidableRel clash] {rs : List ρ} {x : ρ}
    (h : x ∈ ((Table.empty : Table ρ clash).insertAll rs).rows) : x ∈ rs := by
  rcases Table.mem_insertAll.mp h with ⟨h, -⟩ | h
  · simp at h
  · exact h.mem

end GoStream.Foundations
