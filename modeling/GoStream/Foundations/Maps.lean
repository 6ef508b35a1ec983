import GoStream.Foundations.Collections
import Mathlib.Data.List.AList
import Mathlib.Data.List.Sort

/-!
# Maps, and maps cut into shards
-/

namespace GoStream.Foundations

abbrev Dict (κ ν : Type*) := AList fun _ : κ => ν

namespace Dict

variable {κ ν : Type*}

def items (d : Dict κ ν) : List (κ × ν) := d.entries.map fun e => (e.1, e.2)

def mapValues {μ : Type*} (f : ν → μ) (d : Dict κ ν) : Dict κ μ where
  entries := d.entries.map fun e => ⟨e.1, f e.2⟩
  nodupKeys := by
    have h : (d.entries.map fun e => (⟨e.1, f e.2⟩ : (_ : κ) × μ)).keys = d.entries.keys := by
      simp [List.keys]
    rw [List.NodupKeys, h]
    exact d.nodupKeys

theorem items_keys (d : Dict κ ν) : d.items.map Prod.fst = d.keys := by
  simp [items, AList.keys, List.keys]

theorem nodup_keys_of_perm {d : Dict κ ν} {l : List (κ × ν)} (hl : l.Perm d.items) :
    (l.map Prod.fst).Nodup := by
  rw [(hl.map Prod.fst).nodup_iff, items_keys]
  exact d.keys_nodup

theorem nodup_items (d : Dict κ ν) : d.items.Nodup :=
  List.Nodup.of_map Prod.fst (nodup_keys_of_perm (List.Perm.refl _))

theorem mem_keys_of_mem_items {d : Dict κ ν} {x : κ × ν} (h : x ∈ d.items) : x.1 ∈ d.keys := by
  rw [← items_keys]
  exact List.mem_map_of_mem h

section Order

variable {ω : Type*} [LinearOrder ω] (rank : κ → ω)

def inOrder (d : Dict κ ν) : List (κ × ν) := d.items.insertionSort fun x y => rank x.1 ≤ rank y.1

theorem inOrder_perm (d : Dict κ ν) : (d.inOrder rank).Perm d.items := List.perm_insertionSort _ _

theorem inOrder_pairwise {rank : κ → ω} (hrank : Function.Injective rank) (d : Dict κ ν) :
    (d.inOrder rank).Pairwise fun x y => rank x.1 < rank y.1 := by
  have : Std.Total fun x y : κ × ν => rank x.1 ≤ rank y.1 :=
    ⟨fun x y => le_total (rank x.1) (rank y.1)⟩
  have : IsTrans (κ × ν) fun x y => rank x.1 ≤ rank y.1 := ⟨fun _ _ _ => le_trans⟩
  have hsorted : (d.inOrder rank).Pairwise fun x y => rank x.1 ≤ rank y.1 :=
    List.pairwise_insertionSort _ _
  have hnodup : (d.inOrder rank).Pairwise fun x y => x.1 ≠ y.1 :=
    List.pairwise_map.mp (nodup_keys_of_perm (inOrder_perm rank d))
  exact (hsorted.and hnodup).imp fun h => lt_of_le_of_ne h.1 fun heq => h.2 (hrank heq)

end Order

variable [DecidableEq κ]

theorem mem_items {d : Dict κ ν} {k : κ} {v : ν} : (k, v) ∈ d.items ↔ d.lookup k = some v := by
  rw [← Option.mem_def, AList.mem_lookup_iff, items, List.mem_map]
  constructor
  · rintro ⟨⟨k', v'⟩, hmem, heq⟩
    obtain ⟨rfl, rfl⟩ := Prod.mk.inj heq
    exact hmem
  · intro hmem
    exact ⟨⟨k, v⟩, hmem, rfl⟩

theorem mem_inOrder {ω : Type*} [LinearOrder ω] {rank : κ → ω} {d : Dict κ ν} {x : κ × ν} :
    x ∈ d.inOrder rank ↔ d.lookup x.1 = some x.2 :=
  (inOrder_perm rank d).mem_iff.trans mem_items

theorem eq_of_mem_items {d : Dict κ ν} {x y : κ × ν} (hx : x ∈ d.items) (hy : y ∈ d.items)
    (h : x.1 = y.1) : x = y := by
  have hlookup := mem_items.mp hx
  rw [h, mem_items.mp hy] at hlookup
  exact Prod.ext h (Option.some.inj hlookup).symm

theorem lookup_mapValues {μ : Type*} (f : ν → μ) (d : Dict κ ν) (k : κ) :
    (d.mapValues f).lookup k = (d.lookup k).map f := by
  have hitems : (d.mapValues f).items = d.items.map fun x => (x.1, f x.2) := by
    simp [items, mapValues]
  ext v
  rw [← mem_items, hitems, List.mem_map, Option.map_eq_some_iff]
  constructor
  · rintro ⟨x, hx, heq⟩
    obtain ⟨rfl, rfl⟩ := Prod.mk.inj heq
    exact ⟨x.2, mem_items.mp hx, rfl⟩
  · rintro ⟨w, hw, rfl⟩
    exact ⟨(k, w), mem_items.mpr hw, rfl⟩

theorem lookup_map_eq_iff {μ : Type*} (f g : κ → ν → μ) (d : Dict κ ν) :
    (∀ k, (d.lookup k).map (f k) = (d.lookup k).map (g k)) ↔
      ∀ x ∈ d.items, f x.1 x.2 = g x.1 x.2 := by
  constructor
  · intro h x hx
    have hentry := h x.1
    rw [mem_items.mp hx] at hentry
    exact Option.some.inj hentry
  · intro h k
    cases hk : d.lookup k with
    | none => rfl
    | some v => exact congrArg some (h (k, v) (mem_items.mpr hk))

theorem lookup_insert (d : Dict κ ν) (a k : κ) (v : ν) :
    AList.lookup k (AList.insert a v d) = if k = a then some v else d.lookup k := by
  by_cases h : k = a
  · subst h; simp
  · simp [h]

theorem lookup_singleton (a k : κ) (v : ν) :
    AList.lookup k (AList.singleton a v : Dict κ ν) = if k = a then some v else none := by
  rw [← AList.insert_empty, lookup_insert, AList.lookup_empty]

theorem lookup_erase (d : Dict κ ν) (a k : κ) :
    AList.lookup k (AList.erase a d) = if k = a then none else d.lookup k := by
  by_cases h : k = a
  · subst h; simp
  · simp [h]

theorem lookup_foldl_erase {μ : Type*} (keep : κ → Bool) (l : List (κ × μ)) (d : Dict κ ν) (k : κ) :
    AList.lookup k (l.foldl (fun d x => if keep x.1 then d else AList.erase x.1 d) d) =
      if keep k = false ∧ (l.any fun x => x.1 = k) = true then none else d.lookup k := by
  induction l generalizing d with
  | nil => simp
  | cons x l ih =>
    rw [List.foldl_cons, ih, List.any_cons]
    by_cases hk : x.1 = k
    · subst hk
      cases hkeep : keep x.1 <;> simp
    · have hk' : k ≠ x.1 := Ne.symm hk
      rw [decide_eq_false hk, Bool.false_or]
      cases keep x.1 <;> simp [hk']

def ofEntries? (l : List (κ × Option ν)) : Option (Dict κ ν) :=
  l.foldlM (fun d x => x.2.map fun v => AList.insert x.1 v d) ∅

theorem ofEntries?_append_singleton (l : List (κ × Option ν)) (x : κ × Option ν) :
    ofEntries? (l ++ [x]) =
      (ofEntries? l).bind fun d => x.2.map fun v => AList.insert x.1 v d := by
  simp only [ofEntries?, List.foldlM_append, List.foldlM_cons, List.foldlM_nil, bind_pure]
  rfl

theorem exists_of_lookup_ofEntries? {l : List (κ × Option ν)} {d : Dict κ ν} {k : κ} {v : ν}
    (h : ofEntries? l = some d) (hk : d.lookup k = some v) : (k, some v) ∈ l := by
  induction l using List.reverseRecOn generalizing d with
  | nil =>
    obtain rfl := Option.some.inj h
    simp at hk
  | append_singleton l x ih =>
    rw [ofEntries?_append_singleton, Option.bind_eq_some_iff] at h
    obtain ⟨d', hd', hx⟩ := h
    obtain ⟨w, hw, rfl⟩ := Option.map_eq_some_iff.mp hx
    rw [lookup_insert] at hk
    split_ifs at hk with hkey
    · apply List.mem_append_right
      rw [hkey, ← Option.some.inj hk, ← hw]
      exact List.mem_singleton_self x
    · exact List.mem_append_left _ (ih hd' hk)

theorem ofEntries?_isSome {l : List (κ × Option ν)} :
    (ofEntries? l).isSome = true ↔ ∀ x ∈ l, x.2.isSome = true := by
  induction l using List.reverseRecOn with
  | nil => simp [ofEntries?]
  | append_singleton l x ih =>
    rw [ofEntries?_append_singleton, List.forall_mem_append, ← ih]
    cases ofEntries? l with
    | none | some d => simp

theorem lookup_ofEntries? {l : List (κ × Option ν)} {d : Dict κ ν} {k : κ} {v : ν}
    (h : ofEntries? l = some d) (hnodup : (l.map Prod.fst).Nodup) (hmem : (k, some v) ∈ l) :
    d.lookup k = some v := by
  induction l using List.reverseRecOn generalizing d with
  | nil => cases hmem
  | append_singleton l x ih =>
    rw [ofEntries?_append_singleton, Option.bind_eq_some_iff] at h
    obtain ⟨d', hd', hx⟩ := h
    obtain ⟨w, hw, rfl⟩ := Option.map_eq_some_iff.mp hx
    rw [List.map_append, List.nodup_append] at hnodup
    rw [lookup_insert]
    rcases List.mem_append.mp hmem with hl | hlast
    · have hne : k ≠ x.1 := hnodup.2.2 k (List.mem_map_of_mem hl) x.1 (by simp)
      rw [if_neg hne]
      exact ih hd' hnodup.1 hl
    · obtain rfl := List.mem_singleton.mp hlast
      rw [if_pos rfl]
      exact hw.symm

theorem lookup_ofEntries?_iff {l : List (κ × Option ν)} {d : Dict κ ν} {k : κ} {v : ν}
    (h : ofEntries? l = some d) (hnodup : (l.map Prod.fst).Nodup) :
    d.lookup k = some v ↔ (k, some v) ∈ l :=
  ⟨exists_of_lookup_ofEntries? h, lookup_ofEntries? h hnodup⟩

theorem exists_ofEntries?_eq {μ : Type*} (g : κ → μ → ν) (d : Dict κ μ) {l : List (κ × μ)}
    (hl : l.Perm d.items) :
    ∃ d', ofEntries? (l.map fun x => (x.1, some (g x.1 x.2))) = some d' ∧
      ∀ k, d'.lookup k = (d.lookup k).map (g k) := by
  have hnodup : ((l.map fun x => (x.1, some (g x.1 x.2))).map Prod.fst).Nodup := by
    rw [List.map_map]
    exact nodup_keys_of_perm hl
  have hsome : (ofEntries? (l.map fun x => (x.1, some (g x.1 x.2)))).isSome = true := by
    rw [ofEntries?_isSome, List.forall_mem_map]
    exact fun _ _ => rfl
  obtain ⟨d', hd'⟩ := Option.isSome_iff_exists.mp hsome
  refine ⟨d', hd', fun k => ?_⟩
  ext v
  rw [lookup_ofEntries?_iff hd' hnodup, Option.map_eq_some_iff, List.mem_map]
  constructor
  · rintro ⟨y, hy, heq⟩
    obtain ⟨rfl, hval⟩ := Prod.mk.inj heq
    exact ⟨y.2, mem_items.mp (hl.mem_iff.mp hy), Option.some.inj hval⟩
  · rintro ⟨m, hm, rfl⟩
    exact ⟨(k, m), hl.mem_iff.mpr (mem_items.mpr hm), rfl⟩

theorem lookup_ofEntries?_map_iff {μ : Type*} {f : κ → κ} (hf : ∀ k, f (f k) = f k)
    (g : κ × μ → Option ν) (want : κ → μ → ν) (d : Dict κ μ) {l : List (κ × μ)}
    (hl : l.Perm d.items) :
    (∀ k, ((ofEntries? (l.map fun x => (f x.1, g x))).getD ∅).lookup k =
      (d.lookup k).map (want k)) ↔
    ∀ x ∈ d.items, f x.1 = x.1 ∧ g x = some (want x.1 x.2) := by
  constructor
  · intro h
    have hsource : ∀ x ∈ d.items, ∃ y ∈ l, f y.1 = x.1 ∧ g y = some (want x.1 x.2) := by
      intro x hx
      have hentry := h x.1
      rw [mem_items.mp hx, Option.map_some] at hentry
      cases hof : ofEntries? (l.map fun x => (f x.1, g x)) with
      | none => simp [hof] at hentry
      | some d' =>
        rw [hof, Option.getD_some] at hentry
        obtain ⟨y, hy, heq⟩ := List.mem_map.mp (exists_of_lookup_ofEntries? hof hentry)
        exact ⟨y, hy, Prod.mk.inj heq⟩
    have hfix : ∀ x ∈ d.items, f x.1 = x.1 := by
      intro x hx
      obtain ⟨y, -, hkey, -⟩ := hsource x hx
      rw [← hkey, hf]
    intro x hx
    obtain ⟨y, hy, hkey, hval⟩ := hsource x hx
    have hyd := hl.mem_iff.mp hy
    obtain rfl : y = x := eq_of_mem_items hyd hx (by rw [← hkey, hfix y hyd])
    exact ⟨hkey, hval⟩
  · intro h
    have hentries : (l.map fun x => (f x.1, g x)) = l.map fun x => (x.1, some (want x.1 x.2)) := by
      apply List.map_congr_left
      intro x hx
      rw [(h x (hl.mem_iff.mp hx)).1, (h x (hl.mem_iff.mp hx)).2]
    obtain ⟨d', hd', hlookup⟩ := exists_ofEntries?_eq want d hl
    intro k
    rw [hentries, hd', Option.getD_some, hlookup]

def ofItems (l : List (κ × ν)) : Dict κ ν := l.foldl (fun d x => AList.insert x.1 x.2 d) ∅

theorem ofItems_append_singleton (l : List (κ × ν)) (x : κ × ν) :
    ofItems (l ++ [x]) = AList.insert x.1 x.2 (ofItems l) := by
  rw [ofItems, List.foldl_append]
  rfl

theorem mem_ofItems {l : List (κ × ν)} {k : κ} : k ∈ ofItems l ↔ k ∈ l.map Prod.fst := by
  induction l using List.reverseRecOn with
  | nil => simp [ofItems]
  | append_singleton l x ih =>
    rw [ofItems_append_singleton, AList.mem_insert, ih, List.map_append, List.mem_append]
    simp [or_comm]

theorem lookup_ofItems_map {f : κ → κ} {lt : κ → κ → Prop} (asymm : ∀ a b, lt a b → ¬ lt b a)
    {l : List (κ × ν)} (hl : l.Pairwise fun x y => lt x.1 y.1) {x : κ × ν} (hx : x ∈ l)
    (hlast : ∀ y ∈ l, f y.1 = f x.1 → y = x ∨ lt y.1 x.1) :
    (ofItems (l.map fun y => (f y.1, y.2))).lookup (f x.1) = some x.2 := by
  induction l using List.reverseRecOn with
  | nil => cases hx
  | append_singleton l y ih =>
    rw [List.map_append, List.map_singleton, ofItems_append_singleton, lookup_insert]
    rw [List.pairwise_append] at hl
    by_cases hyx : y = x
    · rw [hyx, if_pos rfl]
    · have hxl : x ∈ l := (List.mem_append.mp hx).resolve_right fun h =>
        hyx (List.mem_singleton.mp h).symm
      have hxy : lt x.1 y.1 := hl.2.2 x hxl y (by simp)
      have hkey : f x.1 ≠ f y.1 := by
        intro heq
        rcases hlast y (by simp) heq.symm with h | h
        · exact hyx h
        · exact asymm _ _ hxy h
      rw [if_neg hkey]
      exact ih hl.1 hxl fun z hz => hlast z (List.mem_append_left _ hz)

end Dict

structure Sharded {κ : Type*} {n : ℕ} (shard : κ → Fin n) (ν : Type*) where
  parts : Fin n → Dict κ ν
  home : ∀ i k, k ∈ parts i → shard k = i

namespace Sharded

variable {κ ν : Type*} {n : ℕ} {shard : κ → Fin n}

def empty : Sharded shard ν := ⟨fun _ => ∅, fun _ k h => absurd h (AList.notMem_empty k)⟩

variable [DecidableEq κ]

def lookup (s : Sharded shard ν) (k : κ) : Option ν := (s.parts (shard k)).lookup k

def insert (s : Sharded shard ν) (k : κ) (v : ν) : Sharded shard ν where
  parts := Function.update s.parts (shard k) (AList.insert k v (s.parts (shard k)))
  home := by
    intro i a ha
    by_cases hi : i = shard k
    · subst hi
      rw [Function.update_self, AList.mem_insert] at ha
      rcases ha with rfl | ha
      · rfl
      · exact s.home _ a ha
    · rw [Function.update_of_ne hi] at ha
      exact s.home i a ha

def erase (s : Sharded shard ν) (k : κ) : Sharded shard ν where
  parts := Function.update s.parts (shard k) (AList.erase k (s.parts (shard k)))
  home := by
    intro i a ha
    by_cases hi : i = shard k
    · subst hi
      rw [Function.update_self, AList.mem_erase] at ha
      exact s.home _ a ha.2
    · rw [Function.update_of_ne hi] at ha
      exact s.home i a ha

def items (order : MapOrder) {κ ν : Type} {shard : κ → Fin n} (s : Sharded shard ν) :
    List (κ × ν) :=
  (List.finRange n).flatMap fun i => order.arrange (s.parts i).items

@[simp] theorem lookup_empty (k : κ) : (empty : Sharded shard ν).lookup k = none := rfl

@[simp] theorem lookup_insert (s : Sharded shard ν) (a k : κ) (v : ν) :
    (s.insert a v).lookup k = if k = a then some v else s.lookup k := by
  unfold lookup insert
  by_cases hs : shard k = shard a
  · simp only [hs, Function.update_self, Dict.lookup_insert]
  · have hk : k ≠ a := fun h => hs (congrArg shard h)
    simp only [Function.update_of_ne hs, if_neg hk]

@[simp] theorem lookup_erase (s : Sharded shard ν) (a k : κ) :
    (s.erase a).lookup k = if k = a then none else s.lookup k := by
  unfold lookup erase
  by_cases hs : shard k = shard a
  · simp only [hs, Function.update_self, Dict.lookup_erase]
  · have hk : k ≠ a := fun h => hs (congrArg shard h)
    simp only [Function.update_of_ne hs, if_neg hk]

theorem mem_items_part (s : Sharded shard ν) {i : Fin n} {k : κ} {v : ν} :
    (k, v) ∈ (s.parts i).items ↔ shard k = i ∧ s.lookup k = some v := by
  rw [Dict.mem_items]
  constructor
  · intro h
    have hi : shard k = i := s.home i k (AList.lookup_isSome.mp (by rw [h]; rfl))
    subst hi
    exact ⟨rfl, h⟩
  · rintro ⟨rfl, h⟩
    exact h

theorem mem_items {order : MapOrder} {κ ν : Type} [DecidableEq κ] {shard : κ → Fin n}
    {s : Sharded shard ν} {k : κ} {v : ν} : (k, v) ∈ s.items order ↔ s.lookup k = some v := by
  simp only [items, List.mem_flatMap, List.mem_finRange, true_and, order.mem_arrange, mem_items_part]
  constructor
  · rintro ⟨i, -, h⟩
    exact h
  · intro h
    exact ⟨shard k, rfl, h⟩

end Sharded

section Loop

variable {σ κ ν : Type*} [DecidableEq κ]

def LookupInsert (get : σ → κ → Option ν) (put : σ → κ → ν → σ) : Prop :=
  ∀ s a v k, get (put s a v) k = if k = a then some v else get s k

variable {get : σ → κ → Option ν} {put : σ → κ → ν → σ} {l : List (κ × ν)} {s : σ} {k : κ}

theorem LookupInsert.get_of_absent (law : LookupInsert get put) (h : ∀ v, (k, v) ∉ l) :
    get (l.foldl (fun s x => put s x.1 x.2) s) k = get s k := by
  induction l generalizing s with
  | nil => rfl
  | cons x l ih =>
    have hne : k ≠ x.1 := fun hk => h x.2 (by simp [hk])
    rw [List.foldl_cons, ih fun v hv => h v (List.mem_cons_of_mem _ hv), law, if_neg hne]

theorem LookupInsert.get_of_mem (law : LookupInsert get put) {v : ν} (h : (k, v) ∈ l) :
    ∃ w, (k, w) ∈ l ∧ get (l.foldl (fun s x => put s x.1 x.2) s) k = some w := by
  induction l generalizing s v with
  | nil => cases h
  | cons x l ih =>
    by_cases hlater : ∃ w, (k, w) ∈ l
    · obtain ⟨w, hw⟩ := hlater
      obtain ⟨u, hu, hget⟩ := ih (s := put s x.1 x.2) hw
      exact ⟨u, List.mem_cons_of_mem _ hu, hget⟩
    · push Not at hlater
      have hx : x = (k, v) := by
        rcases List.mem_cons.mp h with h | h
        · exact h.symm
        · exact absurd h (hlater v)
      refine ⟨v, h, ?_⟩
      rw [List.foldl_cons, law.get_of_absent hlater, hx, law, if_pos rfl]

theorem LookupInsert.get_of_unique (law : LookupInsert get put) {v : ν} (h : (k, v) ∈ l)
    (huniq : ∀ w, (k, w) ∈ l → w = v) :
    get (l.foldl (fun s x => put s x.1 x.2) s) k = some v := by
  obtain ⟨w, hw, hget⟩ := law.get_of_mem (s := s) h
  rw [hget, huniq w hw]

theorem LookupInsert.get_of_graph (law : LookupInsert get put) {f : κ → Option ν}
    (hl : ∀ k v, (k, v) ∈ l ↔ f k = some v) (hnew : get s k = none) :
    get (l.foldl (fun s x => put s x.1 x.2) s) k = f k := by
  cases h : f k with
  | none =>
    rw [law.get_of_absent, hnew]
    intro v hv
    rw [hl, h] at hv
    cases hv
  | some v =>
    apply law.get_of_unique ((hl k v).mpr h)
    intro w hw
    exact Option.some.inj (((hl k w).mp hw).symm.trans h)

end Loop

theorem proj_foldl {α ε σ κ ν : Type*} {proj : α → σ} (put : σ → κ → ν → σ)
    {pick : ε → Option (κ × ν)} {body : α → ε → α}
    (h : ∀ a e, proj (body a e) = ((pick e).map fun x => put (proj a) x.1 x.2).getD (proj a))
    (es : List ε) (a : α) :
    proj (es.foldl body a) = (es.filterMap pick).foldl (fun s x => put s x.1 x.2) (proj a) := by
  induction es generalizing a with
  | nil => rfl
  | cons e es ih =>
    rw [List.foldl_cons, ih, h]
    cases hpick : pick e with
    | none | some x => simp [hpick]

theorem Sharded.lookupInsert {κ ν : Type*} [DecidableEq κ] {n : ℕ} {shard : κ → Fin n} :
    LookupInsert (fun (s : Sharded shard ν) k => s.lookup k) fun s k v => s.insert k v :=
  fun s a v k => s.lookup_insert a k v

theorem Dict.lookupInsert {κ ν : Type*} [DecidableEq κ] :
    LookupInsert (fun (d : Dict κ ν) k => d.lookup k) fun d k v => AList.insert k v d :=
  fun d a v k => d.lookup_insert a k v

end GoStream.Foundations
