import GoStream.Foundations.Recency
import GoStream.Foundations.Run
import GoStream.MetaCache.LRU

/-!
# The metadata cache as a recency list
-/

namespace GoStream.MetaCache

open Foundations

variable {ν : Type}

def total (l : List (CacheEntry ν)) : ℤ := (l.map fun e => e.size.toInt).sum

@[simp] theorem total_nil : total ([] : List (CacheEntry ν)) = 0 := rfl

@[simp] theorem total_cons (e : CacheEntry ν) (l : List (CacheEntry ν)) :
    total (e :: l) = e.size.toInt + total l := List.sum_cons

theorem total_perm {l l' : List (CacheEntry ν)} (h : l.Perm l') : total l = total l' :=
  (h.map _).sum_eq

theorem total_without {l : List (CacheEntry ν)} (hkeys : (l.map CacheEntry.key).Nodup)
    {e : CacheEntry ν} (he : e ∈ l) :
    total (without CacheEntry.key e.key l) = total l - e.size.toInt := by
  rw [total_perm (perm_cons_without hkeys he), total_cons, add_sub_cancel_left]

def Fits (capacity size : Int64) (l : List (CacheEntry ν)) : Prop :=
  Int64.ofInt (total l) + size ≤ capacity

instance (capacity size : Int64) (l : List (CacheEntry ν)) : Decidable (Fits capacity size l) :=
  inferInstanceAs (Decidable (Int64.ofInt (total l) + size ≤ capacity))

inductive Op (ν : Type)
  | put (key : Bytes) (value : ν) (size : Int64) (now : ℕ)
  | get (key : Bytes) (now : ℕ)
  | delete (key : Bytes)
  | cleanupExpired (now : ℕ)
  | clear

def recencyAfter (capacity : Int64) (ttl : ℕ) (l : List (CacheEntry ν)) :
    Op ν → List (CacheEntry ν)
  | .put key value size now =>
    ⟨key, value, size, now + ttl⟩ ::
      match l.find? fun e => e.key = key with
      | some _ => without CacheEntry.key key l
      | none => trim (Fits capacity size) l
  | .get key now =>
    match l.find? fun e => e.key = key with
    | none => l
    | some e =>
      if now > e.expiresAt then without CacheEntry.key key l
      else e :: without CacheEntry.key key l
  | .delete key => without CacheEntry.key key l
  | .cleanupExpired now => l.filter fun e => ¬ now > e.expiresAt
  | .clear => []

def recencyAnswer (l : List (CacheEntry ν)) : Op ν → Option ν
  | .get key now =>
    (l.find? fun e => e.key = key).bind fun e => if now > e.expiresAt then none else some e.value
  | _ => none

namespace SimpleLRU

def after (c : SimpleLRU ν) : Op ν → SimpleLRU ν
  | .put key value size now => c.put key value size now
  | .get key now => (c.get key now).2
  | .delete key => c.delete key
  | .cleanupExpired now => (c.cleanupExpired now).2
  | .clear => c.clear

def answer (c : SimpleLRU ν) : Op ν → Option ν
  | .get key now => (c.get key now).1
  | _ => none

def entries (c : SimpleLRU ν) : List (CacheEntry ν) := c.order.filterMap fun id => c.elems.lookup id

variable {c : SimpleLRU ν}

theorem mem_entries {e : CacheEntry ν} :
    e ∈ c.entries ↔ ∃ id ∈ c.order, c.elems.lookup id = some e := List.mem_filterMap

theorem WellFormed.key_eq_iff (hc : c.WellFormed) {i j : ℕ} (hi : i ∈ c.order) (hj : j ∈ c.order)
    {d e : CacheEntry ν} (hd : c.elems.lookup i = some d) (he : c.elems.lookup j = some e) :
    d.key = e.key ↔ i = j := by
  obtain ⟨d', hd', hdkey⟩ := hc.order i hi
  obtain ⟨e', he', hekey⟩ := hc.order j hj
  obtain rfl := Option.some.inj (hd'.symm.trans hd)
  obtain rfl := Option.some.inj (he'.symm.trans he)
  constructor
  · intro h
    rw [h, hekey] at hdkey
    exact (Option.some.inj hdkey).symm
  · rintro rfl
    rw [Option.some.inj (hd'.symm.trans he')]

theorem WellFormed.nodup_keys (hc : c.WellFormed) : (c.entries.map CacheEntry.key).Nodup := by
  rw [entries, List.Nodup, List.pairwise_map, List.pairwise_filterMap]
  refine hc.nodup.imp_of_mem fun hi hj hne d hd e he => ?_
  exact fun hkey => hne ((hc.key_eq_iff hi hj hd he).mp hkey)

theorem WellFormed.eq_of_key (hc : c.WellFormed) {d e : CacheEntry ν} (hd : d ∈ c.entries)
    (he : e ∈ c.entries) (hkey : d.key = e.key) : d = e := by
  obtain ⟨i, hi, hd⟩ := mem_entries.mp hd
  obtain ⟨j, hj, he⟩ := mem_entries.mp he
  obtain rfl := (hc.key_eq_iff hi hj hd he).mp hkey
  exact Option.some.inj (hd.symm.trans he)

theorem WellFormed.find?_entries (hc : c.WellFormed) (k : Bytes) :
    c.entries.find? (fun e => e.key = k) = c.entry k := by
  cases hk : c.items.lookup k with
  | none =>
    rw [entry, hk, Option.bind_none, List.find?_eq_none]
    intro e he
    obtain ⟨id, hid, he⟩ := mem_entries.mp he
    obtain ⟨e', he', hkey⟩ := hc.order id hid
    obtain rfl := Option.some.inj (he'.symm.trans he)
    have hne : e'.key ≠ k := by
      rintro rfl
      rw [hk] at hkey
      cases hkey
    simpa using hne
  | some id =>
    obtain ⟨hid, e, he, rfl⟩ := hc.items k id hk
    have hmem : e ∈ c.entries := mem_entries.mpr ⟨id, hid, he⟩
    rw [entry, hk, Option.bind_some, he]
    cases hfind : c.entries.find? fun d => d.key = e.key with
    | none =>
      have hne := List.find?_eq_none.mp hfind e hmem
      simp at hne
    | some d =>
      have hkey : d.key = e.key := by simpa using List.find?_some hfind
      rw [hc.eq_of_key (List.mem_of_find?_eq_some hfind) hmem hkey]

theorem WellFormed.filterMap_erase (hc : c.WellFormed) {id : ℕ} (hid : id ∈ c.order)
    {e : CacheEntry ν} (he : c.elems.lookup id = some e) :
    (c.order.erase id).filterMap (fun j => c.elems.lookup j) =
      without CacheEntry.key e.key c.entries := by
  rw [hc.nodup.erase_eq_filter, without, entries, List.filterMap_filter, List.filter_filterMap]
  apply List.filterMap_congr
  intro j hj
  obtain ⟨d, hd, -⟩ := hc.order j hj
  have hkey := hc.key_eq_iff hj hid hd he
  by_cases hji : j = id
  · simp [hd, hkey.mpr hji, hji, Option.filter]
  · simp [hd, mt hkey.mp hji, hji, Option.filter]

theorem WellFormed.moveToFront_eq (hc : c.WellFormed) {id : ℕ} (hid : id ∈ c.order)
    {e : CacheEntry ν} (he : c.elems.lookup id = some e) :
    (moveToFront id c.order).filterMap (fun j => c.elems.lookup j) =
      e :: without CacheEntry.key e.key c.entries := by
  rw [moveToFront, if_pos hid, ← hc.filterMap_erase hid he]
  exact List.filterMap_cons_some he

@[simp] theorem removeElement_elems (id : ℕ) : (c.removeElement id).elems = c.elems := by
  unfold removeElement
  split <;> rfl

theorem removeElement_eq {id : ℕ} {e : CacheEntry ν} (he : c.elems.lookup id = some e) :
    c.removeElement id =
      { c with items := AList.erase e.key c.items, order := c.order.erase id
               currentSize := c.currentSize - e.size } := by
  simp only [removeElement, he]

structure Represents (c : SimpleLRU ν) (l : List (CacheEntry ν)) : Prop where
  wellFormed : c.WellFormed
  entries : c.entries = l
  size : c.currentSize = Int64.ofInt (total l)

variable {l : List (CacheEntry ν)}

theorem represents_new (capacity : Int64) (ttl : ℕ) :
    (new capacity ttl : SimpleLRU ν).Represents [] :=
  ⟨wellFormed_new capacity ttl, rfl, rfl⟩

theorem Represents.find? (h : c.Represents l) (k : Bytes) :
    l.find? (fun e => e.key = k) = c.entry k := by
  rw [← h.entries, h.wellFormed.find?_entries]

theorem Represents.nodup_keys (h : c.Represents l) : (l.map CacheEntry.key).Nodup :=
  h.entries ▸ h.wellFormed.nodup_keys

theorem Represents.mem (h : c.Represents l) {id : ℕ} {e : CacheEntry ν} (hid : id ∈ c.order)
    (he : c.elems.lookup id = some e) : e ∈ l :=
  h.entries ▸ mem_entries.mpr ⟨id, hid, he⟩

theorem Represents.removeElement (h : c.Represents l) {id : ℕ} {e : CacheEntry ν}
    (hid : id ∈ c.order) (he : c.elems.lookup id = some e) :
    (c.removeElement id).Represents (without CacheEntry.key e.key l) := by
  refine ⟨(h.wellFormed.removeElement hid).1, ?_, ?_⟩
  · rw [SimpleLRU.entries, removeElement_elems, removeElement_eq he, ← h.entries]
    exact h.wellFormed.filterMap_erase hid he
  · rw [removeElement_eq he, total_without h.nodup_keys (h.mem hid he), Int64.ofInt_sub,
      Int64.ofInt_toInt, h.size]

theorem Represents.removeLast (h : c.Represents l) {oldest : ℕ}
    (hlast : c.order.getLast? = some oldest) :
    ∃ l' e, l = l' ++ [e] ∧ (c.removeElement oldest).Represents l' ∧
      (c.removeElement oldest).order.length + 1 = c.order.length := by
  have hmem := List.mem_of_getLast? hlast
  obtain ⟨e, he, -⟩ := h.wellFormed.order oldest hmem
  obtain ⟨ids, hids⟩ := List.getLast?_eq_some_iff.mp hlast
  have hrem := h.removeElement hmem he
  have hnot : oldest ∉ ids := by
    have hnodup := h.wellFormed.nodup
    rw [hids] at hnodup
    exact fun hin => List.disjoint_of_nodup_append hnodup hin List.mem_cons_self
  have horder : (c.removeElement oldest).order = ids := by
    rw [removeElement_eq he]
    change c.order.erase oldest = ids
    rw [hids, List.erase_append_right _ hnot, List.erase_cons_head, List.append_nil]
  refine ⟨ids.filterMap fun j => c.elems.lookup j, e, ?_, ?_, ?_⟩
  · rw [← h.entries, SimpleLRU.entries, hids, List.filterMap_append]
    congr 1
    exact List.filterMap_cons_some he
  · have hentries := hrem.entries
    rw [SimpleLRU.entries, removeElement_elems, horder] at hentries
    exact hentries ▸ hrem
  · rw [horder, hids, List.length_append, List.length_singleton]

@[simp] theorem removeElement_capacity (id : ℕ) : (c.removeElement id).capacity = c.capacity := by
  unfold SimpleLRU.removeElement
  split <;> rfl

@[simp] theorem removeElement_ttl (id : ℕ) : (c.removeElement id).ttl = c.ttl := by
  unfold SimpleLRU.removeElement
  split <;> rfl

theorem Represents.evict (size : Int64) (n : ℕ) :
    ∀ {c : SimpleLRU ν} {l : List (CacheEntry ν)}, c.Represents l → c.order.length ≤ n →
      (SimpleLRU.evict size n c).Represents (trim (Fits c.capacity size) l) := by
  induction n with
  | zero =>
    intro c l h hlen
    have horder : c.order = [] := List.length_eq_zero_iff.mp (Nat.le_zero.mp hlen)
    obtain rfl : l = [] := by rw [← h.entries, SimpleLRU.entries, horder, List.filterMap_nil]
    exact h
  | succ n ih =>
    intro c l h hlen
    unfold SimpleLRU.evict
    cases hlast : c.order.getLast? with
    | none =>
      have horder : c.order = [] := List.getLast?_eq_none_iff.mp hlast
      obtain rfl : l = [] := by rw [← h.entries, SimpleLRU.entries, horder, List.filterMap_nil]
      exact h
    | some oldest =>
      obtain ⟨l', e, rfl, hrem, hlen'⟩ := h.removeLast hlast
      have hfits : c.currentSize + size > c.capacity ↔ ¬ Fits c.capacity size (l' ++ [e]) := by
        rw [Fits, ← h.size, ← Int64.not_lt, not_not, gt_iff_lt]
      rw [trim_concat]
      by_cases hroom : Fits c.capacity size (l' ++ [e])
      · simp only [if_neg (mt hfits.mp (not_not.mpr hroom)), if_pos hroom]
        exact h
      · simp only [if_pos (hfits.mpr hroom), if_neg hroom]
        have hrest := ih hrem (by omega)
        rwa [removeElement_capacity] at hrest

theorem Represents.get (h : c.Represents l) (key : Bytes) (now : ℕ) :
    (c.get key now).2.Represents (recencyAfter c.capacity c.ttl l (.get key now)) ∧
      (c.get key now).1 = recencyAnswer l (.get key now) := by
  have hwf := (h.wellFormed.get key now).2.1
  rw [recencyAfter, recencyAnswer, h.find?, entry]
  unfold SimpleLRU.get at hwf ⊢
  cases hk : c.items.lookup key with
  | none => exact ⟨h, rfl⟩
  | some id =>
    obtain ⟨hid, e, he, rfl⟩ := h.wellFormed.items key id hk
    simp only [hk, he, Option.bind_some] at hwf ⊢
    by_cases hexp : now > e.expiresAt
    · simp only [if_pos hexp] at hwf ⊢
      exact ⟨h.removeElement hid he, trivial⟩
    · simp only [if_neg hexp] at hwf ⊢
      refine ⟨⟨hwf, ?_, ?_⟩, trivial⟩
      · rw [← h.entries]
        exact h.wellFormed.moveToFront_eq hid he
      · rw [total_cons, total_without h.nodup_keys (h.mem hid he), add_sub_cancel]
        exact h.size

theorem Represents.put_some (h : c.Represents l) {key : Bytes} {id : ℕ} {e : CacheEntry ν}
    (hk : c.items.lookup key = some id) (he : c.elems.lookup id = some e) (value : ν)
    (size : Int64) (now : ℕ) :
    (c.update id e value size now).Represents
      (⟨key, value, size, now + c.ttl⟩ :: without CacheEntry.key key l) := by
  obtain ⟨hid, e', he', rfl⟩ := h.wellFormed.items key id hk
  obtain rfl := Option.some.inj (he'.symm.trans he)
  refine ⟨(h.wellFormed.update hk he value size now).1, ?_, ?_⟩
  · -- only the element in front has changed
    have hrest : ∀ j ∈ c.order.erase id,
        (AList.insert id { e' with value, size, expiresAt := now + c.ttl } c.elems).lookup j =
          c.elems.lookup j := by
      intro j hj
      rw [Dict.lookup_insert, if_neg]
      rintro rfl
      exact h.wellFormed.nodup.not_mem_erase hj
    rw [SimpleLRU.entries, SimpleLRU.update, moveToFront, if_pos hid, ← h.entries,
      ← h.wellFormed.filterMap_erase hid he, ← List.filterMap_congr hrest]
    apply List.filterMap_cons_some
    rw [Dict.lookup_insert, if_pos rfl]
  · rw [total_cons, total_without h.nodup_keys (h.mem hid he), Int64.ofInt_add, Int64.ofInt_sub,
      Int64.ofInt_toInt, Int64.ofInt_toInt, ← h.size, Int64.add_comm]
    rfl

theorem Represents.pushFront (h : c.Represents l) {key : Bytes} (hk : c.items.lookup key = none)
    (value : ν) (size : Int64) (now : ℕ) :
    (c.pushFront key value size now).Represents (⟨key, value, size, now + c.ttl⟩ :: l) := by
  refine ⟨(h.wellFormed.pushFront hk value size now).1, ?_, ?_⟩
  · have hold : ∀ j ∈ c.order,
        (AList.insert c.next ⟨key, value, size, now + c.ttl⟩ c.elems).lookup j =
          c.elems.lookup j := by
      intro j hj
      rw [Dict.lookup_insert, if_neg (h.wellFormed.fresh j hj).ne]
    rw [SimpleLRU.entries, SimpleLRU.pushFront, ← h.entries, SimpleLRU.entries,
      ← List.filterMap_congr hold]
    apply List.filterMap_cons_some
    rw [Dict.lookup_insert, if_pos rfl]
  · rw [total_cons, Int64.ofInt_add, Int64.ofInt_toInt, ← h.size, Int64.add_comm]
    rfl

theorem evict_limits (size : Int64) (n : ℕ) (c : SimpleLRU ν) :
    (evict size n c).capacity = c.capacity ∧ (evict size n c).ttl = c.ttl := by
  induction n generalizing c with
  | zero => exact ⟨rfl, rfl⟩
  | succ n ih =>
    unfold evict
    split
    · exact ⟨rfl, rfl⟩
    · next id _ =>
      split_ifs
      · obtain ⟨hcap, httl⟩ := ih (c.removeElement id)
        exact ⟨hcap.trans (removeElement_capacity id), httl.trans (removeElement_ttl id)⟩
      · exact ⟨rfl, rfl⟩

theorem Represents.lookup_eq_none (h : c.Represents l) {k : Bytes} :
    c.items.lookup k = none ↔ ∀ e ∈ l, e.key ≠ k := by
  have hfind := h.find? k
  cases hk : c.items.lookup k with
  | none =>
    rw [entry, hk, Option.bind_none, List.find?_eq_none] at hfind
    simpa using hfind
  | some id =>
    obtain ⟨hid, e, he, rfl⟩ := h.wellFormed.items k id hk
    simpa using ⟨e, h.mem hid he, rfl⟩

theorem Represents.put (h : c.Represents l) (key : Bytes) (value : ν) (size : Int64) (now : ℕ) :
    (c.put key value size now).Represents
      (recencyAfter c.capacity c.ttl l (.put key value size now)) := by
  rw [recencyAfter, h.find?, entry, SimpleLRU.put]
  cases hk : c.items.lookup key with
  | some id =>
    obtain ⟨hid, e, he, -⟩ := h.wellFormed.items key id hk
    simp only [Option.bind_some, he]
    exact h.put_some hk he value size now
  | none =>
    have hroom := h.evict size c.order.length le_rfl
    have hnone : (SimpleLRU.evict size c.order.length c).items.lookup key = none := by
      rw [hroom.lookup_eq_none]
      intro e he
      exact h.lookup_eq_none.mp hk e ((shortestCut_trim _ l).initial.subset he)
    have hpush := hroom.pushFront hnone value size now
    rwa [(evict_limits size _ c).2] at hpush

theorem Represents.delete (h : c.Represents l) (key : Bytes) :
    (c.delete key).Represents (without CacheEntry.key key l) := by
  unfold SimpleLRU.delete
  cases hk : c.items.lookup key with
  | none =>
    have hall : without CacheEntry.key key l = l := by
      apply List.filter_eq_self.mpr
      simpa using h.lookup_eq_none.mp hk
    rw [hall]
    exact h
  | some id =>
    obtain ⟨hid, e, he, rfl⟩ := h.wellFormed.items key id hk
    exact h.removeElement hid he

theorem Represents.removeElements {ids : List ℕ} (hnodup : ids.Nodup) :
    ∀ {c : SimpleLRU ν} {l : List (CacheEntry ν)}, c.Represents l → (∀ id ∈ ids, id ∈ c.order) →
      (ids.foldl SimpleLRU.removeElement c).Represents
        ((c.order.filter (· ∉ ids)).filterMap fun j => c.elems.lookup j) := by
  induction ids with
  | nil =>
    intro c l h _
    have hall : c.order.filter (· ∉ ([] : List ℕ)) = c.order := by simp
    rw [hall]
    obtain rfl := h.entries
    exact h
  | cons id ids ih =>
    intro c l h hmem
    obtain ⟨hnot, hnodup⟩ := List.nodup_cons.mp hnodup
    have hid := hmem id List.mem_cons_self
    obtain ⟨e, he, -⟩ := h.wellFormed.order id hid
    have horder : (c.removeElement id).order = c.order.filter (· != id) := by
      rw [removeElement_eq he]
      exact h.wellFormed.nodup.erase_eq_filter id
    have hmem' : ∀ j ∈ ids, j ∈ (c.removeElement id).order := by
      intro j hj
      have hne : j ≠ id := fun heq => hnot (heq ▸ hj)
      rw [horder, List.mem_filter]
      exact ⟨hmem j (List.mem_cons_of_mem _ hj), by simpa using hne⟩
    have hrest := ih hnodup (h.removeElement hid he) hmem'
    rw [removeElement_elems, horder, List.filter_filter] at hrest
    have hfilter : c.order.filter (fun j => decide (j ∉ ids) && (j != id)) =
        c.order.filter (· ∉ id :: ids) := by
      apply List.filter_congr
      intro j _
      by_cases hji : j = id <;> simp [hji]
    rw [hfilter] at hrest
    exact hrest

theorem Represents.cleanupExpired (h : c.Represents l) (now : ℕ) :
    (c.cleanupExpired now).2.Represents (l.filter fun e => ¬ now > e.expiresAt) := by
  have hnodup : (c.expired now).Nodup := h.wellFormed.nodup.filter _
  have hrem := Represents.removeElements hnodup h fun id hid => (List.mem_filter.mp hid).1
  have hlist : (c.order.filter (· ∉ c.expired now)).filterMap (fun j => c.elems.lookup j) =
      l.filter fun e => ¬ now > e.expiresAt := by
    rw [← h.entries, SimpleLRU.entries, List.filterMap_filter, List.filter_filterMap]
    apply List.filterMap_congr
    intro j hj
    obtain ⟨e, he, -⟩ := h.wellFormed.order j hj
    by_cases hexp : now > e.expiresAt
    · simp [expired, hj, he, hexp, Option.filter]
    · simp [expired, hj, he, hexp, Option.filter]
  exact hlist ▸ hrem

theorem represents_clear : c.clear.Represents [] where
  wellFormed :=
    { items := fun k id hk => by simp [SimpleLRU.clear] at hk
      order := fun id hid => absurd hid List.not_mem_nil
      nodup := List.nodup_nil
      fresh := fun id hid => absurd hid List.not_mem_nil }
  entries := rfl
  size := rfl

theorem Represents.after (h : c.Represents l) (op : Op ν) :
    (c.after op).Represents (recencyAfter c.capacity c.ttl l op) ∧
      c.answer op = recencyAnswer l op := by
  cases op with
  | put key value size now => exact ⟨h.put key value size now, rfl⟩
  | get key now => exact h.get key now
  | delete key => exact ⟨h.delete key, rfl⟩
  | cleanupExpired now => exact ⟨h.cleanupExpired now, rfl⟩
  | clear => exact ⟨represents_clear, rfl⟩

theorem removeElements_limits (ids : List ℕ) (c : SimpleLRU ν) :
    (ids.foldl removeElement c).capacity = c.capacity ∧
      (ids.foldl removeElement c).ttl = c.ttl := by
  induction ids generalizing c with
  | nil => exact ⟨rfl, rfl⟩
  | cons id ids ih =>
    obtain ⟨hcap, httl⟩ := ih (c.removeElement id)
    exact ⟨hcap.trans (removeElement_capacity id), httl.trans (removeElement_ttl id)⟩

theorem after_limits (c : SimpleLRU ν) (op : Op ν) :
    (c.after op).capacity = c.capacity ∧ (c.after op).ttl = c.ttl := by
  cases op with
  | put key value size now =>
    rw [after, SimpleLRU.put]
    split
    · split <;> exact ⟨rfl, rfl⟩
    · exact evict_limits size _ c
  | get key now =>
    rw [after, SimpleLRU.get]
    split
    · exact ⟨rfl, rfl⟩
    · split
      · exact ⟨rfl, rfl⟩
      · split_ifs
        · exact ⟨removeElement_capacity _, removeElement_ttl _⟩
        · exact ⟨rfl, rfl⟩
  | delete key =>
    rw [after, SimpleLRU.delete]
    split
    · exact ⟨rfl, rfl⟩
    · exact ⟨removeElement_capacity _, removeElement_ttl _⟩
  | cleanupExpired now => exact removeElements_limits _ c
  | clear => exact ⟨rfl, rfl⟩

end SimpleLRU

structure Event (ν : Type) where
  op : Op ν
  answer : Option ν

def Event.used : Event ν → Option Bytes
  | ⟨.put key _ _ _, _⟩ => some key
  | ⟨.get key _, some _⟩ => some key
  | _ => none

def Event.puts (ttl : ℕ) (k : Bytes) : Event ν → Option (CacheEntry ν)
  | ⟨.put key value size now, _⟩ => if key = k then some ⟨key, value, size, now + ttl⟩ else none
  | _ => none

def lastPut (ttl : ℕ) (log : List (Event ν)) (k : Bytes) : Option (CacheEntry ν) :=
  log.findSome? (Event.puts ttl k)

structure Recorded (ttl : ℕ) (log : List (Event ν)) (l : List (CacheEntry ν)) : Prop where
  byUse : ByUse (log.filterMap Event.used) (l.map CacheEntry.key)
  put : ∀ e ∈ l, lastPut ttl log e.key = some e

theorem recorded_nil (ttl : ℕ) : Recorded ttl ([] : List (Event ν)) [] :=
  ⟨ByUse.nil _, fun _ he => absurd he List.not_mem_nil⟩

variable {ttl : ℕ} {log : List (Event ν)} {l l' : List (CacheEntry ν)} {ev : Event ν}

theorem Recorded.keep (h : Recorded ttl log l) (hsub : l'.Sublist l) (hused : ev.used = none)
    (hputs : ∀ k, ev.puts ttl k = none) : Recorded ttl (ev :: log) l' := by
  refine ⟨?_, fun e he => ?_⟩
  · rw [List.filterMap_cons_none hused]
    exact h.byUse.sublist (hsub.map _)
  · rw [lastPut, List.findSome?_cons, hputs]
    exact h.put e (hsub.subset he)

theorem Recorded.use (h : Recorded ttl log l) (hsub : l'.Sublist l) {e : CacheEntry ν}
    (hne : ∀ d ∈ l', d.key ≠ e.key) (hused : ev.used = some e.key)
    (hput : lastPut ttl (ev :: log) e.key = some e)
    (hputs : ∀ k, k ≠ e.key → ev.puts ttl k = none) : Recorded ttl (ev :: log) (e :: l') := by
  refine ⟨?_, fun d hd => ?_⟩
  · rw [List.filterMap_cons_some hused]
    refine (h.byUse.sublist (hsub.map _)).use fun hmem => ?_
    obtain ⟨d, hd, hkey⟩ := List.mem_map.mp hmem
    exact hne d hd hkey
  · rcases List.mem_cons.mp hd with rfl | hd
    · exact hput
    · rw [lastPut, List.findSome?_cons, hputs _ (hne d hd)]
      exact h.put d (hsub.subset hd)

theorem Recorded.after (h : Recorded ttl log l) (capacity : Int64) (op : Op ν) :
    Recorded ttl (⟨op, recencyAnswer l op⟩ :: log) (recencyAfter capacity ttl l op) := by
  cases op with
  | put key value size now =>
    have hnew : ∀ {rest : List (CacheEntry ν)}, rest.Sublist l → (∀ d ∈ rest, d.key ≠ key) →
        Recorded ttl (⟨.put key value size now, none⟩ :: log)
          (⟨key, value, size, now + ttl⟩ :: rest) := by
      intro rest hsub hne
      apply h.use hsub hne rfl
      · simp [lastPut, Event.puts]
      · intro k hk
        exact if_neg (Ne.symm hk)
    have hanswer : recencyAnswer l (.put key value size now) = none := rfl
    rw [recencyAfter, hanswer]
    cases hfind : l.find? fun e => e.key = key with
    | some e => exact hnew (without_sublist key l) fun d hd => (mem_without.mp hd).2
    | none =>
      refine hnew (shortestCut_trim _ l).initial.sublist fun d hd => ?_
      simpa using List.find?_eq_none.mp hfind d ((shortestCut_trim _ l).initial.subset hd)
  | get key now =>
    rw [recencyAfter, recencyAnswer]
    cases hfind : l.find? fun e => e.key = key with
    | none => exact h.keep (List.Sublist.refl l) rfl fun _ => rfl
    | some e =>
      obtain rfl : e.key = key := by simpa using List.find?_some hfind
      have hmem := List.mem_of_find?_eq_some hfind
      rw [Option.bind_some]
      by_cases hexp : now > e.expiresAt
      · simp only [if_pos hexp]
        exact h.keep (without_sublist _ l) rfl fun _ => rfl
      · simp only [if_neg hexp]
        apply h.use (without_sublist _ l) (fun d hd => (mem_without.mp hd).2) rfl
        · rw [lastPut, List.findSome?_cons]
          exact h.put e hmem
        · exact fun _ _ => rfl
  | delete key => exact h.keep (without_sublist key l) rfl fun _ => rfl
  | cleanupExpired now => exact h.keep List.filter_sublist rfl fun _ => rfl
  | clear => exact h.keep (List.nil_sublist l) rfl fun _ => rfl

structure Session (ν : Type) where
  cache : SimpleLRU ν
  log : List (Event ν)

namespace Session

def start (capacity : Int64) (ttl : ℕ) : Session ν := ⟨.new capacity ttl, []⟩

def step (s : Session ν) (op : Op ν) : Session ν :=
  ⟨s.cache.after op, ⟨op, s.cache.answer op⟩ :: s.log⟩

end Session

theorem toInt_ofInt_of_lt {n : ℤ} (hn : 0 ≤ n) (hlt : n < 2 ^ 63) : (Int64.ofInt n).toInt = n := by
  rw [Int64.toInt_ofInt]
  apply Int.bmod_eq_of_le
  all_goals norm_num [Int64.size] at *
  all_goals omega

theorem total_nonneg (h : ∀ e ∈ l, 0 ≤ e.size) : 0 ≤ total l := by
  refine List.sum_nonneg fun n hn => ?_
  obtain ⟨e, he, rfl⟩ := List.mem_map.mp hn
  exact Int64.le_iff_toInt_le.mp (h e he)

theorem total_le_of_prefix (h : ∀ e ∈ l, 0 ≤ e.size) (hp : l' <+: l) : total l' ≤ total l := by
  obtain ⟨rest, rfl⟩ := hp
  have hrest : 0 ≤ total rest := total_nonneg fun e he => h e (List.mem_append_right _ he)
  have hsum : total (l' ++ rest) = total l' + total rest := by
    rw [total, List.map_append, List.sum_append, total, total]
  omega

theorem fits_iff {capacity size : Int64} (h : ∀ e ∈ l, 0 ≤ e.size) (hsize : 0 ≤ size)
    (hlt : total l + size.toInt < 2 ^ 63) :
    Fits capacity size l ↔ total l + size.toInt ≤ capacity.toInt := by
  have htotal := total_nonneg h
  have hsize' : 0 ≤ size.toInt := Int64.le_iff_toInt_le.mp hsize
  have hsum : Int64.ofInt (total l) + size = Int64.ofInt (total l + size.toInt) := by
    rw [Int64.ofInt_add, Int64.ofInt_toInt]
  rw [Fits, hsum, Int64.le_iff_toInt_le, toInt_ofInt_of_lt (by omega) hlt]

structure RefinesRecency (s : Session ν) (l : List (CacheEntry ν)) : Prop where
  represents : s.cache.Represents l
  size : (∀ e ∈ l, 0 ≤ e.size) → total l < 2 ^ 63 → s.cache.currentSize.toInt = total l
  byUse : ByUse (s.log.filterMap Event.used) (l.map CacheEntry.key)
  get : ∀ key now value, (s.cache.get key now).1 = some value ↔
    ∃ e ∈ l, lastPut s.cache.ttl s.log key = some e ∧ e.key = key ∧ e.value = value ∧
      now ≤ e.expiresAt
  put_new : ∀ key value size now, (∀ e ∈ l, e.key ≠ key) → ∃ kept,
    (s.cache.put key value size now).entries = ⟨key, value, size, now + s.cache.ttl⟩ :: kept ∧
      ShortestCut (Fits s.cache.capacity size) l kept ∧
      ((∀ e ∈ l, 0 ≤ e.size) → 0 ≤ size → total l + size.toInt < 2 ^ 63 →
        ShortestCut (fun p => total p + size.toInt ≤ s.cache.capacity.toInt) l kept)

theorem RefinesRecency.of_recorded {s : Session ν} (hrep : s.cache.Represents l)
    (hrec : Recorded s.cache.ttl s.log l) : RefinesRecency s l where
  represents := hrep
  size := by
    intro hsizes hlt
    rw [hrep.size, toInt_ofInt_of_lt (total_nonneg hsizes) hlt]
  byUse := hrec.byUse
  get := by
    intro key now value
    rw [(hrep.get key now).2, recencyAnswer]
    constructor
    · intro h
      obtain ⟨e, hfind, hvalue⟩ := Option.bind_eq_some_iff.mp h
      obtain rfl : e.key = key := by simpa using List.find?_some hfind
      have hmem := List.mem_of_find?_eq_some hfind
      split_ifs at hvalue with hexp
      exact ⟨e, hmem, hrec.put e hmem, rfl, Option.some.inj hvalue, not_lt.mp hexp⟩
    · rintro ⟨e, hmem, hput, rfl, rfl, hexp⟩
      cases hfind : l.find? fun d => d.key = e.key with
      | none => simpa using List.find?_eq_none.mp hfind e hmem
      | some d =>
        -- both are the last `Put` of the key
        have hkey : d.key = e.key := by simpa using List.find?_some hfind
        have hd := hrec.put d (List.mem_of_find?_eq_some hfind)
        rw [hkey, hput] at hd
        obtain rfl := Option.some.inj hd
        rw [Option.bind_some, if_neg (not_lt.mpr hexp)]
  put_new := by
    intro key value size now hnew
    have hfind : l.find? (fun e => e.key = key) = none := by simpa using hnew
    have hcut := shortestCut_trim (Fits s.cache.capacity size) l
    refine ⟨_, ?_, hcut, fun hsizes hsize hlt => hcut.congr fun p hp => ?_⟩
    · rw [(hrep.put key value size now).entries, recencyAfter, hfind]
    · have hle := total_le_of_prefix hsizes hp
      exact fits_iff (fun e he => hsizes e (hp.subset he)) hsize (by omega)

theorem Session.run_represents (ops : List (Op ν)) :
    ∀ {s : Session ν} {l : List (CacheEntry ν)}, s.cache.Represents l →
      Recorded s.cache.ttl s.log l →
      (run Session.step s ops).cache.capacity = s.cache.capacity ∧
      (run Session.step s ops).cache.ttl = s.cache.ttl ∧
      (run Session.step s ops).cache.Represents
        (run (recencyAfter s.cache.capacity s.cache.ttl) l ops) ∧
      Recorded s.cache.ttl (run Session.step s ops).log
        (run (recencyAfter s.cache.capacity s.cache.ttl) l ops) := by
  induction ops with
  | nil => exact fun hrep hrec => ⟨rfl, rfl, hrep, hrec⟩
  | cons op ops ih =>
    intro s l hrep hrec
    obtain ⟨hcap, httl⟩ := s.cache.after_limits op
    obtain ⟨hrep', hanswer⟩ := hrep.after op
    have hrec' : Recorded (s.step op).cache.ttl (s.step op).log
        (recencyAfter s.cache.capacity s.cache.ttl l op) := by
      have hlater := hrec.after s.cache.capacity op
      rw [← hanswer] at hlater
      exact httl ▸ hlater
    have hrest := ih hrep' hrec'
    have hcap' : (s.step op).cache.capacity = s.cache.capacity := hcap
    have httl' : (s.step op).cache.ttl = s.cache.ttl := httl
    rwa [hcap', httl'] at hrest

/-- A shard is the recency list of its operations. -/
theorem refines_recency (capacity : Int64) (ttl : ℕ) (ops : List (Op ν)) :
    let s := run Session.step (Session.start capacity ttl) ops
    let l := run (recencyAfter s.cache.capacity s.cache.ttl) [] ops
    RefinesRecency s l ∧ ∀ op, s.cache.answer op = recencyAnswer l op := by
  intro s l
  have hstart : (Session.start capacity ttl : Session ν).cache.Represents [] :=
    SimpleLRU.represents_new capacity ttl
  obtain ⟨hcap, httl, hrep, hrec⟩ := Session.run_represents ops hstart (recorded_nil _)
  rw [← hcap, ← httl] at hrep hrec
  exact ⟨.of_recorded hrep hrec, fun op => (hrep.after op).2⟩

end GoStream.MetaCache
