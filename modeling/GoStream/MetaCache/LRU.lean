import GoStream.Inodes.Map

/-!
# The metadata cache
-/

namespace GoStream.MetaCache

open Foundations

variable {ν : Type}

structure CacheEntry (ν : Type) where
  key : Bytes
  value : ν
  size : Int64
  expiresAt : ℕ

structure SimpleLRU (ν : Type) where
  capacity : Int64
  currentSize : Int64
  ttl : ℕ
  items : Dict Bytes ℕ
  order : List ℕ
  elems : Dict ℕ (CacheEntry ν)
  next : ℕ

def moveToFront (id : ℕ) (order : List ℕ) : List ℕ :=
  if id ∈ order then id :: order.erase id else order

namespace SimpleLRU

def new (capacity : Int64) (ttl : ℕ) : SimpleLRU ν where
  capacity := if capacity = 0 then 500 * 1024 * 1024 else capacity
  currentSize := 0
  ttl := if ttl = 0 then 24 * 3600 else ttl
  items := ∅
  order := []
  elems := ∅
  next := 0

variable (c : SimpleLRU ν)

def removeElement (id : ℕ) : SimpleLRU ν :=
  match c.elems.lookup id with
  | none => c
  | some entry =>
    { c with
      items := AList.erase entry.key c.items
      order := c.order.erase id
      currentSize := c.currentSize - entry.size }

def get (key : Bytes) (now : ℕ) : Option ν × SimpleLRU ν :=
  match c.items.lookup key with
  | none => (none, c)
  | some id =>
    match c.elems.lookup id with
    | none => (none, c)
    | some entry =>
      if now > entry.expiresAt then (none, c.removeElement id)
      else (some entry.value, { c with order := moveToFront id c.order })

def evict (size : Int64) : ℕ → SimpleLRU ν → SimpleLRU ν
  | 0, c => c
  | n + 1, c =>
    match c.order.getLast? with
    | none => c
    | some oldest =>
      if c.currentSize + size > c.capacity then evict size n (c.removeElement oldest) else c

def update (id : ℕ) (entry : CacheEntry ν) (value : ν) (size : Int64) (now : ℕ) : SimpleLRU ν :=
  { c with
    currentSize := c.currentSize - entry.size + size
    elems := AList.insert id { entry with value, size, expiresAt := now + c.ttl } c.elems
    order := moveToFront id c.order }

def pushFront (key : Bytes) (value : ν) (size : Int64) (now : ℕ) : SimpleLRU ν :=
  { c with
    elems := AList.insert c.next ⟨key, value, size, now + c.ttl⟩ c.elems
    order := c.next :: c.order
    items := AList.insert key c.next c.items
    currentSize := c.currentSize + size
    next := c.next + 1 }

def put (key : Bytes) (value : ν) (size : Int64) (now : ℕ) : SimpleLRU ν :=
  match c.items.lookup key with
  | some id =>
    match c.elems.lookup id with
    | none => c
    | some entry => c.update id entry value size now
  | none => (evict size c.order.length c).pushFront key value size now

def delete (key : Bytes) : SimpleLRU ν :=
  match c.items.lookup key with
  | none => c
  | some id => c.removeElement id

def expired (now : ℕ) : List ℕ :=
  c.order.filter fun id => (c.elems.lookup id).any fun entry => now > entry.expiresAt

def cleanupExpired (now : ℕ) : ℕ × SimpleLRU ν :=
  ((c.expired now).length, (c.expired now).foldl removeElement c)

def clear : SimpleLRU ν := { c with items := ∅, order := [], currentSize := 0 }

structure WellFormed : Prop where
  items : ∀ k id, c.items.lookup k = some id →
    id ∈ c.order ∧ ∃ e, c.elems.lookup id = some e ∧ e.key = k
  order : ∀ id ∈ c.order, ∃ e, c.elems.lookup id = some e ∧ c.items.lookup e.key = some id
  nodup : c.order.Nodup
  fresh : ∀ id ∈ c.order, id < c.next

def entry (k : Bytes) : Option (CacheEntry ν) := (c.items.lookup k).bind fun id => c.elems.lookup id

theorem wellFormed_new (capacity : Int64) (ttl : ℕ) : (new capacity ttl : SimpleLRU ν).WellFormed where
  items := fun k id h => by simp [new] at h
  order := fun id h => by simp [new] at h
  nodup := List.nodup_nil
  fresh := fun id h => by simp [new] at h

variable {c}

theorem mem_moveToFront {id j : ℕ} {order : List ℕ} : j ∈ moveToFront id order ↔ j ∈ order := by
  unfold moveToFront
  split_ifs with hmem
  · by_cases hj : j = id
    · simp [hj, hmem]
    · simp [hj, List.mem_erase_of_ne hj]
  · rfl

theorem nodup_moveToFront {id : ℕ} {order : List ℕ} (h : order.Nodup) :
    (moveToFront id order).Nodup := by
  unfold moveToFront
  split_ifs
  · exact List.nodup_cons.mpr ⟨h.not_mem_erase, h.erase id⟩
  · exact h

theorem WellFormed.removeElement (hc : c.WellFormed) {id : ℕ} (hid : id ∈ c.order) :
    (c.removeElement id).WellFormed ∧ ∃ e, c.elems.lookup id = some e ∧
      ∀ k, (c.removeElement id).entry k = if k = e.key then none else c.entry k := by
  obtain ⟨e, he, hkey⟩ := hc.order id hid
  have hremove : c.removeElement id =
      { c with items := AList.erase e.key c.items, order := c.order.erase id
               currentSize := c.currentSize - e.size } := by
    simp only [SimpleLRU.removeElement, he]
  rw [hremove]
  refine ⟨⟨?_, ?_, hc.nodup.erase id, ?_⟩, e, he, ?_⟩
  · intro k j hk
    rw [Dict.lookup_erase] at hk
    split_ifs at hk with hke
    obtain ⟨hj, e', he', rfl⟩ := hc.items k j hk
    refine ⟨(List.mem_erase_of_ne ?_).mpr hj, e', he', rfl⟩
    rintro rfl
    exact hke (by rw [Option.some.inj (he'.symm.trans he)])
  · intro j hj
    obtain ⟨e', he', hk'⟩ := hc.order j (List.mem_of_mem_erase hj)
    refine ⟨e', he', ?_⟩
    rw [Dict.lookup_erase, if_neg, hk']
    intro hke
    rw [hke, hkey] at hk'
    exact hc.nodup.not_mem_erase (Option.some.inj hk' ▸ hj)
  · exact fun j hj => hc.fresh j (List.mem_of_mem_erase hj)
  · intro k
    simp only [entry, Dict.lookup_erase]
    split_ifs <;> rfl

def Fewer (c' c : SimpleLRU ν) : Prop := ∀ k, c'.entry k = none ∨ c'.entry k = c.entry k

theorem Fewer.refl (c : SimpleLRU ν) : Fewer c c := fun _ => .inr rfl

theorem Fewer.trans {a b c : SimpleLRU ν} (hab : Fewer a b) (hbc : Fewer b c) : Fewer a c := by
  intro k
  rcases hab k with h | h
  · exact .inl h
  · rw [h]
    exact hbc k

theorem WellFormed.removeElement_fewer (hc : c.WellFormed) {id : ℕ} (hid : id ∈ c.order) :
    (c.removeElement id).WellFormed ∧ Fewer (c.removeElement id) c := by
  obtain ⟨hwf, e, -, hentry⟩ := hc.removeElement hid
  refine ⟨hwf, fun k => ?_⟩
  rw [hentry]
  split_ifs
  · exact .inl rfl
  · exact .inr rfl

def live (c : SimpleLRU ν) (k : Bytes) (now : ℕ) : Option ν :=
  (c.entry k).bind fun e => if now > e.expiresAt then none else some e.value

theorem WellFormed.get (hc : c.WellFormed) (key : Bytes) (now : ℕ) :
    (c.get key now).1 = c.live key now ∧ (c.get key now).2.WellFormed ∧
      Fewer (c.get key now).2 c := by
  unfold SimpleLRU.get live entry
  cases hk : c.items.lookup key with
  | none => exact ⟨rfl, hc, .refl c⟩
  | some id =>
    obtain ⟨hid, e, he, -⟩ := hc.items key id hk
    simp only [he, Option.bind_some]
    split_ifs with hexp
    · exact ⟨rfl, hc.removeElement_fewer hid⟩
    · refine ⟨rfl, ⟨?_, ?_, nodup_moveToFront hc.nodup, ?_⟩, fun k => .inr rfl⟩
      · exact fun k j hj => ⟨mem_moveToFront.mpr (hc.items k j hj).1, (hc.items k j hj).2⟩
      · exact fun j hj => hc.order j (mem_moveToFront.mp hj)
      · exact fun j hj => hc.fresh j (mem_moveToFront.mp hj)

theorem WellFormed.evict (size : Int64) : ∀ (n : ℕ) {c : SimpleLRU ν}, c.WellFormed →
    (SimpleLRU.evict size n c).WellFormed ∧ Fewer (SimpleLRU.evict size n c) c
  | 0, c, hc => ⟨hc, .refl c⟩
  | n + 1, c, hc => by
    unfold SimpleLRU.evict
    split
    · exact ⟨hc, .refl c⟩
    · next oldest hlast =>
      split_ifs
      · obtain ⟨hwf, hfewer⟩ := hc.removeElement_fewer (List.mem_of_getLast? hlast)
        obtain ⟨hwf', hfewer'⟩ := WellFormed.evict size n hwf
        exact ⟨hwf', hfewer'.trans hfewer⟩
      · exact ⟨hc, .refl c⟩

theorem WellFormed.pushFront (hc : c.WellFormed) {key : Bytes} (hnew : c.items.lookup key = none)
    (value : ν) (size : Int64) (now : ℕ) :
    (c.pushFront key value size now).WellFormed ∧
      ∀ k, (c.pushFront key value size now).entry k =
        if k = key then some ⟨key, value, size, now + c.ttl⟩ else c.entry k := by
  have hold : ∀ id ∈ c.order, id ≠ c.next := fun id hid => (hc.fresh id hid).ne
  refine ⟨⟨?_, ?_, ?_, ?_⟩, ?_⟩
  · intro k id hk
    simp only [SimpleLRU.pushFront, Dict.lookup_insert] at hk ⊢
    split_ifs at hk with hkey
    · obtain rfl := Option.some.inj hk
      exact ⟨List.mem_cons_self, _, if_pos rfl, hkey.symm⟩
    · obtain ⟨hid, e, he, hek⟩ := hc.items k id hk
      exact ⟨List.mem_cons_of_mem _ hid, e, by rw [if_neg (hold id hid), he], hek⟩
  · intro id hid
    simp only [SimpleLRU.pushFront, Dict.lookup_insert] at hid ⊢
    rcases List.mem_cons.mp hid with rfl | hid
    · exact ⟨_, if_pos rfl, if_pos rfl⟩
    · obtain ⟨e, he, hek⟩ := hc.order id hid
      refine ⟨e, by rw [if_neg (hold id hid), he], ?_⟩
      rw [if_neg, hek]
      intro hkey
      rw [hkey, hnew] at hek
      cases hek
  · exact List.nodup_cons.mpr ⟨fun hmem => hold _ hmem rfl, hc.nodup⟩
  · intro id hid
    rcases List.mem_cons.mp hid with rfl | hid
    · exact Nat.lt_succ_self _
    · exact Nat.lt_succ_of_lt (hc.fresh id hid)
  · intro k
    simp only [entry, SimpleLRU.pushFront, Dict.lookup_insert]
    split_ifs with hkey
    · simp
    · cases hk : c.items.lookup k with
      | none => rfl
      | some id => simp [hold id (hc.items k id hk).1]

theorem WellFormed.update (hc : c.WellFormed) {key : Bytes} {id : ℕ} {e : CacheEntry ν}
    (hkey : c.items.lookup key = some id) (he : c.elems.lookup id = some e)
    (value : ν) (size : Int64) (now : ℕ) :
    (c.update id e value size now).WellFormed ∧
      ∀ k, (c.update id e value size now).entry k =
        if k = key then some ⟨key, value, size, now + c.ttl⟩ else c.entry k := by
  obtain ⟨hid, e', he', hek⟩ := hc.items key id hkey
  obtain rfl := Option.some.inj (he'.symm.trans he)
  -- another key has another element
  have hother : ∀ {k j}, c.items.lookup k = some j → k ≠ key → j ≠ id := by
    rintro k j hk hne rfl
    obtain ⟨-, e'', he'', hek''⟩ := hc.items k j hk
    rw [Option.some.inj (he''.symm.trans he)] at hek''
    exact hne (hek''.symm.trans hek)
  refine ⟨⟨?_, ?_, nodup_moveToFront hc.nodup, ?_⟩, ?_⟩
  · intro k j hk
    obtain ⟨hj, e'', he'', hek''⟩ := hc.items k j hk
    refine ⟨mem_moveToFront.mpr hj, ?_⟩
    simp only [SimpleLRU.update, Dict.lookup_insert]
    by_cases hji : j = id
    · refine ⟨_, if_pos hji, ?_⟩
      rw [← hek'', Option.some.inj (he''.symm.trans (hji ▸ he))]
    · exact ⟨e'', by rw [if_neg hji, he''], hek''⟩
  · intro j hj
    obtain ⟨e'', he'', hek''⟩ := hc.order j (mem_moveToFront.mp hj)
    simp only [SimpleLRU.update, Dict.lookup_insert]
    by_cases hji : j = id
    · refine ⟨_, if_pos hji, ?_⟩
      rw [hek, hkey, hji]
    · exact ⟨e'', by rw [if_neg hji, he''], hek''⟩
  · exact fun j hj => hc.fresh j (mem_moveToFront.mp hj)
  · intro k
    simp only [entry, SimpleLRU.update, Dict.lookup_insert]
    by_cases hk : k = key
    · subst hk
      simp [hkey, hek]
    · cases hlook : c.items.lookup k with
      | none => simp [hk]
      | some j => simp [hk, hother hlook hk]

theorem WellFormed.put (hc : c.WellFormed) (key : Bytes) (value : ν) (size : Int64) (now : ℕ) :
    (c.put key value size now).WellFormed ∧
      (∃ ttl, (c.put key value size now).entry key = some ⟨key, value, size, now + ttl⟩) ∧
      ∀ k, k ≠ key → (c.put key value size now).entry k = none ∨
        (c.put key value size now).entry k = c.entry k := by
  unfold SimpleLRU.put
  cases hk : c.items.lookup key with
  | some id =>
    obtain ⟨hid, e, he, -⟩ := hc.items key id hk
    simp only [he]
    obtain ⟨hwf, hentry⟩ := hc.update hk he value size now
    refine ⟨hwf, ⟨_, by rw [hentry, if_pos rfl]⟩, fun k hne => .inr ?_⟩
    rw [hentry, if_neg hne]
  | none =>
    obtain ⟨hwf, hfewer⟩ := WellFormed.evict size c.order.length hc
    have hnone : (SimpleLRU.evict size c.order.length c).items.lookup key = none := by
      -- an element without an entry would not be well formed
      cases hnew : (SimpleLRU.evict size c.order.length c).items.lookup key with
      | none => rfl
      | some id =>
        obtain ⟨-, e, he, -⟩ := hwf.items key id hnew
        rcases hfewer key with h | h
        · simp [entry, hnew, he] at h
        · simp [entry, hnew, he, hk] at h
    obtain ⟨hwf', hentry⟩ := hwf.pushFront hnone value size now
    refine ⟨hwf', ⟨_, by rw [hentry, if_pos rfl]⟩, fun k hne => ?_⟩
    rw [hentry, if_neg hne]
    exact hfewer k

theorem WellFormed.removeElements (hc : c.WellFormed) :
    ∀ {l : List ℕ}, l.Nodup → (∀ id ∈ l, id ∈ c.order) →
      (l.foldl SimpleLRU.removeElement c).WellFormed ∧ Fewer (l.foldl SimpleLRU.removeElement c) c := by
  intro l
  induction l generalizing c with
  | nil => exact fun _ _ => ⟨hc, .refl c⟩
  | cons id l ih =>
    intro hnodup hmem
    obtain ⟨hnot, hnodup⟩ := List.nodup_cons.mp hnodup
    obtain ⟨hwf, hfewer⟩ := hc.removeElement_fewer (hmem id (by simp))
    have hrest : ∀ j ∈ l, j ∈ (c.removeElement id).order := by
      intro j hj
      obtain ⟨e, he, -⟩ := hc.order id (hmem id (by simp))
      have hne : j ≠ id := fun h => hnot (h ▸ hj)
      simp only [SimpleLRU.removeElement, he]
      exact (List.mem_erase_of_ne hne).mpr (hmem j (by simp [hj]))
    obtain ⟨hwf', hfewer'⟩ := ih hwf hnodup hrest
    exact ⟨hwf', hfewer'.trans hfewer⟩

theorem WellFormed.cleanupExpired (hc : c.WellFormed) (now : ℕ) :
    (c.cleanupExpired now).2.WellFormed ∧ Fewer (c.cleanupExpired now).2 c :=
  hc.removeElements (hc.nodup.filter _) fun _ hid => (List.mem_filter.mp hid).1

end SimpleLRU

open Inodes

structure LRUCache (H : Hashing) (ν : Type) where
  shards : Fin 32 → SimpleLRU ν
  wellFormed : ∀ i, (shards i).WellFormed

namespace LRUCache

variable {H : Hashing}

def new (capacity : Int64) (ttl : ℕ) : LRUCache H ν where
  shards := fun _ =>
    .new (if capacity / 32 = 0 then 1024 * 1024 else capacity / 32) ttl
  wellFormed := fun _ => SimpleLRU.wellFormed_new _ _

variable (c : LRUCache H ν)

def setShard (i : Fin 32) (s : SimpleLRU ν) (hs : s.WellFormed) : LRUCache H ν where
  shards := Function.update c.shards i s
  wellFormed := by
    intro j
    by_cases hj : j = i
    · subst hj
      rw [Function.update_self]
      exact hs
    · rw [Function.update_of_ne hj]
      exact c.wellFormed j

def get (key : Bytes) (now : ℕ) : Option ν × LRUCache H ν :=
  let i := H.getShard key
  (((c.shards i).get key now).1,
    c.setShard i ((c.shards i).get key now).2 ((c.wellFormed i).get key now).2.1)

def put (key : Bytes) (value : ν) (size : Int64) (now : ℕ) : LRUCache H ν :=
  let i := H.getShard key
  c.setShard i ((c.shards i).put key value size now) ((c.wellFormed i).put key value size now).1

def cleanupExpired (now : ℕ) : LRUCache H ν where
  shards := fun i => ((c.shards i).cleanupExpired now).2
  wellFormed := fun i => ((c.wellFormed i).cleanupExpired now).1

def entry (k : Bytes) : Option (CacheEntry ν) := (c.shards (H.getShard k)).entry k

def live (k : Bytes) (now : ℕ) : Option ν := (c.shards (H.getShard k)).live k now

theorem get_fst (key : Bytes) (now : ℕ) : (c.get key now).1 = c.live key now :=
  ((c.wellFormed _).get key now).1

theorem live_eq (k : Bytes) (now : ℕ) : c.live k now =
    (c.entry k).bind fun e => if now > e.expiresAt then none else some e.value := rfl

theorem entry_setShard_self (k : Bytes) {s : SimpleLRU ν} (hs : s.WellFormed) :
    (c.setShard (H.getShard k) s hs).entry k = s.entry k := by
  simp [entry, setShard]

theorem entry_setShard_of_ne {k : Bytes} {i : Fin 32} (hne : H.getShard k ≠ i) {s : SimpleLRU ν}
    (hs : s.WellFormed) : (c.setShard i s hs).entry k = c.entry k := by
  simp [entry, setShard, Function.update_of_ne hne]

theorem entry_get (key k : Bytes) (now : ℕ) :
    (c.get key now).2.entry k = none ∨ (c.get key now).2.entry k = c.entry k := by
  by_cases hs : H.getShard k = H.getShard key
  · have hentry : (c.get key now).2.entry k =
        ((c.shards (H.getShard key)).get key now).2.entry k := by
      simp only [LRUCache.get, ← hs, entry_setShard_self]
    have hold : c.entry k = (c.shards (H.getShard key)).entry k := by rw [entry, hs]
    rw [hentry, hold]
    exact ((c.wellFormed _).get key now).2.2 k
  · exact .inr (entry_setShard_of_ne c hs ((c.wellFormed _).get key now).2.1)

theorem entry_put_self (key : Bytes) (value : ν) (size : Int64) (now : ℕ) :
    ∃ ttl, (c.put key value size now).entry key = some ⟨key, value, size, now + ttl⟩ := by
  simp only [LRUCache.put, entry_setShard_self]
  exact ((c.wellFormed _).put key value size now).2.1

theorem entry_put_of_ne {key k : Bytes} (hne : k ≠ key) (value : ν) (size : Int64) (now : ℕ) :
    (c.put key value size now).entry k = none ∨
      (c.put key value size now).entry k = c.entry k := by
  by_cases hs : H.getShard k = H.getShard key
  · have hentry : (c.put key value size now).entry k =
        ((c.shards (H.getShard key)).put key value size now).entry k := by
      simp only [LRUCache.put, ← hs, entry_setShard_self]
    have hold : c.entry k = (c.shards (H.getShard key)).entry k := by rw [entry, hs]
    rw [hentry, hold]
    exact ((c.wellFormed _).put key value size now).2.2 k hne
  · exact .inr (entry_setShard_of_ne c hs ((c.wellFormed _).put key value size now).1)

theorem entry_cleanupExpired (k : Bytes) (now : ℕ) :
    (c.cleanupExpired now).entry k = none ∨ (c.cleanupExpired now).entry k = c.entry k :=
  ((c.wellFormed _).cleanupExpired now).2 k

end LRUCache

end GoStream.MetaCache
