import GoStream.Foundations.Maps
import GoStream.Foundations.ReadThrough
import GoStream.Foundations.Run
import GoStream.Foundations.Text
import GoStream.Foundations.Threads

/-!
# The read cache of the settings
-/

namespace GoStream.Settings

open Foundations

structure Store (σ : Type) where
  get : σ → Bytes → Bytes → Option Bytes
  list : σ → Bytes → Option (List Bytes)
  set : σ → Bytes → Bytes → Option Bytes → σ
  rem : σ → Bytes → Bytes → σ
  clear : σ → Bytes → σ

namespace DBReadCache

inductive Request where
  | get (xPath name : Bytes)
  | set (xPath name : Bytes) (value : Option Bytes)
  | list (xPath : Bytes)
  | rem (xPath name : Bytes)
  | clear (xPath : Bytes)
  deriving DecidableEq

inductive Call where
  | entered (request : Request)
  | missed (xPath name : Bytes)
  | fetched (xPath name : Bytes) (data : Option Bytes)
  | listMissed (xPath : Bytes)
  | listFetched (xPath : Bytes) (names : Option (List Bytes))
  | setCached (xPath name : Bytes) (value : Option Bytes)
  | setUnlisted (xPath name : Bytes) (value : Option Bytes)
  | remUncached (xPath name : Bytes)
  | remUnlisted (xPath name : Bytes)
  | cleared (xPath : Bytes)
  | clearUnlisted (xPath : Bytes)
  deriving DecidableEq

inductive Answer where
  | data (data : Option Bytes)
  | names (names : Option (List Bytes))
  | done
  deriving DecidableEq

structure Cache (σ : Type) where
  db : σ
  dataCache : Dict (Bytes × Bytes) (Option Bytes)
  listCache : Dict Bytes (Option (List Bytes))

structure State (σ : Type) where
  cache : Cache σ
  calls : List Call

inductive Op where
  | call (request : Request)
  | advance (i : ℕ)
  deriving DecidableEq

variable {σ : Type} (S : Store σ) (readOnly : Bool)

def start (db : σ) : State σ := ⟨⟨db, ∅, ∅⟩, []⟩

def dropData (data : Dict (Bytes × Bytes) (Option Bytes)) (xPath : Bytes) :
    Dict (Bytes × Bytes) (Option Bytes) :=
  data.items.foldl (fun d x => if decide (x.1.1 ≠ xPath) then d else AList.erase x.1 d) data

def advance (c : Cache σ) : Call → Cache σ × (Call ⊕ Answer)
  | .entered (.get xPath name) =>
      match c.dataCache.lookup (xPath, name) with
      | some data => (c, .inr (.data data))
      | none => (c, .inl (.missed xPath name))
  | .missed xPath name => (c, .inl (.fetched xPath name (S.get c.db xPath name)))
  | .fetched xPath name data =>
      ({ c with dataCache := c.dataCache.insert (xPath, name) data }, .inr (.data data))
  | .entered (.list xPath) =>
      match c.listCache.lookup xPath with
      | some names => (c, .inr (.names names))
      | none => (c, .inl (.listMissed xPath))
  | .listMissed xPath => (c, .inl (.listFetched xPath (S.list c.db xPath)))
  | .listFetched xPath names =>
      ({ c with listCache := c.listCache.insert xPath names }, .inr (.names names))
  | .entered (.set xPath name value) =>
      if readOnly then (c, .inr .done)
      else ({ c with dataCache := c.dataCache.insert (xPath, name) value },
        .inl (.setCached xPath name value))
  | .setCached xPath name value =>
      ({ c with listCache := c.listCache.erase xPath }, .inl (.setUnlisted xPath name value))
  | .setUnlisted xPath name value => ({ c with db := S.set c.db xPath name value }, .inr .done)
  | .entered (.rem xPath name) =>
      if readOnly then (c, .inr .done)
      else ({ c with dataCache := c.dataCache.erase (xPath, name) },
        .inl (.remUncached xPath name))
  | .remUncached xPath name =>
      ({ c with listCache := c.listCache.erase xPath }, .inl (.remUnlisted xPath name))
  | .remUnlisted xPath name => ({ c with db := S.rem c.db xPath name }, .inr .done)
  | .entered (.clear xPath) =>
      if readOnly then (c, .inr .done)
      else ({ c with db := S.clear c.db xPath }, .inl (.cleared xPath))
  | .cleared xPath =>
      ({ c with listCache := c.listCache.erase xPath }, .inl (.clearUnlisted xPath))
  | .clearUnlisted xPath => ({ c with dataCache := dropData c.dataCache xPath }, .inr .done)

def step (s : State σ) : Op → State σ
  | .call request => { s with calls := s.calls ++ [.entered request] }
  | .advance i =>
      match s.calls[i]? with
      | none => s
      | some call =>
          let (cache, next) := advance S readOnly s.cache call
          ⟨cache, next.getLeft?.toList ++ s.calls.eraseIdx i⟩

def alone : ℕ → Cache σ → Call → Option Answer
  | 0, _, _ => none
  | fuel + 1, c, call =>
      match advance S readOnly c call with
      | (c', .inl call') => alone fuel c' call'
      | (_, .inr answer) => some answer

def Coherent (c : Cache σ) : Prop :=
  (∀ xPath name, alone S readOnly 3 c (.entered (.get xPath name)) =
    some (.data (S.get c.db xPath name))) ∧
  ∀ xPath, alone S readOnly 3 c (.entered (.list xPath)) = some (.names (S.list c.db xPath))

def Call.dataRole (xPath name : Bytes) : Call → Option (Role (Option Bytes))
  | .fetched x n data => if x = xPath ∧ n = name then some (.fetched data) else none
  | .setCached x n value => if x = xPath ∧ n = name then some (.writes (some value)) else none
  | .setUnlisted x n value => if x = xPath ∧ n = name then some (.writes (some value)) else none
  | .remUncached x n => if x = xPath ∧ n = name then some (.writes none) else none
  | .remUnlisted x n => if x = xPath ∧ n = name then some (.writes none) else none
  | .cleared x => if x = xPath then some .clears else none
  | .clearUnlisted x => if x = xPath then some .clears else none
  | _ => none

def Call.listRole (xPath : Bytes) : Call → Option (Role (Option (List Bytes)))
  | .listFetched x names => if x = xPath then some (.fetched names) else none
  | .setUnlisted x _ _ => if x = xPath then some (.writes none) else none
  | .remUnlisted x _ => if x = xPath then some (.writes none) else none
  | .cleared x => if x = xPath then some .clears else none
  | _ => none

namespace State

def dataRoles (s : State σ) (xPath name : Bytes) : List (Role (Option Bytes)) :=
  s.calls.filterMap (Call.dataRole xPath name)

def listRoles (s : State σ) (xPath : Bytes) : List (Role (Option (List Bytes))) :=
  s.calls.filterMap (Call.listRole xPath)

end State

def Call.fetchedFrom (xPath : Bytes) : Call → Bool
  | .fetched x _ _ => x = xPath
  | .listFetched x _ => x = xPath
  | _ => false

def State.admits (s : State σ) : Call → Bool
  | .missed xPath name => (s.dataRoles xPath name).all fun r => !r.isWrite
  | .listMissed xPath => (s.listRoles xPath).all fun r => !r.isWrite
  | .entered (.set xPath name _) =>
      readOnly || (s.dataRoles xPath name).all fun r => !r.isFetched && !r.isWrite
  | .setCached xPath _ _ => (s.listRoles xPath).all fun r => !r.isFetched
  | .entered (.rem xPath name) => readOnly || (s.dataRoles xPath name).all fun r => !r.isFetched
  | .remUncached xPath _ => (s.listRoles xPath).all fun r => !r.isFetched
  | .entered (.clear xPath) => readOnly || s.calls.all fun call => !call.fetchedFrom xPath
  | _ => true

structure OnlyName (db db' : σ) (xPath name : Bytes) : Prop where
  get : ∀ x n, ¬ (x = xPath ∧ n = name) → S.get db' x n = S.get db x n
  list : ∀ x, x ≠ xPath → S.list db' x = S.list db x

def Faithful (db : σ) : Call → Prop
  | .setUnlisted xPath name value =>
      S.get (S.set db xPath name value) xPath name = value ∧
        OnlyName S db (S.set db xPath name value) xPath name
  | .remUnlisted xPath name => OnlyName S db (S.rem db xPath name) xPath name
  | .entered (.clear xPath) => readOnly = true ∨ ∀ x, x ≠ xPath →
      S.list (S.clear db xPath) x = S.list db x ∧ ∀ n, S.get (S.clear db xPath) x n = S.get db x n
  | _ => True

def Undisturbed (s : State σ) : Op → Prop
  | .call _ => True
  | .advance i => ∀ call, s.calls[i]? = some call →
      s.admits readOnly call = true ∧ Faithful S readOnly s.cache.db call

structure Inv (s : State σ) : Prop where
  data : ∀ xPath name, Sound (s.cache.dataCache.lookup (xPath, name))
    (S.get s.cache.db xPath name) (s.dataRoles xPath name)
  list : ∀ xPath, Sound (s.cache.listCache.lookup xPath) (S.list s.cache.db xPath)
    (s.listRoles xPath)

theorem lookup_dropData (data : Dict (Bytes × Bytes) (Option Bytes)) (xPath x n : Bytes) :
    (dropData data xPath).lookup (x, n) = if x = xPath then none else data.lookup (x, n) := by
  have hloop := Dict.lookup_foldl_erase (fun k : Bytes × Bytes => decide (k.1 ≠ xPath)) data.items
    data (x, n)
  rw [dropData]
  refine hloop.trans ?_
  by_cases hx : x = xPath
  · cases hlookup : data.lookup (x, n) with
    | none => simp
    | some v =>
      have hany : (data.items.any fun y => decide (y.1 = (x, n))) = true :=
        List.any_eq_true.mpr ⟨((x, n), v), Dict.mem_items.mpr hlookup, by simp⟩
      rw [if_pos ⟨by simp [hx], hany⟩, if_pos hx]
  · simp [hx]

section Step

variable {S readOnly} {s : State σ} {call : Call}

theorem key_ne {x n xPath name : Bytes} (h : ¬ (x = xPath ∧ n = name)) :
    (xPath, name) ≠ (x, n) :=
  fun heq => h ⟨(Prod.mk.inj heq).1.symm, (Prod.mk.inj heq).2.symm⟩

theorem mem_of_rest {α : Type} {l a rest : List α} (hl : l.Perm (a ++ rest)) {r : α}
    (hr : r ∈ rest) : r ∈ l := hl.mem_iff.mpr (List.mem_append_right _ hr)

theorem Call.isFetched_dataRole {call : Call} {xPath name : Bytes} {r : Role (Option Bytes)}
    (hr : call.dataRole xPath name = some r) (h : call.fetchedFrom xPath = false) :
    r.isFetched = false := by
  cases call with
  | fetched x n data =>
    rw [Call.dataRole] at hr
    split_ifs at hr with hx
    simp [Call.fetchedFrom, hx.1] at h
  | _ =>
    simp only [Call.dataRole] at hr
    first
    | cases hr
    | split_ifs at hr
      obtain rfl := Option.some.inj hr
      rfl

theorem Call.isFetched_listRole {call : Call} {xPath : Bytes} {r : Role (Option (List Bytes))}
    (hr : call.listRole xPath = some r) (h : call.fetchedFrom xPath = false) :
    r.isFetched = false := by
  cases call with
  | listFetched x names =>
    rw [Call.listRole] at hr
    split_ifs at hr with hx
    simp [Call.fetchedFrom, hx] at h
  | _ =>
    simp only [Call.listRole] at hr
    first
    | cases hr
    | split_ifs at hr
      obtain rfl := Option.some.inj hr
      rfl

theorem data_entered {request : Request} (hadmits : s.admits readOnly (.entered request) = true)
    (hfaithful : Faithful S readOnly s.cache.db (.entered request)) {xPath name : Bytes}
    {rest : List (Role (Option Bytes))}
    (hroles : (s.dataRoles xPath name).Perm
      (((Call.entered request).dataRole xPath name).toList ++ rest))
    (h : Sound (s.cache.dataCache.lookup (xPath, name)) (S.get s.cache.db xPath name)
      (((Call.entered request).dataRole xPath name).toList ++ rest)) :
    Sound ((advance S readOnly s.cache (.entered request)).1.dataCache.lookup (xPath, name))
      (S.get (advance S readOnly s.cache (.entered request)).1.db xPath name)
      (((advance S readOnly s.cache (.entered request)).2.getLeft?.bind
        (Call.dataRole xPath name)).toList ++ rest) := by
  cases request with
  | get x n =>
    cases hl : s.cache.dataCache.lookup (x, n) with
    | none | some data => simpa [advance, Call.dataRole, hl] using h
  | list x =>
    cases hl : s.cache.listCache.lookup x with
    | none | some names => simpa [advance, Call.dataRole, hl] using h
  | set x n value =>
    cases hro : readOnly with
    | true => simpa [advance, Call.dataRole] using h
    | false =>
      by_cases hx : x = xPath ∧ n = name
      · obtain ⟨rfl, rfl⟩ := hx
        have hfree : ∀ r ∈ s.dataRoles x n, r.isFetched = false ∧ r.isWrite = false := by
          simpa [State.admits, hro] using hadmits
        have hchange := Sound.change (S.get s.cache.db x n) (some value)
          (fun r hr => (hfree r (mem_of_rest hroles hr)).1)
          (Or.inr fun r hr => (hfree r (mem_of_rest hroles hr)).2)
        simpa [advance, Call.dataRole] using hchange
      · simpa [advance, Call.dataRole, hx, AList.lookup_insert_ne (key_ne hx)] using h
  | rem x n =>
    cases hro : readOnly with
    | true => simpa [advance, Call.dataRole] using h
    | false =>
      by_cases hx : x = xPath ∧ n = name
      · obtain ⟨rfl, rfl⟩ := hx
        have hfetched : ∀ r ∈ s.dataRoles x n, r.isFetched = false := by
          simpa [State.admits, hro] using hadmits
        have hchange := Sound.change (S.get s.cache.db x n) none
          (fun r hr => hfetched r (mem_of_rest hroles hr)) (Or.inl rfl)
        simpa [advance, Call.dataRole] using hchange
      · simpa [advance, Call.dataRole, hx, AList.lookup_erase_ne (key_ne hx)] using h
  | clear x =>
    cases hro : readOnly with
    | true => simpa [advance, Call.dataRole] using h
    | false =>
      by_cases hx : x = xPath
      · subst hx
        have hfree : ∀ u ∈ s.calls, u.fetchedFrom x = false := by
          simpa [State.admits, hro] using hadmits
        have hfetched : ∀ r ∈ rest, r.isFetched = false := by
          intro r hr
          obtain ⟨u, hu, hrole⟩ := List.mem_filterMap.mp (mem_of_rest hroles hr)
          exact Call.isFetched_dataRole hrole (hfree u hu)
        have hclear := Sound.clear (by simpa [Call.dataRole] using h) hfetched
          (S.get (S.clear s.cache.db x) x name)
        simpa [advance, Call.dataRole] using hclear
      · have hget := ((hfaithful.resolve_left (by simp [hro])) xPath (Ne.symm hx)).2 name
        simpa [advance, Call.dataRole, hx, hget] using h

theorem data_advance (hadmits : s.admits readOnly call = true)
    (hfaithful : Faithful S readOnly s.cache.db call) {xPath name : Bytes}
    {rest : List (Role (Option Bytes))}
    (hroles : (s.dataRoles xPath name).Perm ((call.dataRole xPath name).toList ++ rest))
    (h : Sound (s.cache.dataCache.lookup (xPath, name)) (S.get s.cache.db xPath name)
      ((call.dataRole xPath name).toList ++ rest)) :
    Sound ((advance S readOnly s.cache call).1.dataCache.lookup (xPath, name))
      (S.get (advance S readOnly s.cache call).1.db xPath name)
      (((advance S readOnly s.cache call).2.getLeft?.bind (Call.dataRole xPath name)).toList ++
        rest) := by
  cases call with
  | entered request => exact data_entered hadmits hfaithful hroles h
  | missed x n =>
    by_cases hx : x = xPath ∧ n = name
    · obtain ⟨rfl, rfl⟩ := hx
      have hwrites : ∀ r ∈ s.dataRoles x n, r.isWrite = false := by
        simpa [State.admits] using hadmits
      simpa [advance, Call.dataRole] using h.fetch fun r hr => hwrites r (mem_of_rest hroles hr)
    · simpa [advance, Call.dataRole, hx] using h
  | fetched x n data =>
    by_cases hx : x = xPath ∧ n = name
    · obtain ⟨rfl, rfl⟩ := hx
      have hfill := Sound.fill (by simpa [Call.dataRole] using h)
      simpa [advance, Call.dataRole] using hfill
    · simpa [advance, Call.dataRole, hx, AList.lookup_insert_ne (key_ne hx)] using h
  | setUnlisted x n value =>
    by_cases hx : x = xPath ∧ n = name
    · obtain ⟨rfl, rfl⟩ := hx
      have hfinish := Sound.finish (by simpa [Call.dataRole] using h)
        (S.get (S.set s.cache.db x n value) x n) fun v hv => hfaithful.1.trans (Option.some.inj hv)
      simpa [advance, Call.dataRole] using hfinish
    · have hget := hfaithful.2.get xPath name fun heq => hx ⟨heq.1.symm, heq.2.symm⟩
      simpa [advance, Call.dataRole, hx, hget] using h
  | remUnlisted x n =>
    by_cases hx : x = xPath ∧ n = name
    · obtain ⟨rfl, rfl⟩ := hx
      have hfinish := Sound.finish (by simpa [Call.dataRole] using h)
        (S.get (S.rem s.cache.db x n) x n) fun v hv => by cases hv
      simpa [advance, Call.dataRole] using hfinish
    · have hget := hfaithful.get xPath name fun heq => hx ⟨heq.1.symm, heq.2.symm⟩
      simpa [advance, Call.dataRole, hx, hget] using h
  | clearUnlisted x =>
    by_cases hx : x = xPath
    · subst hx
      have hdrop := Sound.drop (by simpa [Call.dataRole] using h)
      simpa [advance, Call.dataRole, lookup_dropData] using hdrop
    · simpa [advance, Call.dataRole, hx, lookup_dropData, Ne.symm hx] using h
  -- only a list is read or changed, and the entry keeps its role
  | listMissed x | listFetched x names | setCached x n value | remUncached x n | cleared x =>
    simpa [advance, Call.dataRole] using h

theorem list_entered {request : Request} (hadmits : s.admits readOnly (.entered request) = true)
    (hfaithful : Faithful S readOnly s.cache.db (.entered request)) {xPath : Bytes}
    {rest : List (Role (Option (List Bytes)))}
    (hroles : (s.listRoles xPath).Perm (((Call.entered request).listRole xPath).toList ++ rest))
    (h : Sound (s.cache.listCache.lookup xPath) (S.list s.cache.db xPath)
      (((Call.entered request).listRole xPath).toList ++ rest)) :
    Sound ((advance S readOnly s.cache (.entered request)).1.listCache.lookup xPath)
      (S.list (advance S readOnly s.cache (.entered request)).1.db xPath)
      (((advance S readOnly s.cache (.entered request)).2.getLeft?.bind
        (Call.listRole xPath)).toList ++ rest) := by
  cases request with
  | get x n =>
    cases hl : s.cache.dataCache.lookup (x, n) with
    | none | some data => simpa [advance, Call.listRole, hl] using h
  | list x =>
    cases hl : s.cache.listCache.lookup x with
    | none | some names => simpa [advance, Call.listRole, hl] using h
  | set x n value | rem x n =>
    cases readOnly with
    | true | false => simpa [advance, Call.listRole] using h
  | clear x =>
    cases hro : readOnly with
    | true => simpa [advance, Call.listRole] using h
    | false =>
      by_cases hx : x = xPath
      · subst hx
        have hfree : ∀ u ∈ s.calls, u.fetchedFrom x = false := by
          simpa [State.admits, hro] using hadmits
        have hfetched : ∀ r ∈ rest, r.isFetched = false := by
          intro r hr
          obtain ⟨u, hu, hrole⟩ := List.mem_filterMap.mp (mem_of_rest hroles hr)
          exact Call.isFetched_listRole hrole (hfree u hu)
        have hclear := Sound.clear (by simpa [Call.listRole] using h) hfetched
          (S.list (S.clear s.cache.db x) x)
        simpa [advance, Call.listRole] using hclear
      · have hlist := ((hfaithful.resolve_left (by simp [hro])) xPath (Ne.symm hx)).1
        simpa [advance, Call.listRole, hx, hlist] using h

theorem list_advance (hadmits : s.admits readOnly call = true)
    (hfaithful : Faithful S readOnly s.cache.db call) {xPath : Bytes}
    {rest : List (Role (Option (List Bytes)))}
    (hroles : (s.listRoles xPath).Perm ((call.listRole xPath).toList ++ rest))
    (h : Sound (s.cache.listCache.lookup xPath) (S.list s.cache.db xPath)
      ((call.listRole xPath).toList ++ rest)) :
    Sound ((advance S readOnly s.cache call).1.listCache.lookup xPath)
      (S.list (advance S readOnly s.cache call).1.db xPath)
      (((advance S readOnly s.cache call).2.getLeft?.bind (Call.listRole xPath)).toList ++
        rest) := by
  cases call with
  | entered request => exact list_entered hadmits hfaithful hroles h
  | listMissed x =>
    by_cases hx : x = xPath
    · subst hx
      have hwrites : ∀ r ∈ s.listRoles x, r.isWrite = false := by
        simpa [State.admits] using hadmits
      simpa [advance, Call.listRole] using h.fetch fun r hr => hwrites r (mem_of_rest hroles hr)
    · simpa [advance, Call.listRole, hx] using h
  | listFetched x names =>
    by_cases hx : x = xPath
    · subst hx
      have hfill := Sound.fill (by simpa [Call.listRole] using h)
      simpa [advance, Call.listRole] using hfill
    · simpa [advance, Call.listRole, hx, AList.lookup_insert_ne (Ne.symm hx)] using h
  | setCached x n value | remUncached x n =>
    by_cases hx : x = xPath
    · subst hx
      have hfetched : ∀ r ∈ s.listRoles x, r.isFetched = false := by
        simpa [State.admits] using hadmits
      have hchange := Sound.change (S.list s.cache.db x) none
        (fun r hr => hfetched r (mem_of_rest hroles hr)) (Or.inl rfl)
      simpa [advance, Call.listRole] using hchange
    · simpa [advance, Call.listRole, hx, AList.lookup_erase_ne (Ne.symm hx)] using h
  | setUnlisted x n value =>
    by_cases hx : x = xPath
    · subst hx
      have hfinish := Sound.finish (by simpa [Call.listRole] using h)
        (S.list (S.set s.cache.db x n value) x) fun v hv => by cases hv
      simpa [advance, Call.listRole] using hfinish
    · have hlist := hfaithful.2.list xPath (Ne.symm hx)
      simpa [advance, Call.listRole, hx, hlist] using h
  | remUnlisted x n =>
    by_cases hx : x = xPath
    · subst hx
      have hfinish := Sound.finish (by simpa [Call.listRole] using h)
        (S.list (S.rem s.cache.db x n) x) fun v hv => by cases hv
      simpa [advance, Call.listRole] using hfinish
    · have hlist := hfaithful.list xPath (Ne.symm hx)
      simpa [advance, Call.listRole, hx, hlist] using h
  | cleared x =>
    by_cases hx : x = xPath
    · subst hx
      have hdrop := Sound.drop (by simpa [Call.listRole] using h)
      simpa [advance, Call.listRole] using hdrop
    · simpa [advance, Call.listRole, hx, AList.lookup_erase_ne (Ne.symm hx)] using h
  | clearUnlisted x | missed x n | fetched x n data => simpa [advance, Call.listRole] using h

theorem inv_start (db : σ) : Inv S (start db) where
  data := fun _ _ => Sound.empty _
  list := fun _ => Sound.empty _

theorem inv_step (s : State σ) (op : Op) (h : Inv S s) (hop : Undisturbed S readOnly s op) :
    Inv S (step S readOnly s op) := by
  cases op with
  | call request =>
    have hdata : ∀ x n, Call.dataRole x n (.entered request) = none := fun _ _ => rfl
    have hlist : ∀ x, Call.listRole x (.entered request) = none := fun _ => rfl
    constructor
    · intro x n
      simpa [step, State.dataRoles, hdata] using h.data x n
    · intro x
      simpa [step, State.listRoles, hlist] using h.list x
  | advance i =>
    rw [step]
    cases hcall : s.calls[i]? with
    | none => exact h
    | some call =>
      obtain ⟨hadmits, hfaithful⟩ := hop call hcall
      constructor
      · intro x n
        have hroles := filterMap_perm_eraseIdx (Call.dataRole x n) hcall
        have hstep := data_advance hadmits hfaithful hroles ((h.data x n).perm hroles)
        rw [State.dataRoles, filterMap_toList_append]
        exact hstep
      · intro x
        have hroles := filterMap_perm_eraseIdx (Call.listRole x) hcall
        have hstep := list_advance hadmits hfaithful hroles ((h.list x).perm hroles)
        rw [State.listRoles, filterMap_toList_append]
        exact hstep

end Step

theorem Inv.coherent {S : Store σ} {readOnly : Bool} {s : State σ} (h : Inv S s)
    (hquiet : s.calls = []) : Coherent S readOnly s.cache := by
  constructor
  · intro x n
    have hsound := h.data x n
    rw [State.dataRoles, hquiet] at hsound
    cases hl : s.cache.dataCache.lookup (x, n) with
    | none => simp [alone, advance, hl]
    | some data =>
      have hdata := hsound.eq_stored hl
      simp [alone, advance, hl, hdata]
  · intro x
    have hsound := h.list x
    rw [State.listRoles, hquiet] at hsound
    cases hl : s.cache.listCache.lookup x with
    | none => simp [alone, advance, hl]
    | some names =>
      have hnames := hsound.eq_stored hl
      simp [alone, advance, hl, hnames]

/-- The cache agrees with the store between calls. -/
theorem coherent_of_undisturbed (db : σ) (ops : List Op)
    (h : Meets (Undisturbed S readOnly) (step S readOnly) (start db) ops) :
    ∀ pre, pre <+: ops → (run (step S readOnly) (start db) pre).calls = [] →
      Coherent S readOnly (run (step S readOnly) (start db) pre).cache := by
  have hgood : ∀ s, Inv S s → (fun s => s.calls = [] → Coherent S readOnly s.cache) s :=
    fun _ hinv hquiet => hinv.coherent hquiet
  exact Meets.good inv_step hgood ops (inv_start db) h

def memory : Store (Bytes → Dict Bytes (Option Bytes)) where
  get := fun db xPath name => ((db xPath).lookup name).getD none
  list := fun db xPath => some (db xPath).keys
  set := fun db xPath name value => Function.update db xPath ((db xPath).insert name value)
  rem := fun db xPath name => Function.update db xPath ((db xPath).erase name)
  clear := fun db xPath => Function.update db xPath ∅

theorem memory_onlyName (db : Bytes → Dict Bytes (Option Bytes)) (xPath name : Bytes)
    (entries : Dict Bytes (Option Bytes))
    (h : ∀ n, n ≠ name → entries.lookup n = (db xPath).lookup n) :
    OnlyName memory db (Function.update db xPath entries) xPath name where
  get := by
    intro x n hne
    by_cases hx : x = xPath
    · subst hx
      have hn : n ≠ name := fun hn => hne ⟨rfl, hn⟩
      simp only [memory, Function.update_self, h n hn]
    · simp only [memory, Function.update_of_ne hx]
  list := by
    intro x hx
    simp only [memory, Function.update_of_ne hx]

theorem memory_faithful (db : Bytes → Dict Bytes (Option Bytes)) (call : Call) :
    Faithful memory readOnly db call := by
  cases call with
  | setUnlisted x n value =>
    refine ⟨?_, memory_onlyName db x n _ fun n' hn' => AList.lookup_insert_ne hn'⟩
    simp [memory]
  | remUnlisted x n => exact memory_onlyName db x n _ fun n' hn' => AList.lookup_erase_ne hn'
  | entered request =>
    cases request with
    | clear x =>
      refine Or.inr fun x' hx => ⟨?_, fun n => ?_⟩
      · simp only [memory, Function.update_of_ne hx]
      · simp only [memory, Function.update_of_ne hx]
    | _ => trivial
  | _ => trivial

def admitted (s : State σ) : Op → Bool
  | .call _ => true
  | .advance i => (s.calls[i]?).all (s.admits readOnly)

theorem undisturbed_of_admitted (s : State (Bytes → Dict Bytes (Option Bytes))) (op : Op)
    (h : admitted readOnly s op = true) : Undisturbed memory readOnly s op := by
  cases op with
  | call request => trivial
  | advance i =>
    intro call hcall
    rw [admitted, hcall] at h
    exact ⟨h, memory_faithful readOnly s.cache.db call⟩

def oneEntry : Bytes → Dict Bytes (Option Bytes) := fun xPath =>
  if xPath = ascii "Settings" then AList.singleton (ascii "a") (some (ascii "1")) else ∅

def overlapping : List Op :=
  [.call (.get (ascii "Settings") (ascii "a")), .advance 0,
    .call (.set (ascii "Settings") (ascii "b") (some (ascii "2"))), .advance 1, .advance 1,
    .advance 1, .advance 0, .advance 0]

theorem coherent_of_undisturbed_overlapping :
    (run (step memory false) (start oneEntry) overlapping).calls = [] ∧
      Coherent memory false (run (step memory false) (start oneEntry) overlapping).cache := by
  have hmeets : Meets (Undisturbed memory false) (step memory false) (start oneEntry)
      overlapping := by
    refine Meets.mono (undisturbed_of_admitted false) ?_
    decide +kernel
  have hquiet : (run (step memory false) (start oneEntry) overlapping).calls = [] := by
    decide +kernel
  exact ⟨hquiet, coherent_of_undisturbed memory false oneEntry overlapping hmeets overlapping
    (List.prefix_refl _) hquiet⟩

def staleFill : List Op :=
  [.call (.get (ascii "Settings") (ascii "a")), .advance 0, .advance 0,
    .call (.set (ascii "Settings") (ascii "a") (some (ascii "2"))), .advance 1, .advance 0,
    .advance 0, .advance 0]

theorem stale_fill :
    (run (step memory false) (start oneEntry) staleFill).calls = [] ∧
      ¬ Coherent memory false (run (step memory false) (start oneEntry) staleFill).cache := by
  refine ⟨by decide +kernel, fun h => ?_⟩
  have hget := h.1 (ascii "Settings") (ascii "a")
  revert hget
  decide +kernel

end DBReadCache

end GoStream.Settings
