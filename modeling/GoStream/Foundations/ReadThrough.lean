import Mathlib.Data.List.Basic
import Mathlib.Tactic

/-!
# One slot of a read-through cache
-/

namespace GoStream.Foundations

inductive Role (ν : Type*) where
  | fetched (v : ν)
  | writes (new : Option ν)
  | clears

namespace Role

variable {ν : Type*}

def isFetched : Role ν → Bool
  | fetched _ => true
  | _ => false

def isWrite : Role ν → Bool
  | writes _ => true
  | _ => false

end Role

variable {ν : Type*}

structure Sound (cached : Option ν) (stored : ν) (roles : List (Role ν)) : Prop where
  current : ∀ v, cached = some v → v = stored ∨ .writes (some v) ∈ roles ∨ .clears ∈ roles
  ahead : ∀ new, .writes new ∈ roles → ∀ v, cached = some v → new = some v
  fetched : ∀ v, .fetched v ∈ roles → v = stored ∧ ∀ new, .writes new ∉ roles

namespace Sound

variable {cached : Option ν} {stored : ν} {roles : List (Role ν)}

theorem empty (stored : ν) : Sound none stored [] where
  current := fun _ h => by cases h
  ahead := fun _ h => by cases h
  fetched := fun _ h => by cases h

theorem eq_stored (h : Sound cached stored []) {v : ν} (hv : cached = some v) : v = stored := by
  rcases h.current v hv with h | h | h
  · exact h
  · cases h
  · cases h

theorem perm (h : Sound cached stored roles) {roles' : List (Role ν)} (hp : roles.Perm roles') :
    Sound cached stored roles' where
  current := fun v hv => (h.current v hv).imp_right fun h => h.imp hp.mem_iff.mp hp.mem_iff.mp
  ahead := fun new hnew => h.ahead new (hp.mem_iff.mpr hnew)
  fetched := fun v hv => by
    obtain ⟨hstored, hwrites⟩ := h.fetched v (hp.mem_iff.mpr hv)
    exact ⟨hstored, fun new hnew => hwrites new (hp.mem_iff.mpr hnew)⟩

theorem fetch (h : Sound cached stored roles) (hwrites : ∀ r ∈ roles, r.isWrite = false) :
    Sound cached stored (.fetched stored :: roles) where
  current := fun v hv =>
    (h.current v hv).imp_right fun h => h.imp (List.mem_cons_of_mem _) (List.mem_cons_of_mem _)
  ahead := fun new hnew => by
    rcases List.mem_cons.mp hnew with hnew | hnew
    · cases hnew
    · exact h.ahead new hnew
  fetched := fun v hv => by
    have hnone : ∀ new, .writes new ∉ Role.fetched stored :: roles := by
      intro new hnew
      rcases List.mem_cons.mp hnew with hnew | hnew
      · cases hnew
      · cases hwrites _ hnew
    rcases List.mem_cons.mp hv with hv | hv
    · exact ⟨Role.fetched.inj hv, hnone⟩
    · exact ⟨(h.fetched v hv).1, hnone⟩

theorem fill {v : ν} (h : Sound cached stored (.fetched v :: roles)) :
    Sound (some v) stored roles := by
  obtain ⟨hstored, hwrites⟩ := h.fetched v List.mem_cons_self
  have hnone : ∀ new, .writes new ∉ roles := fun new hnew =>
    hwrites new (List.mem_cons_of_mem _ hnew)
  constructor
  · intro w hw
    exact Or.inl ((Option.some.inj hw).symm.trans hstored)
  · exact fun new hnew => absurd hnew (hnone new)
  · exact fun w hw => ⟨(h.fetched w (List.mem_cons_of_mem _ hw)).1, hnone⟩

theorem change (stored : ν) (new : Option ν)
    (hfetched : ∀ r ∈ roles, r.isFetched = false)
    (hwrites : new = none ∨ ∀ r ∈ roles, r.isWrite = false) :
    Sound new stored (.writes new :: roles) where
  current := fun v hv => Or.inr (Or.inl (by rw [hv]; exact List.mem_cons_self))
  ahead := fun new' hnew' v hv => by
    rcases List.mem_cons.mp hnew' with heq | hnew'
    · exact (Role.writes.inj heq).trans hv
    · rcases hwrites with hnone | hwrites
      · cases hnone.symm.trans hv
      · cases hwrites _ hnew'
  fetched := fun v hv => by
    rcases List.mem_cons.mp hv with hv | hv
    · cases hv
    · cases hfetched _ hv

theorem finish {new : Option ν} (h : Sound cached stored (.writes new :: roles)) (stored' : ν)
    (hstored' : ∀ v, new = some v → stored' = v) : Sound cached stored' roles where
  current := fun v hv => Or.inl (hstored' v (h.ahead new List.mem_cons_self v hv)).symm
  ahead := fun new' hnew' => h.ahead new' (List.mem_cons_of_mem _ hnew')
  fetched := fun v hv =>
    absurd List.mem_cons_self ((h.fetched v (List.mem_cons_of_mem _ hv)).2 new)

theorem clear (h : Sound cached stored roles) (hfetched : ∀ r ∈ roles, r.isFetched = false)
    (stored' : ν) : Sound cached stored' (.clears :: roles) where
  current := fun _ _ => Or.inr (Or.inr List.mem_cons_self)
  ahead := fun new hnew => by
    rcases List.mem_cons.mp hnew with hnew | hnew
    · cases hnew
    · exact h.ahead new hnew
  fetched := fun v hv => by
    rcases List.mem_cons.mp hv with hv | hv
    · cases hv
    · cases hfetched _ hv

theorem drop (h : Sound cached stored (.clears :: roles)) : Sound none stored roles where
  current := fun _ h => by cases h
  ahead := fun _ _ _ h => by cases h
  fetched := fun v hv => by
    obtain ⟨hstored, hwrites⟩ := h.fetched v (List.mem_cons_of_mem _ hv)
    exact ⟨hstored, fun new hnew => hwrites new (List.mem_cons_of_mem _ hnew)⟩

end Sound

end GoStream.Foundations
