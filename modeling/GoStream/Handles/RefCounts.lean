import GoStream.Handles.Steps

/-!
# The reference counts of the pumps
-/

namespace GoStream.Handles

open Foundations

def Event.Good : Event → Prop
  | .counted _ before => before = none
  | .uncounted p attached => attached = some p
  | .cancelled _ attached => attached = 0

instance (ev : Event) : Decidable ev.Good :=
  match ev with
  | .counted _ before => inferInstanceAs (Decidable (before = none))
  | .uncounted p attached => inferInstanceAs (Decidable (attached = some p))
  | .cancelled _ attached => inferInstanceAs (Decidable (attached = 0))

def RefCountsExact (r : Registry) : Prop :=
  (∀ path p, r.activePumps path = some p → r.refCount p = r.attachedTo p) ∧ ∀ ev ∈ r.log, ev.Good

def orderly (r : Registry) : Effect → Bool
  | .attach h _ _ => r.handles[h]?.all fun x => x.phase == .opened && !x.hasSlot
  | .create h _ => r.handles[h]?.all fun x => x.phase == .opened &&
      r.handles.all fun y => y.path != x.path || y.phase != .opened || !y.hasSlot
  | .beginRelease h _ => r.handles[h]?.all fun x => x.phase == .opened
  | .returnEarly h _ => r.handles[h]?.all fun x => x.phase == .opened
  | .close h => r.handles[h]?.all fun x => x.phase == .opened
  | .cancel _ p => decide (r.refCount p ≤ 0)
  | _ => true

namespace Registry

variable {r r' : Registry} {h p : ℕ} {x y : Handle}

def pathOf (r : Registry) (p : ℕ) : Option Bytes := r.pumps[p]?.map (·.path)

theorem pathOf_apply (e : Effect) {path : Bytes} (hp : r.pathOf p = some path) :
    (r.apply e).pathOf p = some path := by
  obtain ⟨ps, hps, rfl⟩ := Option.map_eq_some_iff.mp hp
  obtain ⟨ps', hps', hframe⟩ := pumpFrame_apply e hps
  rw [pathOf, hps', Option.map_some, hframe.path]

theorem refCount_set {ps ps' : NativePumpState} (hh : r'.pumps = r.pumps.set p ps')
    (hps : r.pumps[p]? = some ps) (q : ℕ) :
    r'.refCount q = if q = p then ps'.refCount else r.refCount q := by
  unfold refCount
  rw [hh]
  rcases eq_or_ne q p with rfl | hq
  · rw [List.getElem?_set_self (List.getElem?_eq_some_iff.mp hps).1, if_pos rfl]
    rfl
  · rw [List.getElem?_set_ne (Ne.symm hq), if_neg hq]

theorem refCount_set_add {ps ps' : NativePumpState} {d : ℤ} (hh : r'.pumps = r.pumps.set p ps')
    (hps : r.pumps[p]? = some ps) (hd : ps'.refCount = ps.refCount + d) (q : ℕ) :
    r'.refCount q = r.refCount q + if q = p then d else 0 := by
  rw [refCount_set hh hps]
  split_ifs with hq
  · rw [hq, refCount, hps, hd]
    rfl
  · rw [add_zero]

theorem pathOf_set {ps ps' : NativePumpState} (hh : r'.pumps = r.pumps.set p ps')
    (hps : r.pumps[p]? = some ps) (hpath : ps'.path = ps.path) (q : ℕ) :
    r'.pathOf q = r.pathOf q := by
  unfold pathOf
  rw [hh]
  rcases eq_or_ne q p with rfl | hq
  · rw [List.getElem?_set_self (List.getElem?_eq_some_iff.mp hps).1, hps, Option.map_some, hpath,
      Option.map_some]
  · rw [List.getElem?_set_ne (Ne.symm hq)]

theorem getElem?_savePosition (hx : r.handles[h]? = some x) (p : ℕ) :
    (r.savePosition h p).handles[h]? = some x := by
  rw [handles_savePosition]
  exact hx

theorem attachedTo_set (hh : r'.handles = r.handles.set h y) (hx : r.handles[h]? = some x) (p : ℕ) :
    r'.attachedTo p + (if x.isOn p then 1 else 0) =
      r.attachedTo p + (if y.isOn p then 1 else 0) := by
  unfold attachedTo
  rw [hh]
  exact countP_set_add y hx

end Registry

theorem Handle.isOn_iff {x : Handle} {p : ℕ} :
    x.isOn p = true ↔ x.phase ≠ .released ∧ x.attached = some p := decide_eq_true_iff

structure Counted (r : Registry) : Prop where
  below : ∀ p, (r.attachedTo p : ℤ) ≤ r.refCount p
  exact : ∀ path p, r.activePumps path = some p → r.refCount p = r.attachedTo p
  entries : ∀ path p, r.activePumps path = some p → r.pathOf p = some path
  attached : ∀ x ∈ r.handles, ∀ p, x.isOn p = true → r.pathOf p = some x.path
  flags : ∀ x ∈ r.handles, x.phase = .opened → (x.hasSlot = true ↔ x.attached ≠ none)
  alone : ∀ x ∈ r.handles, x.phase = .opened → ∀ p, x.attached = some p →
    r.activePumps x.path = some p ∨ r.activePumps x.path = none
  log : ∀ ev ∈ r.log, ev.Good

namespace Counted

variable {r r' : Registry} {h p : ℕ} {x y : Handle}

theorem refCountsExact (hc : Counted r) : RefCountsExact r := ⟨hc.exact, hc.log⟩

theorem congr (hc : Counted r) (hh : r'.handles = r.handles) (ha : r'.activePumps = r.activePumps)
    (hl : r'.log = r.log) (hrefs : ∀ p, r'.refCount p = r.refCount p)
    (hpaths : ∀ p, r'.pathOf p = r.pathOf p) : Counted r' := by
  have hcount : ∀ p, r'.attachedTo p = r.attachedTo p := fun p => by
    rw [Registry.attachedTo, hh, Registry.attachedTo]
  refine ⟨?_, ?_, ?_, ?_, ?_, ?_, ?_⟩
  · intro p
    rw [hcount, hrefs]
    exact hc.below p
  · intro path p
    rw [ha, hcount, hrefs]
    exact hc.exact path p
  · intro path p
    rw [ha, hpaths]
    exact hc.entries path p
  · intro x hx p
    rw [hpaths]
    exact hc.attached x (hh ▸ hx) p
  · intro x hx
    exact hc.flags x (hh ▸ hx)
  · intro x hx
    rw [ha]
    exact hc.alone x (hh ▸ hx)
  · rw [hl]
    exact hc.log

theorem savePosition (hc : Counted r) (h p : ℕ) : Counted (r.savePosition h p) := by
  unfold Registry.savePosition
  split
  · next x ps _ hps =>
    split_ifs
    · refine hc.congr rfl rfl rfl (fun q => ?_) (Registry.pathOf_set rfl hps rfl)
      rw [Registry.refCount_set_add (d := 0) rfl hps (by rw [add_zero]), ite_self, add_zero]
    · exact hc
  · exact hc

theorem remove (hc : Counted r) (path : Bytes) : Counted (r.remove path) := by
  have hentry : ∀ q p, (r.remove path).activePumps q = some p → r.activePumps q = some p := by
    intro q p hq
    rcases Registry.activePumps_remove (r := r) path q with h | h
    · rw [← h]
      exact hq
    · rw [h] at hq
      cases hq
  refine ⟨hc.below, fun q p hq => hc.exact q p (hentry q p hq),
    fun q p hq => hc.entries q p (hentry q p hq), hc.attached, hc.flags, ?_, hc.log⟩
  intro x hx hopen p hp
  rcases Registry.activePumps_remove (r := r) path x.path with h | h
  · rw [h]
    exact hc.alone x hx hopen p hp
  · exact .inr h

theorem setHandle (hc : Counted r) (hx : r.handles[h]? = some x) (hpath : y.path = x.path)
    (hopen : y.phase = .opened → x.phase = .opened) (hon : ∀ p, y.isOn p = true → x.isOn p = true)
    (hoff : ∀ p, x.isOn p = true → y.isOn p = false → ∀ path, r.activePumps path ≠ some p)
    (hflag : y.phase = .opened → (y.hasSlot = true ↔ y.attached ≠ none)) :
    Counted (r.setHandle h y) := by
  have hmem := List.mem_of_getElem? hx
  have hcount : ∀ p, (r.setHandle h y).attachedTo p + (if x.isOn p then 1 else 0) =
      r.attachedTo p + (if y.isOn p then 1 else 0) := Registry.attachedTo_set rfl hx
  refine ⟨fun p => ?_, fun path p hp => ?_, hc.entries, fun z hz p hp => ?_, fun z hz hz' => ?_,
    fun z hz hz' p hp => ?_, hc.log⟩
  · have hle : (r.setHandle h y).attachedTo p ≤ r.attachedTo p := by
      have hcount := hcount p
      cases hyp : y.isOn p with
      | false => simp only [hyp, Bool.false_eq_true, if_false] at hcount; omega
      | true => simp only [hyp, hon p hyp, if_true] at hcount; omega
    exact (Int.ofNat_le.mpr hle).trans (hc.below p)
  · have heq : (r.setHandle h y).attachedTo p = r.attachedTo p := by
      have hcount := hcount p
      have hsame : x.isOn p = y.isOn p := by
        cases hyp : y.isOn p with
        | true => exact hon p hyp
        | false =>
          by_contra hxp
          exact hoff p (by simpa using hxp) hyp path hp
      rw [hsame] at hcount
      exact Nat.add_right_cancel hcount
    rw [heq]
    exact hc.exact path p hp
  · rcases List.mem_or_eq_of_mem_set hz with hz | rfl
    · exact hc.attached z hz p hp
    · rw [hpath]
      exact hc.attached x hmem p (hon p hp)
  · rcases List.mem_or_eq_of_mem_set hz with hz | rfl
    · exact hc.flags z hz hz'
    · exact hflag hz'
  · rcases List.mem_or_eq_of_mem_set hz with hz | rfl
    · exact hc.alone z hz hz' p hp
    · have hisOn : x.isOn p = true := hon p (Handle.isOn_iff.mpr ⟨by rw [hz']; nofun, hp⟩)
      rw [hpath]
      exact hc.alone x hmem (hopen hz') p (Handle.isOn_iff.mp hisOn).2

theorem attached_eq_none (hc : Counted r) (hx : r.handles[h]? = some x)
    (hopen : x.phase = .opened) (hslot : x.hasSlot = false) : x.attached = none := by
  by_contra hne
  have := (hc.flags x (List.mem_of_getElem? hx) hopen).mpr hne
  rw [hslot] at this
  cases this

theorem attachedTo_eq_zero (hc : Counted r) (hp : r.pathOf p = none) : r.attachedTo p = 0 := by
  refine List.countP_eq_zero.mpr fun x hx hon => ?_
  have := hc.attached x hx p hon
  rw [hp] at this
  cases this

theorem openHandle (hc : Counted r) (path hash : Bytes) : Counted (r.openHandle path hash) := by
  have hcount : ∀ p, (r.openHandle path hash).attachedTo p = r.attachedTo p := by
    intro p
    simp [Registry.attachedTo, Registry.openHandle, Handle.isOn]
  refine ⟨fun p => ?_, fun q p hp => ?_, hc.entries, fun x hx => ?_, fun x hx => ?_, fun x hx => ?_,
    hc.log⟩
  · rw [hcount]
    exact hc.below p
  · rw [hcount]
    exact hc.exact q p hp
  · rcases List.mem_append.mp hx with hx | hx
    · exact hc.attached x hx
    · rw [List.mem_singleton.mp hx]
      intro p hp
      cases (Handle.isOn_iff.mp hp).2
  · rcases List.mem_append.mp hx with hx | hx
    · exact hc.flags x hx
    · rw [List.mem_singleton.mp hx]
      simp
  · rcases List.mem_append.mp hx with hx | hx
    · exact hc.alone x hx
    · rw [List.mem_singleton.mp hx]
      nofun

theorem count (hc : Counted r) (hh : r'.handles = r.handles.set h y)
    (hl : r'.log = .counted p x.attached :: r.log) (hx : r.handles[h]? = some x)
    (hopen : x.phase = .opened) (hslot : x.hasSlot = false) (hpath : y.path = x.path)
    (hy : y.phase = .opened) (hyslot : y.hasSlot = true) (hyp : y.attached = some p)
    (hrefs : ∀ q, r'.refCount q = r.refCount q + if q = p then 1 else 0)
    (hpaths : ∀ q path, r.pathOf q = some path → r'.pathOf q = some path)
    (hnew : r'.pathOf p = some x.path)
    (hentries : ∀ path q, r'.activePumps path = some q → r.activePumps path = some q ∨
      q = p ∧ path = x.path ∧ r.refCount p = r.attachedTo p)
    (halone : ∀ z ∈ r.handles, z.phase = .opened → ∀ q, z.attached = some q →
      r'.activePumps z.path = some q ∨ r'.activePumps z.path = none)
    (hself : r'.activePumps x.path = some p ∨ r'.activePumps x.path = none) : Counted r' := by
  have hnone := hc.attached_eq_none hx hopen hslot
  have hcount : ∀ q, r'.attachedTo q = r.attachedTo q + if q = p then 1 else 0 := by
    intro q
    have hxq : x.isOn q = false := by simp [Handle.isOn, hnone]
    have hyq : y.isOn q = decide (q = p) := by simp [Handle.isOn, hy, hyp, eq_comm]
    have := Registry.attachedTo_set hh hx q
    simpa [hxq, hyq] using this
  refine ⟨fun q => ?_, fun path q hq => ?_, fun path q hq => ?_, fun z hz => ?_, fun z hz => ?_,
    fun z hz => ?_, fun ev hev => ?_⟩
  · have := hc.below q
    rw [hcount, hrefs]
    split_ifs <;> push_cast <;> omega
  · rw [hcount, hrefs]
    rcases hentries path q hq with hq | ⟨rfl, _, heq⟩
    · rw [hc.exact path q hq]
      split_ifs <;> rfl
    · rw [heq]
      simp
  · rcases hentries path q hq with hq | ⟨rfl, rfl, _⟩
    · exact hpaths q path (hc.entries path q hq)
    · exact hnew
  · rcases List.mem_or_eq_of_mem_set (hh ▸ hz) with hz | rfl
    · exact fun q hq => hpaths q _ (hc.attached z hz q hq)
    · intro q hq
      obtain rfl := Option.some.inj (hyp.symm.trans (Handle.isOn_iff.mp hq).2)
      rw [hpath]
      exact hnew
  · rcases List.mem_or_eq_of_mem_set (hh ▸ hz) with hz | rfl
    · exact hc.flags z hz
    · simp [hyslot, hyp]
  · rcases List.mem_or_eq_of_mem_set (hh ▸ hz) with hz | rfl
    · exact halone z hz
    · intro _ q hq
      obtain rfl := Option.some.inj (hyp.symm.trans hq)
      rw [hpath]
      exact hself
  · rw [hl] at hev
    rcases List.mem_cons.mp hev with rfl | hev
    · exact hnone
    · exact hc.log ev hev

theorem attach (hc : Counted r) (hx : r.handles[h]? = some x) (hopen : x.phase = .opened)
    (hslot : x.hasSlot = false) (hpath : r.pathOf p = some x.path)
    (hentry : r.activePumps x.path = some p ∨ r.activePumps x.path = none) (inherit : Bool) :
    Counted (r.attach h p inherit) := by
  have hpaths := fun q path => @Registry.pathOf_apply r q (.attach h p inherit) path
  obtain ⟨ps, hps, _⟩ := Option.map_eq_some_iff.mp hpath
  simp only [Registry.apply, Registry.attach, hx, hps] at hpaths ⊢
  exact hc.count rfl rfl hx hopen hslot rfl hopen rfl rfl (Registry.refCount_set_add rfl hps rfl)
    hpaths (hpaths p x.path hpath) (fun path q hq => .inl hq) hc.alone hentry

theorem create (hc : Counted r) (hx : r.handles[h]? = some x) (hopen : x.phase = .opened)
    (hflags : ∀ z ∈ r.handles, z.path = x.path → z.phase = .opened → z.hasSlot = false)
    (primary : Bool) : Counted (r.create h primary) := by
  have hslot := hflags x (List.mem_of_getElem? hx) rfl hopen
  have hpaths := fun q path => @Registry.pathOf_apply r q (.create h primary) path
  -- the new pump is one that nobody knows
  have hfresh : r.pathOf r.pumps.length = none := by simp [Registry.pathOf]
  have hnew : ∀ q, q = r.pumps.length ∨ (r.pumps ++ [⟨1, x.path, 0, h⟩])[q]? = r.pumps[q]? := by
    intro q
    rcases lt_trichotomy q r.pumps.length with hq | hq | hq
    · exact .inr (List.getElem?_append_left hq)
    · exact .inl hq
    · refine .inr ?_
      rw [List.getElem?_eq_none (by simp; omega), List.getElem?_eq_none (by omega)]
  simp only [Registry.apply, Registry.create, hx] at hpaths ⊢
  refine hc.count rfl rfl hx hopen hslot rfl hopen rfl rfl (fun q => ?_) hpaths ?_ ?_ ?_ ?_
  · rcases hnew q with rfl | hq
    · simp [Registry.refCount]
    · have hne : q ≠ r.pumps.length := by
        rintro rfl
        simp at hq
      rw [Registry.refCount, hq, if_neg hne, add_zero]
      rfl
  · simp [Registry.pathOf]
  · intro path q hq
    dsimp only at hq
    rcases eq_or_ne path x.path with rfl | hne
    · rw [Function.update_self] at hq
      refine .inr ⟨(Option.some.inj hq).symm, rfl, ?_⟩
      rw [hc.attachedTo_eq_zero hfresh]
      simp [Registry.refCount]
    · rw [Function.update_of_ne hne] at hq
      exact .inl hq
  · intro z hz hopen q hq
    rcases eq_or_ne z.path x.path with hzx | hne
    · have hslot := hflags z hz hzx hopen
      have hnone := hc.flags z hz hopen
      rw [hslot, hq] at hnone
      simp at hnone
    · dsimp only
      rw [Function.update_of_ne hne]
      exact hc.alone z hz hopen q hq
  · exact .inl (Function.update_self _ _ _)

theorem uncount (hc : Counted r) (hh : r'.handles = r.handles.set h y)
    (ha : r'.activePumps = r.activePumps) (hl : r'.log = .uncounted p x.attached :: r.log)
    (hx : r.handles[h]? = some x) (hxp : x.isOn p = true) (hy : y.phase = .released)
    (hrefs : ∀ q, r'.refCount q = r.refCount q + if q = p then -1 else 0)
    (hpaths : ∀ q path, r.pathOf q = some path → r'.pathOf q = some path) : Counted r' := by
  have hcount : ∀ q, r'.attachedTo q + (if q = p then 1 else 0) = r.attachedTo q := by
    intro q
    have hxq : x.isOn q = decide (q = p) := by
      obtain ⟨hphase, hattached⟩ := Handle.isOn_iff.mp hxp
      simp [Handle.isOn, hphase, hattached, eq_comm]
    have hyq : y.isOn q = false := by simp [Handle.isOn, hy]
    have := Registry.attachedTo_set hh hx q
    simpa [hxq, hyq] using this
  have hold : ∀ z ∈ r'.handles, z ∈ r.handles ∨ z.phase = .released := by
    intro z hz
    rcases List.mem_or_eq_of_mem_set (hh ▸ hz) with hz | rfl
    · exact .inl hz
    · exact .inr hy
  refine ⟨fun q => ?_, fun path q hq => ?_, fun path q hq => ?_, fun z hz q hq => ?_,
    fun z hz hz' => ?_, fun z hz hz' => ?_, fun ev hev => ?_⟩
  · have hle := hc.below q
    have := hcount q
    rw [hrefs]
    split_ifs at this ⊢ <;> omega
  · have heq := hc.exact path q (ha ▸ hq)
    have := hcount q
    rw [hrefs]
    split_ifs at this ⊢ <;> omega
  · exact hpaths q path (hc.entries path q (ha ▸ hq))
  · rcases hold z hz with hz | hz
    · exact hpaths q _ (hc.attached z hz q hq)
    · exact absurd hz (Handle.isOn_iff.mp hq).1
  · rcases hold z hz with hz | hz
    · exact hc.flags z hz hz'
    · rw [hz] at hz'
      cases hz'
  · rcases hold z hz with hz | hz
    · rw [ha]
      exact hc.alone z hz hz'
    · rw [hz] at hz'
      cases hz'
  · rw [hl] at hev
    rcases List.mem_cons.mp hev with rfl | hev
    · exact (Handle.isOn_iff.mp hxp).2
    · exact hc.log ev hev

theorem decrement (hc : Counted r) (hx : r.handles[h]? = some x) (hxp : x.isOn p = true) :
    Counted (r.decrement h p) := by
  have hpath := hc.attached x (List.mem_of_getElem? hx) p hxp
  have hpaths := fun q path => @Registry.pathOf_apply r q (.decrement h p) path
  obtain ⟨ps, hps, _⟩ := Option.map_eq_some_iff.mp hpath
  simp only [Registry.apply, Registry.decrement, hx, hps] at hpaths ⊢
  exact hc.uncount rfl rfl rfl hx hxp rfl (Registry.refCount_set_add rfl hps rfl) hpaths

theorem cancel (hc : Counted r) (hzero : r.refCount p ≤ 0) (path : Bytes) :
    Counted (r.cancel path p) := by
  have hr := hc.remove path
  refine ⟨hr.below, hr.exact, hr.entries, hr.attached, hr.flags, hr.alone, fun ev hev => ?_⟩
  rcases List.mem_cons.mp hev with rfl | hev
  · have := hc.below p
    show r.attachedTo p = 0
    omega
  · exact hr.log ev hev

theorem endPump (hc : Counted r) {ps : NativePumpState} {c : Handle} {registered : Bool}
    (hps : r.pumps[p]? = some ps) (hcreator : r.handles[ps.creator]? = some c)
    (hattached : c.phase ≠ .released → c.attached = some p)
    (hgone : registered = false → r.activePumps ps.path ≠ some p) :
    Counted (r.endPump p registered) := by
  simp only [Registry.endPump, hps]
  have hc' : Counted (if registered then r.remove ps.path else r) := by
    split_ifs
    · exact hc.remove ps.path
    · exact hc
  have hcreator' : (if registered then r.remove ps.path else r).handles[ps.creator]? = some c := by
    split_ifs <;> exact hcreator
  have hpath : r.pathOf p = some ps.path := by simp [Registry.pathOf, hps]
  -- after that the pump has no entry
  have hgone' : ∀ path, (if registered then r.remove ps.path else r).activePumps path ≠ some p := by
    intro path hentry
    cases registered with
    | true =>
      simp only [if_true] at hentry
      have hp := (hc.remove ps.path).entries path p hentry
      obtain rfl := Option.some.inj (hpath.symm.trans hp)
      simp [Registry.remove] at hentry
    | false =>
      have hp := hc.entries path p hentry
      obtain rfl := Option.some.inj (hpath.symm.trans hp)
      exact hgone rfl hentry
  rw [Registry.modify, hcreator']
  refine hc'.setHandle hcreator' rfl (fun h => h) (fun q hq => ?_) (fun q hq hnot => ?_) fun hopen => ?_
  · obtain ⟨hphase, hattached⟩ := Handle.isOn_iff.mp hq
    dsimp only at hphase hattached
    split_ifs at hattached
    exact Handle.isOn_iff.mpr ⟨hphase, hattached⟩
  · obtain ⟨hphase, hq⟩ := Handle.isOn_iff.mp hq
    obtain rfl := Option.some.inj ((hattached hphase).symm.trans hq)
    exact hgone'
  · dsimp only at hopen ⊢
    have hon := hattached (by simp [hopen])
    simp [hopen, hon]

theorem leave (hc : Counted r) (hx : r.handles[h]? = some x) (hpath : y.path = x.path)
    (hy : y.phase = .released)
    (hoff : ∀ p, x.attached = some p → r.activePumps x.path ≠ some p) :
    Counted (r.setHandle h y) := by
  have hmem := List.mem_of_getElem? hx
  refine hc.setHandle hx hpath (fun h => ?_) (fun p hp => ?_) (fun p hp _ path hentry => ?_)
    fun h => ?_
  · rw [hy] at h
    cases h
  · exact absurd hy (Handle.isOn_iff.mp hp).1
  · obtain rfl := Option.some.inj ((hc.attached x hmem p hp).symm.trans (hc.entries path p hentry))
    exact hoff p (Handle.isOn_iff.mp hp).2 hentry
  · rw [hy] at h
    cases h

theorem keep (hc : Counted r) (hx : r.handles[h]? = some x) (hpath : y.path = x.path)
    (hon : ∀ p, y.isOn p = x.isOn p) (hopen : y.phase = .opened → x.phase = .opened)
    (hflag : y.phase = .opened → y.hasSlot = x.hasSlot ∧ y.attached = x.attached) :
    Counted (r.setHandle h y) := by
  refine hc.setHandle hx hpath hopen (fun p hp => ?_) (fun p hp hnot => ?_) fun hy => ?_
  · rw [← hon]
    exact hp
  · rw [hon, hp] at hnot
    cases hnot
  · rw [(hflag hy).1, (hflag hy).2]
    exact hc.flags x (List.mem_of_getElem? hx) (hopen hy)

theorem modify (hc : Counted r) {f : Handle → Handle} (hpath : ∀ x, (f x).path = x.path)
    (hphase : ∀ x, (f x).phase = x.phase) (hslot : ∀ x, (f x).hasSlot = x.hasSlot)
    (hattached : ∀ x, (f x).attached = x.attached) : Counted (r.modify h f) := by
  unfold Registry.modify
  split
  · next x hx =>
    refine hc.keep hx (hpath x) (fun p => ?_) (fun h => (hphase x).symm.trans h) fun _ =>
      ⟨hslot x, hattached x⟩
    rw [Handle.isOn, Handle.isOn, hphase, hattached]
  · exact hc

end Counted

def CreatorOn (r : Registry) (p : ℕ) : Prop :=
  ∃ ps c, r.pumps[p]? = some ps ∧ r.handles[ps.creator]? = some c ∧
    (c.phase ≠ .released → c.attached = some p)

def Loaded (r : Registry) (h p : ℕ) : Prop :=
  ∃ x, r.handles[h]? = some x ∧ r.pathOf p = some x.path ∧
    (r.activePumps x.path = some p ∨ r.activePumps x.path = none)

def Fits (r : Registry) : Thread → Prop
  | .startFound h p => Loaded r h p
  | .readFound h p => Loaded r h p
  | .releaseFound h p => ∃ x, r.handles[h]? = some x ∧ x.attached = some p
  | .pumpStart p => CreatorOn r p
  | .pumpRunning p => CreatorOn r p
  | .pumpEnding p registered => CreatorOn r p ∧
      (registered = false → ∀ path, r.activePumps path ≠ some p)
  | _ => True

theorem releasesOpen_of_orderly {r : Registry} {e : Effect} (ho : orderly r e = true) :
    ReleasesOpen r e := by
  intro h x hcalls hx
  cases e with
  | beginRelease h' p | returnEarly h' p | close h' =>
    obtain rfl := Option.some.inj hcalls
    simpa [orderly, hx] using ho
  | _ => cases hcalls

theorem Counted.attached_of_countsUp {r : Registry} {e : Effect} (hc : Counted r)
    (ho : orderly r e = true) {h : ℕ} {x : Handle} (hx : r.handles[h]? = some x)
    (hcounts : e.countsUp = some h) : x.phase = .opened ∧ x.attached = none := by
  cases e with
  | attach h' p inherit =>
    obtain rfl := Option.some.inj hcounts
    obtain ⟨hopen, hslot⟩ : x.phase = .opened ∧ x.hasSlot = false := by
      simpa [orderly, hx] using ho
    exact ⟨hopen, hc.attached_eq_none hx hopen hslot⟩
  | create h' primary =>
    obtain rfl := Option.some.inj hcounts
    simp only [orderly, hx, Option.all_some, Bool.and_eq_true, beq_iff_eq, List.all_eq_true] at ho
    have hslot := ho.2 x (List.mem_of_getElem? hx)
    rw [ho.1] at hslot
    exact ⟨ho.1, hc.attached_eq_none hx ho.1 (by simpa using hslot)⟩
  | _ => cases hcounts

theorem CreatorOn.apply {r : Registry} {e : Effect} {p : ℕ} (hon : CreatorOn r p) (hc : Counted r)
    (ho : orderly r e = true) (hne : ∀ registered, e ≠ .endPump p registered) :
    CreatorOn (r.apply e) p := by
  obtain ⟨ps, c, hps, hcreator, hattached⟩ := hon
  obtain ⟨ps', hps', hpump⟩ := Registry.pumpFrame_apply e hps
  obtain ⟨c', hc', hframe⟩ := Registry.frame_apply e hcreator
  refine ⟨ps', c', hps', hpump.creator ▸ hc', fun hphase => ?_⟩
  have hunreleased : c.phase ≠ .released := by
    by_cases hcalls : e.calls = some ps.creator
    · rw [releasesOpen_of_orderly ho _ c hcalls hcreator]
      nofun
    · exact hframe.unreleased hcalls hphase
  have hcp := hattached hunreleased
  have hcounts : e.countsUp ≠ some ps.creator := by
    intro hcounts
    have := (hc.attached_of_countsUp ho hcreator hcounts).2
    rw [hcp] at this
    cases this
  rcases hframe.attached hcounts hphase with heq | ⟨_, q, registered, he, hcq⟩
  · rw [heq, hcp]
  · obtain rfl := Option.some.inj (hcp.symm.trans hcq)
    exact absurd he (hne registered)

theorem creatorOn_create {r : Registry} {h : ℕ} {x : Handle} (hx : r.handles[h]? = some x)
    (primary : Bool) : CreatorOn (r.create h primary) r.pumps.length := by
  simp only [Registry.create, hx]
  exact ⟨⟨1, x.path, 0, h⟩, _, by simp, (Registry.getElem?_set_handles hx).trans (if_pos rfl),
    fun _ => rfl⟩

theorem Loaded.apply {r : Registry} {e : Effect} {h p : ℕ} (hl : Loaded r h p)
    (hne : ∀ h primary, e ≠ .create h primary) : Loaded (r.apply e) h p := by
  obtain ⟨x, hx, hpath, hentry⟩ := hl
  obtain ⟨y, hy, hframe⟩ := Registry.frame_apply e hx
  refine ⟨y, hy, ?_, ?_⟩
  · rw [hframe.path]
    exact Registry.pathOf_apply e hpath
  · rw [hframe.path]
    rcases Registry.activePumps_apply hne x.path with heq | heq
    · rw [heq]
      exact hentry
    · exact .inr heq

theorem fits_of_key_eq_none {r : Registry} {t : Thread} (ht : t.key = none) : Fits r t := by
  cases t <;> first | exact trivial | cases ht

namespace System

structure Exact (s : System) : Prop where
  discipline : Discipline s
  counted : Counted s.registry
  fits : ∀ t ∈ s.threads, Fits s.registry t

variable {limit : ℕ} {s : System} {op : Op}

theorem counted_empty : Counted .empty where
  below := fun _ => le_rfl
  exact := fun _ _ h => by cases h
  entries := fun _ _ h => by cases h
  attached := fun _ hx => absurd hx List.not_mem_nil
  flags := fun _ hx => absurd hx List.not_mem_nil
  alone := fun _ hx => absurd hx List.not_mem_nil
  log := fun _ hev => absurd hev List.not_mem_nil

theorem exact_start : Exact start :=
  ⟨discipline_start, counted_empty, fun _ ht => absurd ht List.not_mem_nil⟩

theorem Exact.counted_step (hs : Exact s) (ho : orderly s.registry (s.plan limit op).effect = true) :
    Counted (s.registry.apply (s.plan limit op).effect) := by
  have hdoes := @does_plan limit s op
  have hc := hs.counted
  generalize (s.plan limit op).effect = e, (s.plan limit op).lock = lock,
    (s.plan limit op).next = next at *
  cases hdoes with
  | quiet he =>
    cases e with
    | nothing => exact hc
    | openHandle path hash => exact hc.openHandle path hash
    | once h | resolve h hash =>
      exact hc.modify (fun _ => rfl) (fun _ => rfl) (fun _ => rfl) fun _ => rfl
    | remove path => exact hc.remove path
    | _ => cases he
  | find | ending => exact hc
  | @attach h p inherit _ hmoved =>
    have hloaded : Loaded s.registry h p := by
      rcases hmoved with hmoved | hmoved
      · exact hs.fits _ (mem_threads_of_moved hmoved)
      · exact hs.fits _ (mem_threads_of_moved hmoved)
    obtain ⟨x, hx, hpath, hentry⟩ := hloaded
    obtain ⟨hopen, hslot⟩ : x.phase = .opened ∧ x.hasSlot = false := by
      simpa [orderly, hx] using ho
    exact hc.attach hx hopen hslot hpath hentry inherit
  | @create h x primary _ _ hx =>
    simp only [orderly, hx, Option.all_some, Bool.and_eq_true, beq_iff_eq, List.all_eq_true] at ho
    refine hc.create hx ho.1 (fun z hz hpath hopen => ?_) primary
    have := ho.2 z hz
    rw [hpath, hopen] at this
    simpa using this
  | @beginRelease h p x hx =>
    have hopen : x.phase = .opened := by simpa [orderly, hx] using ho
    have hx' := Registry.getElem?_savePosition hx p
    simp only [Registry.apply, Registry.beginRelease, Registry.modify, hx']
    refine (hc.savePosition h p).keep hx' rfl (fun q => ?_) (fun hy => ?_) fun hy => ?_
    · simp [Handle.isOn, hopen]
    · cases hy
    · cases hy
  | @returnEarly h p x hx hentry hslot =>
    have hopen : x.phase = .opened := by simpa [orderly, hx] using ho
    have hx' := Registry.getElem?_savePosition hx p
    simp only [Registry.apply, Registry.returnEarly, Registry.modify, hx']
    refine (hc.savePosition h p).leave hx' rfl rfl fun q hq => ?_
    rw [hc.attached_eq_none hx hopen hslot] at hq
    cases hq
  | @close h x hx hentry =>
    simp only [Registry.apply, Registry.close, Registry.modify, hx]
    refine hc.leave hx rfl rfl fun q _ hq => ?_
    rw [hentry] at hq
    cases hq
  | @decrement h p hmoved =>
    have hmem := mem_threads_of_moved hmoved
    obtain ⟨x, hx, hxp⟩ := hs.fits _ hmem
    obtain ⟨x', hx', hphase⟩ := hs.discipline.releasing _ hmem h rfl
    obtain rfl := Option.some.inj (hx.symm.trans hx')
    exact hc.decrement hx (Handle.isOn_iff.mpr ⟨by simp [hphase], hxp⟩)
  | run => exact hc.modify (fun _ => rfl) (fun _ => rfl) (fun _ => rfl) fun _ => rfl
  | ended hmoved =>
    obtain ⟨⟨ps, c, hps, hcreator, hattached⟩, hgone⟩ := hs.fits _ (mem_threads_of_moved hmoved)
    exact hc.endPump hps hcreator hattached fun hreg => hgone hreg ps.path
  | cancel => exact hc.cancel (by simpa [orderly] using ho) _

theorem gone_apply {r : Registry} {e : Effect} {p : ℕ} (hp : p < r.pumps.length)
    (hgone : ∀ path, r.activePumps path ≠ some p) (path : Bytes) :
    (r.apply e).activePumps path ≠ some p := by
  by_cases hcreate : ∃ h primary, e = .create h primary
  · obtain ⟨h, primary, rfl⟩ := hcreate
    simp only [Registry.apply, Registry.create]
    split
    · next x _ =>
      dsimp only
      rcases eq_or_ne path x.path with rfl | hpath
      · rw [Function.update_self]
        intro heq
        have := Option.some.inj heq
        omega
      · rw [Function.update_of_ne hpath]
        exact hgone path
    · exact hgone path
  · rcases Registry.activePumps_apply (fun h primary he => hcreate ⟨h, primary, he⟩) path with h | h
    · rw [h]
      exact hgone path
    · intro hentry
      rw [h] at hentry
      cases hentry

theorem Exact.fits_others (hs : Exact s) (ho : orderly s.registry (s.plan limit op).effect = true)
    {u : Thread} (hu : u ∈ s.others op) :
    Fits (s.registry.apply (s.plan limit op).effect) u := by
  have hdoes := @does_plan limit s op
  have hmem := mem_threads_of_mem_others hu
  have hfits := hs.fits u hmem
  have hlock : u.key = some .lock →
      ∀ h primary, (s.plan limit op).effect ≠ .create h primary := by
    intro hkey h primary he
    rw [he] at hdoes
    exact hs.discipline.unlocked (lock_of_create hdoes) u hmem hkey
  have hpump : ∀ p, u.key = some (.pump p) →
      ∀ registered, (s.plan limit op).effect ≠ .endPump p registered := by
    intro p hkey registered he
    rw [he] at hdoes
    exact hs.discipline.others.2 (.pump p) (by rw [moved_of_endPump hdoes]; rfl) u hu hkey
  cases u with
  | startFound h p | readFound h p => exact Loaded.apply hfits (hlock rfl)
  | releaseFound h p =>
    obtain ⟨x, hx, hxp⟩ := hfits
    obtain ⟨x', hx', hphase⟩ := hs.discipline.releasing _ hmem h rfl
    obtain rfl := Option.some.inj (hx.symm.trans hx')
    obtain ⟨y, hy, hframe⟩ := Registry.frame_apply (s.plan limit op).effect hx
    have hphases := hs.discipline.phases_ne (releasesOpen_of_orderly ho) hu rfl
    refine ⟨y, hy, ?_⟩
    have hcounts : (s.plan limit op).effect.countsUp ≠ some h := by
      intro hcounts
      have := (hs.counted.attached_of_countsUp ho hx hcounts).2
      rw [hxp] at this
      cases this
    have hy' : y.phase ≠ .released := by
      rw [hframe.phase hphases, hphase]
      nofun
    rcases hframe.attached hcounts hy' with heq | ⟨hopen, _⟩
    · rw [heq, hxp]
    · rw [hphase] at hopen
      cases hopen
  | pumpStart p | pumpRunning p => exact CreatorOn.apply hfits hs.counted ho (hpump p rfl)
  | pumpEnding p registered =>
    refine ⟨hfits.1.apply hs.counted ho (hpump p rfl), fun hreg => ?_⟩
    exact gone_apply (hs.discipline.pumps _ hmem p rfl) (hfits.2 hreg)
  | _ => exact trivial

theorem Exact.fits_next (hs : Exact s) (ho : orderly s.registry (s.plan limit op).effect = true) :
    ∀ t ∈ (s.plan limit op).next, Fits (s.registry.apply (s.plan limit op).effect) t := by
  have hdoes := @does_plan limit s op
  have hc := hs.counted
  generalize (s.plan limit op).effect = e, (s.plan limit op).lock = lock,
    (s.plan limit op).next = next at *
  cases hdoes with
  | quiet _ _ hnext | attach _ hnext => exact fun t ht => fits_of_key_eq_none (hnext t ht)
  | find ht _ hx hentry =>
    intro t' ht'
    have hloaded : Loaded s.registry _ _ := ⟨_, hx, hc.entries _ _ hentry, .inl hentry⟩
    rw [List.mem_singleton.mp ht']
    rcases ht with rfl | rfl
    · exact hloaded
    · exact hloaded
  | @create h x primary _ _ hx _ hnext =>
    intro t ht
    rcases List.mem_cons.mp ht with rfl | ht
    · exact creatorOn_create hx primary
    · exact fits_of_key_eq_none (hnext t ht)
  | @beginRelease h p x hx hentry hslot =>
    have hopen : x.phase = .opened := by simpa [orderly, hx] using ho
    have hmem := List.mem_of_getElem? hx
    intro t ht
    rw [List.mem_singleton.mp ht]
    refine ⟨_, Registry.getElem?_beginRelease hx, ?_⟩
    obtain ⟨q, hq⟩ := Option.ne_none_iff_exists'.mp ((hc.flags x hmem hopen).mp hslot)
    rcases hc.alone x hmem hopen q hq with h | h
    · obtain rfl := Option.some.inj (h.symm.trans hentry)
      exact hq
    · rw [hentry] at h
      cases h
  | run hmoved =>
    intro t ht
    rw [List.mem_singleton.mp ht]
    exact CreatorOn.apply (hs.fits _ (mem_threads_of_moved hmoved)) hc ho nofun
  | @ending p ps hmoved hps =>
    intro t ht
    rw [List.mem_singleton.mp ht]
    refine ⟨hs.fits _ (mem_threads_of_moved hmoved), fun hreg path hentry => ?_⟩
    have hpath : s.registry.pathOf p = some ps.path := by simp [Registry.pathOf, hps]
    obtain rfl := Option.some.inj (hpath.symm.trans (hc.entries path p hentry))
    exact of_decide_eq_false hreg hentry
  | _ => nofun

theorem exact_step (s : System) (op : Op) (hs : Exact s)
    (ho : orderly s.registry (s.plan limit op).effect = true) : Exact (s.step limit op) := by
  refine ⟨discipline_step hs.discipline (releasesOpen_of_orderly ho), hs.counted_step ho, ?_⟩
  intro t ht
  rcases List.mem_append.mp ht with ht | ht
  · exact hs.fits_others ho ht
  · exact hs.fits_next ho t ht

/-- The counts are those of the attached open handles. -/
theorem refCounts_exact (limit : ℕ) (ops : List Op)
    (h : Meets (fun s op => orderly s.registry (s.plan limit op).effect = true) (step limit)
      start ops) :
    ∀ pre, pre <+: ops → RefCountsExact (run (step limit) start pre).registry :=
  Meets.good exact_step (fun _ hs => hs.counted.refCountsExact) ops exact_start h

theorem refCounts_exact_shared :
    let ops := openAndStart [97] [98] ++
      [.openFile [97] [98], .start 1 true, .advance 1 plain, .advance 1 plain,
        .release 0, .advance 1 plain, .release 1, .advance 1 plain,
        .timer [97], .advance 1 plain, .advance 1 plain]
    (run (step 10) start ops).registry.log =
        [.cancelled 0 0, .uncounted 0 (some 0), .uncounted 0 (some 0), .counted 0 none,
          .counted 0 none] ∧
      RefCountsExact (run (step 10) start ops).registry :=
  ⟨by decide +kernel, refCounts_exact 10 _ (by decide +kernel) _ (List.prefix_refl _)⟩

theorem refCounts_not_exact : ¬ ∀ (limit : ℕ) (ops : List Op),
    RefCountsExact (run (step limit) start ops).registry := by
  intro h
  have hexact := (h 10 (openAndStart [97] [98] ++
    [.openFile [97] [98], .start 1 true, .advance 1 plain, .advance 1 plain,
      .stop [97], .advance 1 plain,
      .openFile [97] [98], .start 2 true, .advance 1 plain, .advance 1 plain, .advance 1 plain,
      .release 1, .advance 2 plain])).1 [97] 1 (by decide +kernel)
  exact absurd hexact (by decide +kernel)

end System

end GoStream.Handles
