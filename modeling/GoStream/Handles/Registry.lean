import GoStream.Foundations.Disk

/-!
# Open handles and their pumps
-/

namespace GoStream.Handles

open Foundations

structure OpenTracker where
  byHash : Bytes → ℤ
  byPath : Bytes → ℤ

namespace OpenTracker

def new : OpenTracker := ⟨fun _ => 0, fun _ => 0⟩

def incAt (counts : Bytes → ℤ) (key : Bytes) : Bytes → ℤ :=
  if key = [] then counts else Function.update counts key (counts key + 1)

theorem incAt_nil (counts : Bytes → ℤ) (key : Bytes) : incAt counts key [] = counts [] := by
  unfold incAt
  split_ifs with h
  · rfl
  · exact Function.update_of_ne (Ne.symm h) _ _

theorem incAt_self (counts : Bytes → ℤ) {key : Bytes} (h : key ≠ []) :
    incAt counts key key = counts key + 1 := by
  simp [incAt, h]

theorem incAt_of_ne (counts : Bytes → ℤ) {key k : Bytes} (h : k ≠ key) :
    incAt counts key k = counts k := by
  unfold incAt
  split_ifs
  · rfl
  · exact Function.update_of_ne h _ _

def decAt (counts : Bytes → ℤ) (key : Bytes) : Bytes → ℤ :=
  if key = [] then counts
  else Function.update counts key (if counts key ≤ 1 then 0 else counts key - 1)

theorem decAt_nil (counts : Bytes → ℤ) (key : Bytes) : decAt counts key [] = counts [] := by
  unfold decAt
  split_ifs with h
  · rfl
  all_goals exact Function.update_of_ne (Ne.symm h) _ _

theorem decAt_self {counts : Bytes → ℤ} {key : Bytes} (h : key ≠ []) (hpos : 1 ≤ counts key) :
    decAt counts key key = counts key - 1 := by
  simp only [decAt, h, if_false, Function.update_self]
  split_ifs <;> omega

theorem decAt_of_ne (counts : Bytes → ℤ) {key k : Bytes} (h : k ≠ key) :
    decAt counts key k = counts k := by
  unfold decAt
  split_ifs
  · rfl
  all_goals exact Function.update_of_ne h _ _

variable (t : OpenTracker)

def inc (hash path : Bytes) : OpenTracker := ⟨incAt t.byHash hash, incAt t.byPath path⟩

def dec (hash path : Bytes) : OpenTracker := ⟨decAt t.byHash hash, decAt t.byPath path⟩

def countByHash (hash : Bytes) : ℤ := t.byHash hash

def countByPath (path : Bytes) : ℤ := t.byPath path

end OpenTracker

inductive Phase where
  | opened
  | releasing
  | released
  deriving DecidableEq, Repr

structure Handle where
  path : Bytes
  hash : Bytes
  pumpOnce : Bool
  hasSlot : Bool
  isPrimaryHandle : Bool
  hasReader : Bool
  lastOff : ℤ
  phase : Phase
  attached : Option ℕ
  counted : Option Bytes
  deriving DecidableEq, Repr

def Handle.isOn (p : ℕ) (x : Handle) : Bool := decide (x.phase ≠ .released ∧ x.attached = some p)

structure NativePumpState where
  refCount : ℤ
  path : Bytes
  playerOff : ℤ
  creator : ℕ
  deriving DecidableEq, Repr

inductive Event where
  | counted (pump : ℕ) (before : Option ℕ)
  | uncounted (pump : ℕ) (attached : Option ℕ)
  | cancelled (pump : ℕ) (attached : ℕ)
  deriving DecidableEq, Repr

structure Registry where
  handles : List Handle
  pumps : List NativePumpState
  activePumps : Bytes → Option ℕ
  tracker : OpenTracker
  log : List Event

namespace Registry

def empty : Registry := ⟨[], [], fun _ => none, .new, []⟩

variable (r : Registry)

def refCount (p : ℕ) : ℤ := (r.pumps[p]?.map (·.refCount)).getD 0

def attachedTo (p : ℕ) : ℕ := r.handles.countP (·.isOn p)

def openHandle (path hash : Bytes) : Registry :=
  { r with handles := r.handles ++ [⟨path, hash, false, false, false, false, -1, .opened, none, none⟩] }

def setHandle (h : ℕ) (x : Handle) : Registry := { r with handles := r.handles.set h x }

def modify (h : ℕ) (f : Handle → Handle) : Registry :=
  match r.handles[h]? with
  | some x => r.setHandle h (f x)
  | none => r

def once (h : ℕ) : Registry := r.modify h fun x => { x with pumpOnce := true }

def resolve (h : ℕ) (hash : Bytes) : Registry :=
  r.modify h fun x => { x with hash := if x.hash = [] then hash else x.hash }

def attach (h p : ℕ) (inherit : Bool) : Registry :=
  match r.handles[h]?, r.pumps[p]? with
  | some x, some ps =>
    let primary := inherit && ps.refCount + 1 == 1
    { r with
      handles := r.handles.set h
        { x with
          hasSlot := true
          hasReader := true
          isPrimaryHandle := x.isPrimaryHandle || primary
          lastOff := if primary && ps.playerOff > 0 then ps.playerOff else x.lastOff
          attached := some p
          counted := some x.hash }
      pumps := r.pumps.set p { ps with refCount := ps.refCount + 1 }
      tracker := r.tracker.inc x.hash x.path
      log := .counted p x.attached :: r.log }
  | _, _ => r

def create (h : ℕ) (primary : Bool) : Registry :=
  match r.handles[h]? with
  | some x =>
    { r with
      handles := r.handles.set h
        { x with
          hasSlot := true
          hasReader := true
          isPrimaryHandle := x.isPrimaryHandle || primary
          attached := some r.pumps.length
          counted := some x.hash }
      pumps := r.pumps ++ [⟨1, x.path, 0, h⟩]
      activePumps := Function.update r.activePumps x.path (some r.pumps.length)
      tracker := r.tracker.inc x.hash x.path
      log := .counted r.pumps.length x.attached :: r.log }
  | none => r

def remove (path : Bytes) : Registry :=
  { r with activePumps := Function.update r.activePumps path none }

def cancel (path : Bytes) (p : ℕ) : Registry :=
  { r.remove path with log := .cancelled p (r.attachedTo p) :: r.log }

def endPump (p : ℕ) (registered : Bool) : Registry :=
  match r.pumps[p]? with
  | some ps =>
    (if registered then r.remove ps.path else r).modify ps.creator fun c =>
      { c with
        hasSlot := false
        attached := if c.phase = .opened ∧ c.attached = some p then none else c.attached }
  | none => r

def savePosition (h p : ℕ) : Registry :=
  match r.handles[h]?, r.pumps[p]? with
  | some x, some ps =>
    if x.isPrimaryHandle ∧ x.lastOff > 0 then
      { r with pumps := r.pumps.set p { ps with playerOff := x.lastOff } }
    else r
  | _, _ => r

def beginRelease (h p : ℕ) : Registry :=
  (r.savePosition h p).modify h fun x => { x with phase := .releasing }

def returnEarly (h p : ℕ) : Registry :=
  (r.savePosition h p).modify h fun x => { x with phase := .released, attached := none }

def close (h : ℕ) : Registry :=
  r.modify h fun x => { x with phase := .released, attached := none, hasReader := false }

def decrement (h p : ℕ) : Registry :=
  match r.handles[h]?, r.pumps[p]? with
  | some x, some ps =>
    { r with
      handles := r.handles.set h
        { x with phase := .released, attached := none, counted := none, hasReader := false }
      pumps := r.pumps.set p { ps with refCount := ps.refCount - 1 }
      tracker := r.tracker.dec x.hash x.path
      log := .uncounted p x.attached :: r.log }
  | _, _ => r

variable {r} {h p : ℕ} {x : Handle}

theorem getElem?_set_handles {k : ℕ} {y : Handle} (hx : r.handles[h]? = some x) :
    (r.handles.set h y)[k]? = if k = h then some y else r.handles[k]? := by
  rcases eq_or_ne k h with rfl | hk
  · rw [if_pos rfl, List.getElem?_set_self (List.getElem?_eq_some_iff.mp hx).1]
  · rw [if_neg hk, List.getElem?_set_ne (Ne.symm hk)]

theorem getElem?_modify {k : ℕ} (hx : r.handles[k]? = some x) (f : Handle → Handle) :
    (r.modify h f).handles[k]? = some (if k = h then f x else x) := by
  unfold modify
  split
  · next x' hx' =>
    rw [setHandle, getElem?_set_handles hx']
    split_ifs with hk
    · subst hk
      rw [hx'] at hx
      rw [Option.some.inj hx]
    · exact hx
  · next hnone =>
    rcases eq_or_ne k h with rfl | hk
    · rw [hx] at hnone
      cases hnone
    · rw [if_neg hk, hx]

theorem handles_savePosition : (r.savePosition h p).handles = r.handles := by
  unfold savePosition
  split
  · split_ifs <;> rfl
  · rfl

theorem tracker_savePosition : (r.savePosition h p).tracker = r.tracker := by
  unfold savePosition
  split
  · split_ifs <;> rfl
  · rfl

theorem getElem?_beginRelease (hx : r.handles[h]? = some x) :
    (r.beginRelease h p).handles[h]? = some { x with phase := .releasing } := by
  rw [← handles_savePosition (h := h) (p := p)] at hx
  rw [beginRelease, getElem?_modify hx, if_pos rfl]

end Registry

inductive Effect where
  | nothing
  | openHandle (path hash : Bytes)
  | once (h : ℕ)
  | resolve (h : ℕ) (hash : Bytes)
  | attach (h p : ℕ) (inherit : Bool)
  | create (h : ℕ) (primary : Bool)
  | remove (path : Bytes)
  | cancel (path : Bytes) (p : ℕ)
  | endPump (p : ℕ) (registered : Bool)
  | beginRelease (h p : ℕ)
  | returnEarly (h p : ℕ)
  | close (h : ℕ)
  | decrement (h p : ℕ)
  deriving DecidableEq, Repr

def Registry.apply (r : Registry) : Effect → Registry
  | .nothing => r
  | .openHandle path hash => r.openHandle path hash
  | .once h => r.once h
  | .resolve h hash => r.resolve h hash
  | .attach h p inherit => r.attach h p inherit
  | .create h primary => r.create h primary
  | .remove path => r.remove path
  | .cancel path p => r.cancel path p
  | .endPump p registered => r.endPump p registered
  | .beginRelease h p => r.beginRelease h p
  | .returnEarly h p => r.returnEarly h p
  | .close h => r.close h
  | .decrement h p => r.decrement h p

end GoStream.Handles
