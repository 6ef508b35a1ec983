import GoStream.Foundations.Run
import GoStream.Foundations.Threads
import GoStream.Handles.Registry

/-!
# Handles, pumps and timers as threads
-/

namespace GoStream.Handles

open Foundations

inductive Thread where
  | startLock (h : ℕ)
  | startFound (h p : ℕ)
  | startSlot (h : ℕ)
  | startHeld (h : ℕ)
  | readLock (h : ℕ)
  | readFound (h p : ℕ)
  | readWait (h : ℕ)
  | tempSlot
  | releaseFound (h p : ℕ)
  | pumpStart (p : ℕ)
  | pumpRunning (p : ℕ)
  | pumpEnding (p : ℕ) (registered : Bool)
  | timerFound (path : Bytes) (p : ℕ)
  | timerExpired (path : Bytes) (p : ℕ)
  | stopFound (path : Bytes)
  deriving DecidableEq, Repr

structure Choice where
  upgrade : Bool
  healthy : Bool
  giveUp : Bool
  hash : Bytes

inductive Op where
  | openFile (path hash : Bytes)
  | resolve (h : ℕ) (hash : Bytes)
  | start (h : ℕ) (healthy : Bool)
  | read (h : ℕ)
  | prefetch
  | release (h : ℕ)
  | timer (path : Bytes)
  | stop (path : Bytes)
  | advance (i : ℕ) (choice : Choice)

structure System where
  registry : Registry
  threads : List Thread
  lock : Bool
  slots : ℕ
  timers : List Bytes

structure Turn where
  effect : Effect
  lock : Bool
  slots : ℕ
  timers : List Bytes
  next : List Thread

namespace System

def start : System := ⟨.empty, [], false, 0, []⟩

variable (limit : ℕ) (s : System)

def stay : Turn := ⟨.nothing, s.lock, s.slots, s.timers, []⟩

def startPump (h : ℕ) (healthy : Bool) : Turn :=
  match s.registry.handles[h]? with
  | some x =>
    if x.pumpOnce then s.stay
    else if x.hasSlot || (!healthy && decide ((s.slots : ℤ) ≥ (limit : ℤ) - 5)) then
      { s.stay with effect := .once h }
    else { s.stay with effect := .once h, next := [.startLock h] }
  | none => s.stay

def release (h : ℕ) : Turn :=
  match s.registry.handles[h]? with
  | some x =>
    match s.registry.activePumps x.path with
    | some p =>
      if x.hasSlot then { s.stay with effect := .beginRelease h p, next := [.releaseFound h p] }
      else { s.stay with effect := .returnEarly h p }
    | none => { s.stay with effect := .close h }
  | none => s.stay

def timersAfter (path : Bytes) (refs : ℤ) (healthy : Bool) : List Bytes :=
  if refs ≤ 0 then
    let others := s.timers.filter fun q => q ≠ path
    if healthy then others else others ++ [path]
  else s.timers

def turn (choice : Choice) : Thread → Turn
  | .startLock h =>
    match s.registry.handles[h]? with
    | none => s.stay
    | some x =>
      if s.lock then { s.stay with next := [.startLock h] }
      else
        match s.registry.activePumps x.path with
        | some p => { s.stay with lock := true, next := [.startFound h p] }
        | none => { s.stay with next := [.startSlot h] }
  | .startFound h p => { s.stay with effect := .attach h p true, lock := false }
  | .startSlot h =>
    if s.slots < limit then { s.stay with slots := s.slots + 1, next := [.startHeld h] } else s.stay
  | .startHeld h =>
    match s.registry.handles[h]? with
    | none => s.stay
    | some x =>
      if s.lock then { s.stay with next := [.startHeld h] }
      else
        match s.registry.activePumps x.path with
        | some p => { s.stay with lock := true, slots := s.slots - 1, next := [.startFound h p] }
        | none =>
          { s.stay with effect := .create h true, next := [.pumpStart s.registry.pumps.length] }
  | .readLock h =>
    match s.registry.handles[h]? with
    | none => s.stay
    | some x =>
      if s.lock then { s.stay with next := [.readLock h] }
      else
        match s.registry.activePumps x.path with
        | some p => { s.stay with lock := true, next := [.readFound h p] }
        | none =>
          if choice.upgrade && decide (x.hash ≠ []) && decide (s.slots < limit) then
            { s.stay with
              effect := .create h false
              slots := s.slots + 1
              next := [.pumpStart s.registry.pumps.length, .readWait h] }
          else { s.stay with next := [.readWait h] }
  | .readFound h p =>
    { s.stay with effect := .attach h p false, lock := false, next := [.readWait h] }
  | .readWait h =>
    if s.registry.handles[h]?.map (·.hasSlot) = some true || choice.giveUp then s.stay
    else if s.slots < limit then { s.stay with slots := s.slots + 1, next := [.tempSlot] }
    else { s.stay with next := [.readWait h] }
  | .tempSlot => { s.stay with slots := s.slots - 1 }
  | .releaseFound h p =>
    { s.stay with
      effect := .decrement h p
      timers := s.timersAfter ((s.registry.handles[h]?.map (·.path)).getD [])
        (s.registry.refCount p - 1) choice.healthy }
  | .pumpStart p =>
    match s.registry.pumps[p]? with
    | some ps =>
      -- without a reader the goroutine returns before its deferred part is in place
      if s.registry.handles[ps.creator]?.map (·.hasReader) = some true then
        { s.stay with effect := .resolve ps.creator choice.hash, next := [.pumpRunning p] }
      else s.stay
    | none => s.stay
  | .pumpRunning p =>
    match s.registry.pumps[p]? with
    | some ps =>
      { s.stay with next := [.pumpEnding p (decide (s.registry.activePumps ps.path = some p))] }
    | none => s.stay
  | .pumpEnding p registered =>
    let held := s.registry.pumps[p]?.bind fun ps => s.registry.handles[ps.creator]?.map (·.hasSlot)
    { s.stay with
      effect := .endPump p registered
      slots := if held = some true then s.slots - 1 else s.slots }
  | .timerFound path p =>
    if s.registry.refCount p ≤ 0 then { s.stay with next := [.timerExpired path p] } else s.stay
  | .timerExpired path p => { s.stay with effect := .cancel path p }
  | .stopFound path => { s.stay with effect := .remove path }

def plan : Op → Turn
  | .openFile path hash => { s.stay with effect := .openHandle path hash }
  | .resolve h hash => { s.stay with effect := .resolve h hash }
  | .start h healthy => s.startPump limit h healthy
  | .read h =>
    if s.registry.handles[h]?.map (·.hasSlot) = some false then
      { s.stay with next := [.readLock h] }
    else s.stay
  | .prefetch =>
    if s.slots < limit then { s.stay with slots := s.slots + 1, next := [.tempSlot] } else s.stay
  | .release h => s.release h
  | .timer path =>
    if path ∈ s.timers then
      match s.registry.activePumps path with
      | some p =>
        { s.stay with timers := s.timers.erase path, next := [.timerFound path p] }
      | none => { s.stay with timers := s.timers.erase path }
    else s.stay
  | .stop path =>
    if (s.registry.activePumps path).isSome then { s.stay with next := [.stopFound path] }
    else s.stay
  | .advance i choice =>
    match s.threads[i]? with
    | some t => s.turn limit choice t
    | none => s.stay

def others : Op → List Thread
  | .advance i _ => s.threads.eraseIdx i
  | _ => s.threads

def step (s : System) (op : Op) : System :=
  let t := s.plan limit op
  { registry := s.registry.apply t.effect
    threads := s.others op ++ t.next
    lock := t.lock
    slots := t.slots
    timers := t.timers }

def plain : Choice := ⟨false, false, false, []⟩

def openAndStart (path hash : Bytes) : List Op :=
  [.openFile path hash, .start 0 true, .advance 0 plain, .advance 0 plain, .advance 0 plain,
    .advance 0 plain]

end System

end GoStream.Handles
