import GoStream.MetaCache.LRU

/-!
# Reading metadata through the cache
-/

namespace GoStream.MetaCache

open Foundations Inodes

structure Metadata where
  url : Bytes
  path : Bytes
  deriving DecidableEq

def approximateMetadataSize (m : Metadata) : Int64 :=
  Int64.ofNat (m.url.length + m.path.length + 8 + 24 + 64)

def filepathJoin (dir name : Bytes) : Bytes := dir ++ 47 :: name

def isMkv (name : Bytes) : Bool := (ascii ".mkv").isSuffixOf name

inductive ReadCall
  | start
  | waiting
  | locked
  | reading
  | storing (m : Metadata)
  | returned (result : Option Metadata)
  deriving DecidableEq

namespace ReadCall

def holdsLock : ReadCall → Bool
  | .locked | .reading | .storing _ => true
  | _ => false

def result : ReadCall → Option Metadata
  | .returned r => r
  | _ => none

variable {H : Hashing}

def step (cache : LRUCache H Metadata) (path : Bytes) (now : ℕ) (free : Bool)
    (file : Option Metadata) : ReadCall → ReadCall × LRUCache H Metadata
  | .start =>
    match cache.get path now with
    | (some m, cache) => (.returned (some m), cache)
    | (none, cache) => (.waiting, cache)
  | .waiting => (if free then .locked else .waiting, cache)
  | .locked =>
    match cache.get path now with
    | (some m, cache) => (.returned (some m), cache)
    | (none, cache) => (.reading, cache)
  | .reading =>
    match file with
    | none => (.returned none, cache)
    | some m => (.storing m, cache)
  | .storing m => (.returned (some m), cache.put path m (approximateMetadataSize m) now)
  | .returned r => (.returned r, cache)

variable {cache : LRUCache H Metadata} {path : Bytes} {now : ℕ} {call : ReadCall}

theorem fst_step_start {free : Bool} {file : Option Metadata} :
    (ReadCall.start.step cache path now free file).1 =
      match cache.live path now with
      | some m => .returned (some m)
      | none => .waiting := by
  rw [← cache.get_fst]
  simp only [step]
  split
  · next heq => simp [heq]
  · next heq => simp [heq]

theorem fst_step_locked {free : Bool} {file : Option Metadata} :
    (ReadCall.locked.step cache path now free file).1 =
      match cache.live path now with
      | some m => .returned (some m)
      | none => .reading := by
  rw [← cache.get_fst]
  simp only [step]
  split
  · next heq => simp [heq]
  · next heq => simp [heq]

theorem entry_step {free : Bool} {file : Option Metadata} {k : Bytes}
    (h : ∀ m, call = .storing m → k ≠ path) :
    (call.step cache path now free file).2.entry k = none ∨
      (call.step cache path now free file).2.entry k = cache.entry k := by
  have hget := cache.entry_get path k now
  cases call with
  | start | locked =>
    simp only [step]
    split <;> simp_all
  | waiting | returned r => exact .inr rfl
  | reading => cases file <;> exact .inr rfl
  | storing m => exact cache.entry_put_of_ne (h m rfl) _ _ _

theorem step_of_absent (free : Bool) (hcache : cache.live path now = none)
    (hcall : ∀ m, call ≠ .storing m) :
    (∀ m, (call.step cache path now free none).1 ≠ .storing m) ∧
      (call.result = none → (call.step cache path now free none).1.result = none) := by
  cases call with
  | start => simp [fst_step_start, hcache, result]
  | waiting => cases free <;> simp [step, result]
  | locked => simp [fst_step_locked, hcache, result]
  | reading => simp [step, result]
  | storing m => exact absurd rfl (hcall m)
  | returned r => simp [step]

end ReadCall

end GoStream.MetaCache
