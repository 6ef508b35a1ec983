import GoStream.Foundations.Float64
import GoStream.Foundations.Json

/-!
# The equality tests of a migration
-/

namespace GoStream.Settings

open Foundations

structure Decoder where
  Value : Type
  unmarshal : Bytes → Except Bytes Value
  deepEqual : Value → Value → Bool

abbrev ByteSlice := Option Bytes

def ByteSlice.bytes (a : ByteSlice) : Bytes := a.getD []

def ByteSlice.len (a : ByteSlice) : ℕ := a.bytes.length

section Tests

variable (J : Decoder) (a b : ByteSlice)

def isByteArraysEqualJson : Except Bytes Bool :=
  if a.len = 0 ∧ b.len = 0 then .ok true
  else if a.len = 0 ∨ b.len = 0 then .ok false
  else if a.len = b.len ∧ a.bytes = b.bytes then .ok true
  else
    match J.unmarshal a.bytes with
    | .error e => .error (ascii "error unmarshalling A: " ++ e)
    | .ok objectA =>
      match J.unmarshal b.bytes with
      | .error e => .error (ascii "error unmarshalling B: " ++ e)
      | .ok objectB => .ok (J.deepEqual objectA objectB)

def isByteArraysEqualJsonOptimized : Except Bytes Bool :=
  if a = none ∧ b = none then .ok true
  else if a.len ≠ b.len then .ok false
  else if a.len = 0 then .ok true
  else if a.bytes = b.bytes then .ok true
  else isByteArraysEqualJson J a b

structure Agree (x y : Except Bytes Bool) : Prop where
  answer : ∀ r s, x = .ok r → y = .ok s → r = s
  errors : (∃ e, x = .error e) ↔ ∃ e, y = .error e

def Differ : Prop :=
  ∃ x y, J.unmarshal a.bytes = .ok x ∧ J.unmarshal b.bytes = .ok y ∧ J.deepEqual x y = false

variable {J a b}

theorem Agree.refl (x : Except Bytes Bool) : Agree x x :=
  ⟨fun _ _ hr hs => Except.ok.inj (hr.symm.trans hs), Iff.rfl⟩

theorem agree_false_iff {y : Except Bytes Bool} : Agree (.ok false) y ↔ y = .ok false := by
  constructor
  · intro h
    cases y with
    | error e =>
      obtain ⟨e', he⟩ := h.errors.mpr ⟨e, rfl⟩
      cases he
    | ok s => rw [← h.answer false s rfl rfl]
  · rintro rfl
    exact Agree.refl _

theorem optimized_of_len (h : a.len = b.len) :
    isByteArraysEqualJsonOptimized J a b = isByteArraysEqualJson J a b := by
  unfold isByteArraysEqualJsonOptimized
  split_ifs with hnil hlen hzero hbytes
  · obtain ⟨rfl, rfl⟩ := hnil
    rfl
  · exact absurd h hlen
  · rw [isByteArraysEqualJson, if_pos ⟨hzero, h ▸ hzero⟩]
  · rw [isByteArraysEqualJson, if_neg fun hboth => hzero hboth.1,
      if_neg fun hone => hzero (hone.elim id (h ▸ ·)), if_pos ⟨h, hbytes⟩]
  · rfl

theorem optimized_of_len_ne (h : a.len ≠ b.len) :
    isByteArraysEqualJsonOptimized J a b = .ok false := by
  have hnil : ¬(a = none ∧ b = none) := by
    rintro ⟨rfl, rfl⟩
    exact h rfl
  rw [isByteArraysEqualJsonOptimized, if_neg hnil, if_pos h]

theorem isByteArraysEqualJson_eq_false (h : a.len ≠ b.len) :
    isByteArraysEqualJson J a b = .ok false ↔ a.len = 0 ∨ b.len = 0 ∨ Differ J a b := by
  unfold isByteArraysEqualJson Differ
  have hboth : ¬(a.len = 0 ∧ b.len = 0) := fun hz => h (hz.1.trans hz.2.symm)
  rw [if_neg hboth]
  split_ifs with hone hbytes
  · exact ⟨fun _ => or_assoc.mp (.inl hone), fun _ => rfl⟩
  · exact absurd hbytes.1 h
  · rw [not_or] at hone
    cases hA : J.unmarshal a.bytes <;> cases hB : J.unmarshal b.bytes <;>
      simp [hone.1, hone.2]

theorem isByteArraysEqualJson_eq_true (h : a.len = b.len) (hsame : a.bytes = b.bytes ∨
    ∃ x y, J.unmarshal a.bytes = .ok x ∧ J.unmarshal b.bytes = .ok y ∧ J.deepEqual x y = true) :
    isByteArraysEqualJson J a b = .ok true := by
  unfold isByteArraysEqualJson
  split_ifs with hboth hone hbytes
  · rfl
  · exact absurd ⟨by omega, by omega⟩ hboth
  · rfl
  · rcases hsame with heq | ⟨x, y, hx, hy, hxy⟩
    · exact absurd ⟨h, heq⟩ hbytes
    · rw [hx, hy]
      exact congrArg _ hxy

end Tests

structure Target (σ : Type) where
  get : σ → Bytes → ByteSlice
  set : σ → Bytes → Bytes → σ

inductive Outcome where
  | noData
  | identical
  | copied (failure : Option Bytes)
  deriving DecidableEq

section Migrations

variable (J : Decoder) {σ : Type} (T : Target σ) (xpath : Bytes) (source : Bytes → ByteSlice)

def entryName (name : Bytes) : Bytes := xpath ++ ascii "/" ++ name

def verifyMigration (name : Bytes) (originalData migratedData : ByteSlice) : Option Bytes :=
  if migratedData = none then
    some (ascii "migration failed: no data after migration for " ++ entryName xpath name)
  else
    match isByteArraysEqualJsonOptimized J originalData migratedData with
    | .error e => some (ascii "verification failed for " ++ entryName xpath name ++ ascii ": " ++ e)
    | .ok false => some (ascii "data mismatch after migration for " ++ entryName xpath name)
    | .ok true => none

def isIdentical (s : σ) (name : Bytes) : Bool :=
  (T.get s name).isSome &&
    match isByteArraysEqualJson J (source name) (T.get s name) with
    | .ok equal => equal
    | .error _ => false

def migrateEntry (s : σ) (name : Bytes) : σ × Outcome :=
  match source name with
  | none => (s, .noData)
  | some data =>
    if isIdentical J T source s name then (s, .identical)
    else (T.set s name data,
      .copied (verifyMigration J xpath name (some data) (T.get (T.set s name data) name)))

def migrateSingle (s : σ) (name : Bytes) : σ × Bool × Option Bytes :=
  match migrateEntry J T xpath source s name with
  | (s, .copied none) => (s, true, none)
  | (s, .copied (some e)) => (s, false, some
      (ascii "migration verification failed for " ++ entryName xpath name ++ ascii ": " ++ e))
  | (s, _) => (s, false, none)

structure Summary where
  migrated : ℕ
  skipped : ℕ
  firstError : Option Bytes

def Summary.count (c : Summary) : Outcome → Summary
  | .copied none => { c with migrated := c.migrated + 1 }
  | .copied (some e) => { c with firstError := c.firstError.or (some e) }
  | _ => { c with skipped := c.skipped + 1 }

def migrateAll (s : σ) (c : Summary) : List Bytes → σ × Summary
  | [] => (s, c)
  | name :: names =>
    let next := migrateEntry J T xpath source s name
    migrateAll next.1 (c.count next.2) names

def Reformats : Prop :=
  ∀ s name data, ∃ text, T.get (T.set s name data) name = some text ∧ (text = data ∨
    ∃ x y, J.unmarshal data = .ok x ∧ J.unmarshal text = .ok y ∧ J.deepEqual x y = true)

def KeepsLengths (s : σ) : List Bytes → Prop
  | [] => True
  | name :: names =>
    (∀ data, source name = some data → isIdentical J T source s name = false →
      ByteSlice.len (T.get (T.set s name data) name) = data.length) ∧
    KeepsLengths (migrateEntry J T xpath source s name).1 names

def Outcome.fine : Outcome → Bool
  | .copied (some _) => false
  | _ => true

variable {J T}

theorem verifyMigration_eq_none_iff (h : Reformats J T) (s : σ) (name data : Bytes) :
    verifyMigration J xpath name (some data) (T.get (T.set s name data) name) = none ↔
      ByteSlice.len (T.get (T.set s name data) name) = data.length := by
  obtain ⟨text, htext, hsame⟩ := h s name data
  have hlen : ByteSlice.len (some data) = data.length := rfl
  rw [htext, verifyMigration, if_neg (by simp), ← hlen]
  by_cases hequal : ByteSlice.len (some data) = ByteSlice.len (some text)
  · have htrue : isByteArraysEqualJsonOptimized J (some data) (some text) = .ok true := by
      rw [optimized_of_len hequal]
      exact isByteArraysEqualJson_eq_true hequal (hsame.imp_left Eq.symm)
    simp [htrue, hequal]
  · rw [optimized_of_len_ne hequal]
    simp [Ne.symm hequal]

theorem fine_migrateEntry (h : Reformats J T) (s : σ) (name : Bytes) :
    (migrateEntry J T xpath source s name).2.fine = true ↔
      ∀ data, source name = some data → isIdentical J T source s name = false →
        ByteSlice.len (T.get (T.set s name data) name) = data.length := by
  unfold migrateEntry
  cases hsource : source name with
  | none => simp [Outcome.fine]
  | some data =>
    by_cases hsame : isIdentical J T source s name = true
    · simp [hsame, Outcome.fine]
    · have hfine : ∀ failure, (Outcome.copied failure).fine = true ↔ failure = none := by
        intro failure
        cases failure <;> simp [Outcome.fine]
      rw [Bool.not_eq_true] at hsame
      simp only [hsame, Bool.false_eq_true, if_false, hfine, Option.some.injEq, forall_eq',
        forall_const]
      exact verifyMigration_eq_none_iff xpath h s name data

theorem firstError_count (c : Summary) (o : Outcome) :
    (c.count o).firstError = none ↔ c.firstError = none ∧ o.fine = true := by
  rcases o with _ | _ | _ | e <;> simp [Summary.count, Outcome.fine]

theorem firstError_migrateAll (h : Reformats J T) (s : σ) (c : Summary) (names : List Bytes) :
    (migrateAll J T xpath source s c names).2.firstError = none ↔
      c.firstError = none ∧ KeepsLengths J T xpath source s names := by
  induction names generalizing s c with
  | nil => simp [migrateAll, KeepsLengths]
  | cons name names ih =>
    rw [migrateAll, ih, firstError_count, fine_migrateEntry xpath source h, KeepsLengths, and_assoc]

theorem error_migrateSingle (s : σ) (name : Bytes) :
    (migrateSingle J T xpath source s name).2.2 = none ↔
      (migrateEntry J T xpath source s name).2.fine = true := by
  unfold migrateSingle
  rcases migrateEntry J T xpath source s name with ⟨s', _ | _ | _ | e⟩ <;> simp [Outcome.fine]

end Migrations

/-- Where the equality tests agree. -/
theorem tests_agree_iff (J : Decoder) :
    (∀ a b : ByteSlice, Agree (isByteArraysEqualJsonOptimized J a b) (isByteArraysEqualJson J a b) ↔
      a.len = b.len ∨ a.len = 0 ∨ b.len = 0 ∨ Differ J a b) ∧
      ∀ (σ : Type) (T : Target σ) (xpath : Bytes) (source : Bytes → ByteSlice), Reformats J T →
        ∀ s : σ,
          (∀ name, (migrateSingle J T xpath source s name).2.2 = none ↔
            KeepsLengths J T xpath source s [name]) ∧
          ∀ names, (migrateAll J T xpath source s ⟨0, 0, none⟩ names).2.firstError = none ↔
            KeepsLengths J T xpath source s names := by
  refine ⟨fun a b => ?_, fun σ T xpath source h s => ⟨fun name => ?_, fun names => ?_⟩⟩
  · by_cases hlen : a.len = b.len
    · rw [optimized_of_len hlen]
      exact iff_of_true (Agree.refl _) (.inl hlen)
    · rw [optimized_of_len_ne hlen, agree_false_iff, isByteArraysEqualJson_eq_false hlen]
      simp [hlen]
  · rw [error_migrateSingle, fine_migrateEntry xpath source h, KeepsLengths, KeepsLengths, and_true]
  · rw [firstError_migrateAll xpath source h]
    simp

mutual

def deepEqual : Json → Json → Bool
  | .null, .null => true
  | .bool x, .bool y => x == y
  | .num x, .num y => Float64.parseFloat x == Float64.parseFloat y
  | .str x, .str y => x == y
  | .arr xs, .arr ys => itemsEqual xs ys
  | .obj ms, .obj ns => membersEqual ms (.obj ns) && ns.all fun n => ms.any fun m => m.1 == n.1
  | _, _ => false

def itemsEqual : List Json → List Json → Bool
  | [], [] => true
  | x :: xs, y :: ys => deepEqual x y && itemsEqual xs ys
  | _, _ => false

def membersEqual : List (Bytes × Json) → Json → Bool
  | [], _ => true
  | (key, x) :: ms, y =>
    (ms.any (fun m => m.1 == key) || ((y.field key).map (deepEqual x)).getD false) &&
      membersEqual ms y

end

def jsonDecoder : Decoder where
  Value := Json
  unmarshal text := (Json.parse text).elim (.error (ascii "invalid character")) .ok
  deepEqual := deepEqual

def spaced : Target ByteSlice where
  get s _ := s
  set _ _ data := some (data.take 1 ++ ascii " " ++ data.drop 1)

theorem spaced_object_mismatch :
    isByteArraysEqualJson jsonDecoder (some [123, 125]) (some [123, 32, 125]) = .ok true ∧
      isByteArraysEqualJsonOptimized jsonDecoder (some [123, 125]) (some [123, 32, 125]) =
        .ok false ∧
      (migrateSingle jsonDecoder spaced (ascii "Settings") (fun _ => some [123, 125]) none
        (ascii "BitTorr")).2 = (false, some (ascii
          "migration verification failed for Settings/BitTorr: data mismatch after migration for Settings/BitTorr")) :=
  ⟨rfl, rfl, rfl⟩

end GoStream.Settings
