import GoStream.Foundations.Json
import Mathlib.Data.List.GetD
import Mathlib.Data.Nat.Digits.Lemmas

/-!
# Numbers as strings of digits
-/

namespace GoStream.Foundations

def littleEndian : ℕ → ℕ → Bytes
  | 0, _ => []
  | width + 1, x => UInt8.ofNat (x % 256) :: littleEndian width (x / 256)

def ofLittleEndian (b : Bytes) : ℕ := Nat.ofDigits 256 (b.map UInt8.toNat)

@[simp] theorem length_littleEndian (width x : ℕ) : (littleEndian width x).length = width := by
  induction width generalizing x with
  | zero => rfl
  | succ width ih => rw [littleEndian, List.length_cons, ih]

theorem ofLittleEndian_littleEndian (width x : ℕ) :
    ofLittleEndian (littleEndian width x) = x % 256 ^ width := by
  induction width generalizing x with
  | zero => simp [littleEndian, ofLittleEndian, Nat.mod_one]
  | succ width ih =>
    have htail : Nat.ofDigits 256 ((littleEndian width (x / 256)).map UInt8.toNat) =
        x / 256 % 256 ^ width := ih (x / 256)
    have hhead : (UInt8.ofNat (x % 256)).toNat = x % 256 := by
      rw [UInt8.toNat_ofNat']
      omega
    rw [ofLittleEndian, littleEndian, List.map_cons, Nat.ofDigits_cons, htail, hhead, pow_succ',
      Nat.mod_mul]

theorem toNat_lt_of_mem_map {b : Bytes} {d : ℕ} (h : d ∈ b.map UInt8.toNat) : d < 256 := by
  obtain ⟨c, -, rfl⟩ := List.mem_map.mp h
  exact c.toNat_lt

theorem ofLittleEndian_lt (b : Bytes) : ofLittleEndian b < 256 ^ b.length := by
  have h := Nat.ofDigits_lt_base_pow_length (by omega : 1 < 256)
    fun d hd => toNat_lt_of_mem_map (b := b) hd
  rwa [List.length_map] at h

theorem ofLittleEndian_inj {b c : Bytes} (hlen : b.length = c.length)
    (h : ofLittleEndian b = ofLittleEndian c) : b = c := by
  have hmap : b.map UInt8.toNat = c.map UInt8.toNat :=
    Nat.ofDigits_inj_of_len_eq (by omega : 1 < 256) (by simpa using hlen)
      (fun d hd => toNat_lt_of_mem_map hd) (fun d hd => toNat_lt_of_mem_map hd) h
  exact List.map_injective_iff.mpr (fun _ _ => UInt8.toNat_inj.mp) hmap

def int64Bytes (n : Int64) : Bytes := littleEndian 8 n.toUInt64.toNat

def readInt64 (b : Bytes) : Int64 := (UInt64.ofNat (ofLittleEndian b)).toInt64

@[simp] theorem length_int64Bytes (n : Int64) : (int64Bytes n).length = 8 := by
  rw [int64Bytes, length_littleEndian]

@[simp] theorem readInt64_int64Bytes (n : Int64) : readInt64 (int64Bytes n) = n := by
  have hlt := n.toUInt64.toNat_lt
  rw [readInt64, int64Bytes, ofLittleEndian_littleEndian, Nat.mod_eq_of_lt (by omega),
    UInt64.ofNat_toNat, Int64.toInt64_toUInt64]

theorem readInt64_inj {b c : Bytes} (hb : b.length = 8) (hc : c.length = 8)
    (h : readInt64 b = readInt64 c) : b = c := by
  have hbound := ofLittleEndian_lt b
  have hbound' := ofLittleEndian_lt c
  have hnat := congrArg (fun n : Int64 => n.toUInt64.toNat) h
  simp only [readInt64, UInt64.toUInt64_toInt64, UInt64.toNat_ofNat'] at hnat
  rw [hb] at hbound
  rw [hc] at hbound'
  rw [Nat.mod_eq_of_lt (by omega), Nat.mod_eq_of_lt (by omega)] at hnat
  exact ofLittleEndian_inj (hb.trans hc.symm) hnat

def ofBigEndian (b : Bytes) : ℕ := Nat.ofDigits 256 (b.reverse.map UInt8.toNat)

def bigEndian (x : ℕ) : Bytes := ((Nat.digits 256 x).map UInt8.ofNat).reverse

theorem bigEndian_ofBigEndian {c : UInt8} {b : Bytes} (hc : c ≠ 0) :
    bigEndian (ofBigEndian (c :: b)) = c :: b := by
  have hdigits : Nat.digits 256 (ofBigEndian (c :: b)) = (c :: b).reverse.map UInt8.toNat := by
    apply Nat.digits_ofDigits 256 (by omega)
    · intro d hd
      exact toNat_lt_of_mem_map hd
    · intro hlist
      have hlast : c.toNat ≠ 0 := fun h => hc (UInt8.toNat_inj.mp h)
      simpa using hlast
  have hback : ∀ l : Bytes, (l.map UInt8.toNat).map UInt8.ofNat = l := by
    intro l
    rw [List.map_map]
    exact (List.map_congr_left fun c _ => UInt8.ofNat_toNat).trans (List.map_id l)
  rw [bigEndian, hdigits, hback, List.reverse_reverse]

theorem bigEndian_ofBigEndian_eq_dropWhile (b : Bytes) :
    bigEndian (ofBigEndian b) = b.dropWhile (· = 0) := by
  induction b with
  | nil => simp [ofBigEndian, bigEndian]
  | cons c b ih =>
    by_cases hc : c = 0
    · have hzero : ofBigEndian (c :: b) = ofBigEndian b := by
        simp [ofBigEndian, hc, Nat.ofDigits_append]
      rw [hzero, ih, List.dropWhile_cons_of_pos (by simpa using hc)]
    · rw [bigEndian_ofBigEndian hc, List.dropWhile_cons_of_neg (by simpa using hc)]

theorem ofBigEndian_bigEndian (x : ℕ) : ofBigEndian (bigEndian x) = x := by
  have hback : ((Nat.digits 256 x).map UInt8.ofNat).map UInt8.toNat = Nat.digits 256 x := by
    rw [List.map_map]
    refine (List.map_congr_left fun d hd => ?_).trans (List.map_id _)
    exact UInt8.toNat_ofNat_of_lt (Nat.digits_lt_base (by decide : 1 < 256) hd)
  rw [ofBigEndian, bigEndian, List.reverse_reverse, hback, Nat.ofDigits_digits]

section Alphabet

variable (alphabet : Bytes)

def encodeBase (x : ℕ) : Bytes :=
  ((Nat.digits alphabet.length x).map fun d => alphabet.getD d 0).reverse

def digitValue (c : UInt8) : ℤ := if alphabet.contains c then alphabet.idxOf c else -1

def decodeBase (s : Bytes) : ℤ := s.foldl (fun x c => x * alphabet.length + digitValue alphabet c) 0

variable {alphabet}

theorem mem_encodeBase (hlen : 1 < alphabet.length) {x : ℕ} {c : UInt8}
    (h : c ∈ encodeBase alphabet x) : c ∈ alphabet := by
  rw [encodeBase, List.mem_reverse, List.mem_map] at h
  obtain ⟨d, hd, rfl⟩ := h
  have hlt := Nat.digits_lt_base hlen hd
  rw [List.getD_eq_getElem _ _ hlt]
  exact List.getElem_mem hlt

theorem digitValue_getD (hnodup : alphabet.Nodup) {d : ℕ} (hd : d < alphabet.length) :
    digitValue alphabet (alphabet.getD d 0) = d := by
  rw [List.getD_eq_getElem _ _ hd, digitValue, if_pos, hnodup.idxOf_getElem]
  exact List.contains_iff_mem.mpr (List.getElem_mem hd)

theorem decodeBase_digits (hnodup : alphabet.Nodup) {ds : List ℕ}
    (hds : ∀ d ∈ ds, d < alphabet.length) :
    decodeBase alphabet (ds.map fun d => alphabet.getD d 0).reverse =
      ((Nat.ofDigits alphabet.length ds : ℕ) : ℤ) := by
  rw [decodeBase, List.foldl_reverse]
  induction ds with
  | nil => simp
  | cons d ds ih =>
    rw [List.map_cons, List.foldr_cons, ih fun e he => hds e (by simp [he]),
      digitValue_getD hnodup (hds d (by simp)), Nat.ofDigits_cons]
    push_cast
    ring

theorem decodeBase_encodeBase (hlen : 1 < alphabet.length) (hnodup : alphabet.Nodup) (x : ℕ) :
    decodeBase alphabet (encodeBase alphabet x) = x := by
  rw [encodeBase, decodeBase_digits hnodup fun d hd => Nat.digits_lt_base hlen hd,
    Nat.ofDigits_digits]

theorem encodeBase_decodeBase (hlen : 1 < alphabet.length) (hnodup : alphabet.Nodup) {s : Bytes}
    (hs : ∀ c ∈ s, c ∈ alphabet) (hhead : s.head? ≠ alphabet.head?) :
    encodeBase alphabet (decodeBase alphabet s).natAbs = s := by
  set ds := s.reverse.map fun c => alphabet.idxOf c with hds
  have hlt : ∀ d ∈ ds, d < alphabet.length := by
    simp only [hds, List.mem_map, List.mem_reverse]
    rintro d ⟨c, hc, rfl⟩
    exact List.idxOf_lt_length_of_mem (hs c hc)
  have hback : (ds.map fun d => alphabet.getD d 0) = s.reverse := by
    rw [hds, List.map_map]
    refine (List.map_congr_left fun c hc => ?_).trans (List.map_id _)
    have hmem := List.idxOf_lt_length_of_mem (hs c (List.mem_reverse.mp hc))
    exact (List.getD_eq_getElem _ _ hmem).trans (List.getElem_idxOf hmem)
  have hlast : ∀ hne : ds ≠ [], ds.getLast hne ≠ 0 := by
    intro hne hzero
    cases s with
    | nil => exact hne rfl
    | cons c s =>
      -- the first letter has index zero
      have hidx : alphabet.idxOf c = 0 := by simpa [hds] using hzero
      have hpos := List.idxOf_lt_length_of_mem (hs c List.mem_cons_self)
      have hget : alphabet[alphabet.idxOf c] = c := List.getElem_idxOf hpos
      apply hhead
      rw [List.head?_cons, List.head?_eq_getElem?, List.getElem?_eq_getElem (by omega)]
      simp only [hidx] at hget
      rw [hget]
  rw [← List.reverse_reverse s, ← hback, decodeBase_digits hnodup hlt, Int.natAbs_natCast,
    encodeBase, Nat.digits_ofDigits _ hlen _ hlt hlast]

end Alphabet

def isHexDigit (c : UInt8) : Bool := (Json.hexValue c).isSome

def encodeHex (b : Bytes) : Bytes :=
  b.flatMap fun c => [Json.hexDigit (c.toNat / 16), Json.hexDigit (c.toNat % 16)]

def decodeHex : Bytes → Bytes
  | a :: b :: s =>
    match Json.hexValue a, Json.hexValue b with
    | some x, some y => UInt8.ofNat (16 * x + y) :: decodeHex s
    | _, _ => []
  | _ => []

theorem hexDigit_hexValue : ∀ {c : UInt8} {x : ℕ}, Json.hexValue c = some x →
    x < 16 ∧ Json.hexDigit x = lowerByte c := by
  have hbyte : ∀ c : UInt8, ∀ x ∈ Json.hexValue c, x < 16 ∧ Json.hexDigit x = lowerByte c :=
    forall_byte (by decide +kernel)
  intro c x h
  exact hbyte c x h

theorem hexValue_of_all {a b : UInt8} {s : Bytes} (h : (a :: b :: s).all isHexDigit = true) :
    ∃ x y, Json.hexValue a = some x ∧ Json.hexValue b = some y := by
  simp only [List.all_cons, Bool.and_eq_true, isHexDigit, Option.isSome_iff_exists] at h
  obtain ⟨⟨x, hx⟩, ⟨y, hy⟩, -⟩ := h
  exact ⟨x, y, hx, hy⟩

theorem length_decodeHex {s : Bytes} (h : s.all isHexDigit = true) :
    (decodeHex s).length = s.length / 2 := by
  fun_induction decodeHex s with
  | case1 a b s x y hx hy ih =>
    simp only [List.all_cons, Bool.and_eq_true] at h
    rw [List.length_cons, ih h.2.2, List.length_cons, List.length_cons]
    omega
  | case2 a b s hno =>
    obtain ⟨x, y, hx, hy⟩ := hexValue_of_all h
    exact absurd hy (hno x y hx)
  | case3 s hshort =>
    rcases s with _ | ⟨a, _ | ⟨b, s⟩⟩
    · rfl
    · simp
    · exact absurd rfl (hshort a b s)

theorem encodeHex_decodeHex {s : Bytes} (heven : s.length % 2 = 0) (h : s.all isHexDigit = true) :
    encodeHex (decodeHex s) = asciiLower s := by
  fun_induction decodeHex s with
  | case1 a b s x y hx hy ih =>
    simp only [List.all_cons, Bool.and_eq_true] at h
    obtain ⟨hlt, hdigit⟩ := hexDigit_hexValue hx
    obtain ⟨hlt', hdigit'⟩ := hexDigit_hexValue hy
    have hbyte : (UInt8.ofNat (16 * x + y)).toNat = 16 * x + y := by
      rw [UInt8.toNat_ofNat']
      omega
    have hrest := ih (by simp only [List.length_cons] at heven; omega) h.2.2
    rw [encodeHex, List.flatMap_cons, hbyte, show (16 * x + y) / 16 = x by omega,
      show (16 * x + y) % 16 = y by omega, hdigit, hdigit']
    exact congrArg (fun t => lowerByte a :: lowerByte b :: t) hrest
  | case2 a b s hno =>
    obtain ⟨x, y, hx, hy⟩ := hexValue_of_all h
    exact absurd hy (hno x y hx)
  | case3 s hshort =>
    rcases s with _ | ⟨a, _ | ⟨b, s⟩⟩
    · rfl
    · simp at heven
    · exact absurd rfl (hshort a b s)

end GoStream.Foundations
