import GoStream.Foundations.Positional

/-!
# Torrent tokens
-/

namespace GoStream.Torrshash

open Foundations

def isPlain (c : UInt8) : Bool := c < 128 && !isBlank c

structure Trimming where
  trim : Bytes → Bytes
  trim_plain : ∀ s, s.all isPlain = true → trim s = s

def Trimming.ascii : Trimming where
  trim := trimSpace
  trim_plain := by
    intro s hs
    have hplain : ∀ c ∈ s, isBlank c = false := by
      intro c hc
      have h := List.all_eq_true.mp hs c hc
      simp only [isPlain, Bool.and_eq_true, Bool.not_eq_true'] at h
      exact h.2
    apply Trimmed.trimSpace_eq
    constructor
    · exact fun c hc => hplain c (List.mem_of_head? hc)
    · exact fun c hc => hplain c (List.mem_of_getLast? hc)

structure Zlib where
  compress : Bytes → Bytes
  decompress : Bytes → Option Bytes
  decompress_compress : ∀ b, decompress (compress b) = some b
  compress_header : ∀ b, ∃ c s, compress b = c :: s ∧ c ≠ 0

def Zlib.stored : Zlib where
  compress := fun b => 120 :: b
  decompress := List.tail?
  decompress_compress := fun _ => rfl
  compress_header := fun b => ⟨120, b, rfl, by decide⟩

structure Field where
  tag : ℤ
  value : Bytes
  deriving DecidableEq

def tagTitle : ℤ := 0
def tagPoster : ℤ := 1
def tagTracker : ℤ := 2
def tagCategory : ℤ := 3
def tagSize : ℤ := 4

structure TorrsHash where
  hash : Bytes
  fields : List Field
  deriving DecidableEq

def isBinary (t : ℤ) : Bool := t = tagSize

def tagByte (t : ℤ) : UInt8 := UInt8.ofNat (t % 256).toNat

def base62Alphabet : Bytes :=
  ascii "0123456789ABCDEFGHIJKLMNOPQRSTUVWXYZabcdefghijklmnopqrstuvwxyz"

def encode62 (b : Bytes) : Bytes := encodeBase base62Alphabet (ofBigEndian b)

def decode62 (s : Bytes) : Bytes := bigEndian (decodeBase base62Alphabet s).natAbs

section Writing

variable (Z : Zlib) (T : Trimming)

def Field.write (f : Field) : Option Bytes :=
  let value := T.trim f.value
  if value.isEmpty then some []
  else if isBinary f.tag && value = ascii "0" then some []
  else if isBinary f.tag then
    match parseInt value with
    | none => none
    | some ii =>
      -- the tag is in the stream already when the number turns out to be zero
      if ii = 0 then some [tagByte f.tag] else some (tagByte f.tag :: int64Bytes ii)
  else some (tagByte f.tag :: (littleEndian 2 value.length ++ value))

def writeFields : List Field → Option Bytes
  | [] => some []
  | f :: fs => do
    let b ← f.write T
    let rest ← writeFields fs
    some (b ++ rest)

def packBytes (t : TorrsHash) : Option Bytes :=
  (writeFields T t.fields).map fun b => Z.compress (decodeHex (T.trim t.hash) ++ b)

def pack (t : TorrsHash) : Option Bytes := (packBytes Z T t).map encode62

end Writing

inductive UnpackError
  | zlib
  | eof
  | unexpectedEOF
  deriving DecidableEq

def readFull (n : ℕ) (s : Bytes) : Except UnpackError (Bytes × Bytes) :=
  if n ≤ s.length then .ok (s.take n, s.drop n)
  else if s.isEmpty then .error .eof
  else .error .unexpectedEOF

section Reading

variable (Z : Zlib) (T : Trimming)
-- a reader may report the end of the stream together with its last byte, or after it
variable (eager : Bool)

def readField : Bytes → Except UnpackError (Option (Field × Bytes))
  | [] => .ok none
  | tag :: s =>
    if eager && s.isEmpty then .ok none
    else if isBinary tag.toNat then do
      let word ← readFull 8 s
      .ok (some (⟨tag.toNat, itoa (readInt64 word.1).toInt⟩, word.2))
    else do
      let length ← readFull 2 s
      let value ← readFull (ofLittleEndian length.1) length.2
      .ok (some (⟨tag.toNat, value.1⟩, value.2))

def readFields : ℕ → Bytes → List Field × Option UnpackError
  | 0, _ => ([], none)
  | fuel + 1, s =>
    match readField eager s with
    | .error e => ([], some e)
    | .ok none => ([], none)
    | .ok (some (f, rest)) => (f :: (readFields fuel rest).1, (readFields fuel rest).2)

def unpackBytes (data : Bytes) : Option TorrsHash × Option UnpackError :=
  match Z.decompress data with
  | none => (none, some .zlib)
  | some s =>
    match readFull 20 s with
    | .error e => (none, some e)
    | .ok (hashBuf, rest) =>
      let r := readFields eager (rest.length + 1) rest
      (some ⟨encodeHex hashBuf, r.1⟩, r.2)

def unpack (token : Bytes) : Option TorrsHash × Option UnpackError :=
  unpackBytes Z eager (decode62 (T.trim token))

end Reading

def Field.normal (T : Trimming) (f : Field) : Option Field :=
  let value := T.trim f.value
  if value.isEmpty then none
  else if isBinary f.tag then
    match parseInt value with
    | none => none
    | some n => if n = 0 then none else some ⟨f.tag, itoa n.toInt⟩
  else some ⟨f.tag, value⟩

def normalForm (T : Trimming) (t : TorrsHash) : TorrsHash :=
  ⟨asciiLower t.hash, t.fields.filterMap (Field.normal T)⟩

inductive Item
  | text (tag : UInt8) (value : Bytes)
  | size (n : Int64)
  | stray
  deriving DecidableEq

def Item.bytes : Item → Bytes
  | .text tag value => tag :: (littleEndian 2 value.length ++ value)
  | .size n => tagByte tagSize :: int64Bytes n
  | .stray => [tagByte tagSize]

theorem Item.length_bytes_pos (i : Item) : 0 < i.bytes.length := by
  cases i <;> exact Nat.succ_pos _

def Item.field : Item → Option Field
  | .text tag value => some ⟨tag.toNat, value⟩
  | .size n => some ⟨tagSize, itoa n.toInt⟩
  | .stray => none

theorem filterMap_text (tag : UInt8) (value : Bytes) (items : List Item) :
    (Item.text tag value :: items).filterMap Item.field =
      ⟨tag.toNat, value⟩ :: items.filterMap Item.field := rfl

theorem filterMap_size (n : Int64) (items : List Item) :
    (Item.size n :: items).filterMap Item.field =
      ⟨tagSize, itoa n.toInt⟩ :: items.filterMap Item.field := rfl

theorem filterMap_stray (items : List Item) :
    (Item.stray :: items).filterMap Item.field = items.filterMap Item.field := rfl

def Field.item (T : Trimming) (f : Field) : Option Item :=
  let value := T.trim f.value
  if value.isEmpty then none
  else if isBinary f.tag && value = ascii "0" then none
  else if isBinary f.tag then
    (parseInt value).map fun n => if n = 0 then .stray else .size n
  else some (.text (tagByte f.tag) value)

theorem eq_tagSize {t : ℤ} (h : isBinary t = true) : t = tagSize := by
  simpa [isBinary] using h

theorem Field.write_item {T : Trimming} {f : Field} {b : Bytes} (h : f.write T = some b) :
    b = (f.item T).toList.flatMap Item.bytes := by
  unfold Field.write at h
  unfold Field.item
  simp only at h ⊢
  split_ifs at h ⊢ with hempty hzero hbinary
  · simpa using h.symm
  · simpa using h.symm
  · have htag := eq_tagSize hbinary
    cases hparse : parseInt (T.trim f.value) with
    | none => simp [hparse] at h
    | some n =>
      by_cases hn : n = 0
      · simp [hparse, hn, htag] at h
        simp [hn, Item.bytes, ← h]
      · simp [hparse, hn, htag] at h
        simp [hn, Item.bytes, ← h]
  · simpa [Item.bytes] using h.symm

theorem writeFields_items {T : Trimming} {fs : List Field} {b : Bytes}
    (h : writeFields T fs = some b) : b = (fs.filterMap (Field.item T)).flatMap Item.bytes := by
  induction fs generalizing b with
  | nil => simpa [writeFields] using h.symm
  | cons f fs ih =>
    simp only [writeFields, Option.bind_eq_bind, Option.bind_eq_some_iff, Option.some.injEq] at h
    obtain ⟨first, hfirst, rest, hrest, rfl⟩ := h
    rw [Field.write_item hfirst, ih hrest]
    cases hitem : f.item T with
    | none | some i => simp [hitem]

def IsTag (t : ℤ) : Prop := tagTitle ≤ t ∧ t ≤ tagSize

theorem toNat_tagByte {t : ℤ} (h : IsTag t) : ((tagByte t).toNat : ℤ) = t := by
  obtain ⟨hlo, hhi⟩ := h
  simp only [tagTitle, tagSize] at hlo hhi
  rw [tagByte, UInt8.toNat_ofNat']
  omega

theorem Field.normal_eq_item {T : Trimming} {f : Field} (h : IsTag f.tag) :
    f.normal T = (f.item T).bind Item.field := by
  unfold Field.normal Field.item
  simp only
  split_ifs with hempty hbinary hzero
  · rfl
  · simp only [Bool.and_eq_true, decide_eq_true_eq] at hzero
    rw [hzero.2]
    rfl
  · cases hparse : parseInt (T.trim f.value) with
    | none => rfl
    | some n =>
      by_cases hn : n = 0
      · simp [hn, Item.field]
      · simp [hn, Item.field, eq_tagSize hbinary]
  · simp_all
  · simp [Item.field, toNat_tagByte h]

theorem filterMap_normal {T : Trimming} {fs : List Field} (h : ∀ f ∈ fs, IsTag f.tag) :
    fs.filterMap (Field.normal T) = (fs.filterMap (Field.item T)).filterMap Item.field := by
  rw [List.filterMap_filterMap]
  exact List.filterMap_congr fun f hf => Field.normal_eq_item (h f hf)

def Item.WellTagged : Item → Prop
  | .text tag _ => tag ≠ tagByte tagSize
  | _ => True

theorem Field.item_wellTagged {T : Trimming} {f : Field} {i : Item} (h : IsTag f.tag)
    (hi : f.item T = some i) : i.WellTagged := by
  unfold Field.item at hi
  simp only at hi
  split_ifs at hi with hempty hzero hbinary
  · obtain ⟨n, -, rfl⟩ := Option.map_eq_some_iff.mp hi
    split_ifs <;> trivial
  · obtain rfl := Option.some.inj hi
    intro htag
    have hsize : IsTag tagSize := ⟨by decide, by decide⟩
    have hnat := congrArg (fun c : UInt8 => (c.toNat : ℤ)) htag
    simp only [toNat_tagByte h, toNat_tagByte hsize] at hnat
    exact hbinary (by simp [isBinary, hnat])

section Items

variable {eager : Bool} {s rest : Bytes} {fuel : ℕ}

theorem readFull_append {n : ℕ} {u v : Bytes} (h : u.length = n) :
    readFull n (u ++ v) = .ok (u, v) := by
  rw [readFull, if_pos (by simp [← h]), List.take_left' h, List.drop_left' h]

theorem readFields_done (h : readField eager s = .ok none) :
    readFields eager (fuel + 1) s = ([], none) := by
  rw [readFields, h]

theorem readFields_failed {e : UnpackError} (h : readField eager s = .error e) :
    readFields eager (fuel + 1) s = ([], some e) := by
  rw [readFields, h]

theorem readFields_field {f g : Field} {gs : List Field}
    (h : readField eager s = .ok (some (f, rest))) :
    readFields eager (fuel + 1) s = (g :: gs, none) ↔
      f = g ∧ readFields eager fuel rest = (gs, none) := by
  rw [readFields, h]
  simp only [Prod.mk.injEq, List.cons.injEq]
  constructor
  · rintro ⟨⟨rfl, hfields⟩, herr⟩
    exact ⟨rfl, Prod.ext hfields herr⟩
  · rintro ⟨rfl, hrest⟩
    rw [hrest]
    exact ⟨⟨rfl, rfl⟩, rfl⟩

theorem readFields_ne_nil {f : Field} (h : readField eager s = .ok (some (f, rest))) :
    readFields eager (fuel + 1) s ≠ ([], none) := by
  rw [readFields, h]
  simp

theorem toNat_ne_tagSize {tag : UInt8} (h : tag ≠ tagByte tagSize) :
    (tag.toNat : ℤ) ≠ tagSize := by
  intro htag
  apply h
  apply UInt8.toNat_inj.mp
  have hsize : ((tagByte tagSize).toNat : ℤ) = tagSize := toNat_tagByte ⟨by decide, by decide⟩
  omega

theorem readField_text {tag : UInt8} {value : Bytes} (htag : tag ≠ tagByte tagSize) :
    readField eager ((Item.text tag value).bytes ++ rest) =
      .ok (some (⟨tag.toNat, value.take (value.length % 65536)⟩,
        value.drop (value.length % 65536) ++ rest)) := by
  have hbinary : isBinary tag.toNat = false := by
    rw [isBinary, decide_eq_false_iff_not]
    exact toNat_ne_tagSize htag
  have hlength : ofLittleEndian (littleEndian 2 value.length) = value.length % 65536 :=
    ofLittleEndian_littleEndian 2 value.length
  have hle : value.length % 65536 ≤ value.length := Nat.mod_le _ _
  have hlast : (littleEndian 2 value.length ++ (value ++ rest)).isEmpty = false := by
    simp [littleEndian]
  have hvalue : readFull (value.length % 65536) (value ++ rest) =
      .ok (value.take (value.length % 65536), value.drop (value.length % 65536) ++ rest) := by
    rw [readFull, if_pos (by rw [List.length_append]; omega), List.take_append_of_le_length hle,
      List.drop_append_of_le_length hle]
  simp only [Item.bytes, List.cons_append, List.append_assoc, readField, hlast, hbinary,
    Bool.and_false, Bool.false_eq_true, if_false, readFull_append (length_littleEndian 2 _),
    bind, Except.bind, hlength, hvalue]

theorem readField_size (hne : s ≠ []) (hlen : 8 ≤ s.length) :
    readField eager (tagByte tagSize :: s) =
      .ok (some (⟨tagSize, itoa (readInt64 (s.take 8)).toInt⟩, s.drop 8)) := by
  have hlast : s.isEmpty = false := by simpa using hne
  have hbinary : isBinary (tagByte tagSize).toNat = true := by decide
  simp only [readField, hlast, hbinary, Bool.and_false, Bool.false_eq_true, if_false, if_true,
    readFull, if_pos hlen]
  rfl

theorem readField_size_short (hlast : (eager && s.isEmpty) = false) (hlen : s.length < 8) :
    ∃ e, readField eager (tagByte tagSize :: s) = .error e := by
  have hbinary : isBinary (tagByte tagSize).toNat = true := by decide
  simp only [readField, hlast, hbinary, Bool.false_eq_true, if_false, if_true, readFull,
    if_neg (show ¬ 8 ≤ s.length by omega)]
  by_cases hs : s.isEmpty
  · exact ⟨.eof, by simp [hs]; rfl⟩
  · exact ⟨.unexpectedEOF, by simp [hs]; rfl⟩

theorem readFields_size {g : Field} {gs : List Field} (hne : s ≠ []) :
    readFields eager (fuel + 1) (tagByte tagSize :: s) = (g :: gs, none) ↔
      8 ≤ s.length ∧ ⟨tagSize, itoa (readInt64 (s.take 8)).toInt⟩ = g ∧
        readFields eager fuel (s.drop 8) = (gs, none) := by
  by_cases hlen : 8 ≤ s.length
  · rw [readFields_field (readField_size hne hlen)]
    simp [hlen]
  · have hlast : (eager && s.isEmpty) = false := by simp [hne]
    obtain ⟨e, he⟩ := readField_size_short hlast (by omega)
    rw [readFields_failed he]
    simp [hlen]

def tagSizes : Int64 := 289360691352306692

theorem int64Bytes_tagSizes : int64Bytes tagSizes = List.replicate 8 (tagByte tagSize) := by
  decide +kernel

theorem readInt64_eq_iff {b : Bytes} {n : Int64} (hb : b.length = 8) :
    readInt64 b = n ↔ b = int64Bytes n := by
  constructor
  · intro h
    exact readInt64_inj hb (length_int64Bytes n) (by rw [h, readInt64_int64Bytes])
  · rintro rfl
    exact readInt64_int64Bytes n

theorem itoa_toInt_inj {m n : Int64} : itoa m.toInt = itoa n.toInt ↔ m = n := by
  constructor
  · intro h
    have hparse := congrArg parseInt h
    rwa [parseInt_itoa, parseInt_itoa, Option.some.injEq] at hparse
  · rintro rfl
    rfl

theorem eq_replicate_of_take {a : UInt8} {m k : ℕ} {l : Bytes} (hlen : l.length = k)
    (h : (List.replicate (m + 1) a ++ (l ++ rest)).take k = l) : l = List.replicate k a := by
  have hget : ∀ i < k, l[i]? = some a := by
    intro i
    induction i using Nat.strong_induction_on with
    | _ i ih =>
      intro hi
      rw [← h, List.getElem?_take_of_lt hi]
      by_cases him : i < m + 1
      · rw [List.getElem?_append_left (by simpa using him), List.getElem?_replicate_of_lt him]
      · rw [List.getElem?_append_right (by simpa using him), List.length_replicate,
          List.getElem?_append_left (by omega)]
        exact ih _ (by omega) (by omega)
  rw [List.eq_replicate_iff]
  refine ⟨hlen, fun b hb => ?_⟩
  obtain ⟨i, hi, rfl⟩ := List.mem_iff_getElem.mp hb
  have hsome := hget i (by omega)
  rw [List.getElem?_eq_getElem hi] at hsome
  exact Option.some.inj hsome

theorem replicate_append_replicate_comm (m k : ℕ) (a : UInt8) :
    List.replicate m a ++ (List.replicate k a ++ rest) =
      List.replicate k a ++ (List.replicate m a ++ rest) := by
  rw [← List.append_assoc, ← List.append_assoc, List.replicate_append_replicate,
    List.replicate_append_replicate, Nat.add_comm]

theorem take_word_iff {m : ℕ} {n : Int64} :
    (List.replicate (m + 1) (tagByte tagSize) ++ (int64Bytes n ++ rest)).take 8 = int64Bytes n ↔
      n = tagSizes := by
  constructor
  · intro h
    have hbytes := eq_replicate_of_take (length_int64Bytes n) h
    rw [← int64Bytes_tagSizes] at hbytes
    rw [← readInt64_int64Bytes n, hbytes, readInt64_int64Bytes]
  · rintro rfl
    rw [int64Bytes_tagSizes, replicate_append_replicate_comm, List.take_left' (by simp)]

theorem readFields_tags {m : ℕ} :
    readFields eager (fuel + 1) (List.replicate (m + 1) (tagByte tagSize)) = ([], none) ↔
      m = 0 ∧ eager = true := by
  rw [List.replicate_succ]
  by_cases hlast : m = 0 ∧ eager = true
  · obtain ⟨rfl, rfl⟩ := hlast
    exact iff_of_true (readFields_done rfl) ⟨rfl, rfl⟩
  · rw [iff_false_right hlast]
    by_cases hlen : 8 ≤ m
    · exact readFields_ne_nil (readField_size (by simp; omega) (by simpa using hlen))
    · have hend : (eager && (List.replicate m (tagByte tagSize)).isEmpty) = false := by
        cases eager <;> simp_all
      obtain ⟨e, he⟩ := readField_size_short hend (by simpa using hlen)
      rw [readFields_failed he]
      simp

theorem readFields_pushed {m : ℕ} {n : Int64} {gs : List Field} :
    readFields eager (fuel + 1)
        (List.replicate (m + 1) (tagByte tagSize) ++ ((Item.size n).bytes ++ s)) =
      (⟨tagSize, itoa n.toInt⟩ :: gs, none) ↔
    n = tagSizes ∧
      readFields eager fuel (List.replicate (m + 1) (tagByte tagSize) ++ s) = (gs, none) := by
  have hstream : List.replicate (m + 1) (tagByte tagSize) ++ ((Item.size n).bytes ++ s) =
      tagByte tagSize :: (List.replicate (m + 1) (tagByte tagSize) ++ (int64Bytes n ++ s)) :=
    replicate_append_replicate_comm (m + 1) 1 (tagByte tagSize)
  have hlong : 8 ≤ (List.replicate (m + 1) (tagByte tagSize) ++ (int64Bytes n ++ s)).length := by
    simp only [List.length_append, length_int64Bytes]
    omega
  rw [hstream, readFields_size (by simp), Field.mk.injEq, itoa_toInt_inj,
    readInt64_eq_iff (by rw [List.length_take]; omega), take_word_iff]
  simp only [hlong, true_and]
  apply and_congr_right
  rintro rfl
  rw [int64Bytes_tagSizes, replicate_append_replicate_comm, List.drop_left' (by simp)]

theorem readFields_stray {items : List Item} (htags : ∀ i ∈ items, i.WellTagged) (m : ℕ)
    (hfuel : (List.replicate (m + 1) (tagByte tagSize) ++ items.flatMap Item.bytes).length < fuel) :
    readFields eager fuel
        (List.replicate (m + 1) (tagByte tagSize) ++ items.flatMap Item.bytes) =
      (items.filterMap Item.field, none) ↔
    m = 0 ∧ eager = true ∧ ∀ i ∈ items, i = .size tagSizes := by
  induction items generalizing m fuel with
  | nil =>
    obtain ⟨fuel, rfl⟩ : ∃ k, fuel = k + 1 := ⟨fuel - 1, by omega⟩
    rw [List.flatMap_nil, List.append_nil, List.filterMap_nil, readFields_tags]
    simp
  | cons i items ih =>
    have hitems : ∀ j ∈ items, j.WellTagged := fun j hj => htags j (by simp [hj])
    have hpos := i.length_bytes_pos
    cases i with
    | stray =>
      have hstream : List.replicate (m + 1) (tagByte tagSize) ++
          (Item.stray :: items).flatMap Item.bytes =
          List.replicate (m + 1 + 1) (tagByte tagSize) ++ items.flatMap Item.bytes :=
        replicate_append_replicate_comm (m + 1) 1 (tagByte tagSize)
      rw [hstream] at hfuel ⊢
      rw [filterMap_stray, ih hitems (m + 1) hfuel]
      simp
    | size n =>
      obtain ⟨fuel, rfl⟩ : ∃ k, fuel = k + 1 := ⟨fuel - 1, by omega⟩
      rw [List.flatMap_cons] at hfuel ⊢
      rw [filterMap_size, readFields_pushed,
        ih hitems m (by simp only [List.length_append] at hfuel ⊢; omega), List.forall_mem_cons,
        Item.size.injEq]
      constructor
      · exact fun ⟨hn, hm, heager, hall⟩ => ⟨hm, heager, hn, hall⟩
      · exact fun ⟨hm, heager, hn, hall⟩ => ⟨hn, hm, heager, hall⟩
    | text tag value =>
      obtain ⟨fuel, rfl⟩ : ∃ k, fuel = k + 1 := ⟨fuel - 1, by omega⟩
      rw [filterMap_text, List.replicate_succ, List.cons_append,
        readFields_size (by simp [Item.bytes])]
      constructor
      · rintro ⟨-, hfield, -⟩
        have htag : tag ≠ tagByte tagSize := htags (.text tag value) (by simp)
        exact absurd (congrArg Field.tag hfield).symm (toNat_ne_tagSize htag)
      · rintro ⟨-, -, hall⟩
        simp at hall

def Clean (eager : Bool) : List Item → Prop
  | [] => True
  | .stray :: items => eager = true ∧ ∀ i ∈ items, i = .size tagSizes
  | .text _ value :: items => value.length < 65536 ∧ Clean eager items
  | .size _ :: items => Clean eager items

theorem readFields_iff_clean {items : List Item} (htags : ∀ i ∈ items, i.WellTagged)
    (hfuel : (items.flatMap Item.bytes).length < fuel) :
    readFields eager fuel (items.flatMap Item.bytes) = (items.filterMap Item.field, none) ↔
      Clean eager items := by
  induction items generalizing fuel with
  | nil =>
    obtain ⟨fuel, rfl⟩ : ∃ k, fuel = k + 1 := ⟨fuel - 1, by omega⟩
    exact iff_of_true (readFields_done rfl) trivial
  | cons i items ih =>
    have hitems : ∀ j ∈ items, j.WellTagged := fun j hj => htags j (by simp [hj])
    have hpos := i.length_bytes_pos
    cases i with
    | stray =>
      apply (readFields_stray hitems 0 hfuel).trans
      simp [Clean]
    | size n =>
      obtain ⟨fuel, rfl⟩ : ∃ k, fuel = k + 1 := ⟨fuel - 1, by omega⟩
      rw [List.flatMap_cons, List.length_append] at hfuel
      rw [filterMap_size, List.flatMap_cons, Item.bytes, List.cons_append,
        readFields_size (by simp [int64Bytes, littleEndian]),
        List.take_left' (length_int64Bytes n), List.drop_left' (length_int64Bytes n),
        readInt64_int64Bytes, ih hitems (by omega)]
      simp [Clean]
    | text tag value =>
      obtain ⟨fuel, rfl⟩ : ∃ k, fuel = k + 1 := ⟨fuel - 1, by omega⟩
      rw [List.flatMap_cons, List.length_append] at hfuel
      rw [filterMap_text, List.flatMap_cons,
        readFields_field (readField_text (htags (.text tag value) (by simp))), Field.mk.injEq,
        Clean]
      by_cases hlong : value.length < 65536
      · rw [Nat.mod_eq_of_lt hlong, List.take_length, List.drop_length, List.nil_append,
          ih hitems (by omega)]
        simp [hlong]
      · -- what was cut off is missing from the value
        have hcut : value.take (value.length % 65536) ≠ value := by
          intro htake
          have hlen := congrArg List.length htake
          rw [List.length_take] at hlen
          omega
        simp [hlong, hcut]

end Items

theorem decode62_encode62 {c : UInt8} {s : Bytes} (hc : c ≠ 0) :
    decode62 (encode62 (c :: s)) = c :: s := by
  have hnodup : base62Alphabet.Nodup := by decide +kernel
  rw [decode62, encode62, decodeBase_encodeBase (by decide) hnodup, Int.natAbs_natCast,
    bigEndian_ofBigEndian hc]

theorem trim_encode62 (T : Trimming) (b : Bytes) : T.trim (encode62 b) = encode62 b := by
  have hplain : ∀ c ∈ base62Alphabet, isPlain c = true := by decide +kernel
  apply T.trim_plain
  rw [List.all_eq_true]
  exact fun c hc => hplain c (mem_encodeBase (by decide) hc)

theorem trim_hex (T : Trimming) {s : Bytes} (h : s.all isHexDigit = true) : T.trim s = s := by
  have hplain : ∀ c : UInt8, isHexDigit c = true → isPlain c = true :=
    forall_byte (by decide +kernel)
  apply T.trim_plain
  rw [List.all_eq_true] at h ⊢
  exact fun c hc => hplain c (h c hc)

def IsHash (s : Bytes) : Prop := s.length = 40 ∧ s.all isHexDigit = true

instance (s : Bytes) : Decidable (IsHash s) := inferInstanceAs (Decidable (_ ∧ _))

theorem unpack_pack {Z : Zlib} {T : Trimming} (eager : Bool) {t : TorrsHash} {token : Bytes}
    (hhash : IsHash t.hash) (hpack : pack Z T t = some token) :
    ∃ b, writeFields T t.fields = some b ∧
      unpack Z T eager token =
        (some ⟨asciiLower t.hash, (readFields eager (b.length + 1) b).1⟩,
          (readFields eager (b.length + 1) b).2) := by
  obtain ⟨hlen, hhex⟩ := hhash
  simp only [pack, packBytes, Option.map_map, Option.map_eq_some_iff] at hpack
  obtain ⟨b, hwrite, rfl⟩ := hpack
  have hbytes : (decodeHex t.hash).length = 20 := by rw [length_decodeHex hhex, hlen]
  obtain ⟨c, s, hcompress, hc⟩ := Z.compress_header (decodeHex t.hash ++ b)
  refine ⟨b, hwrite, ?_⟩
  rw [Function.comp_apply, trim_hex T hhex, unpack, trim_encode62, hcompress, decode62_encode62 hc,
    ← hcompress, unpackBytes, Z.decompress_compress]
  simp only [readFull_append hbytes, encodeHex_decodeHex (by omega : t.hash.length % 2 = 0) hhex]

/-- When a token gives back what it was made of. -/
theorem unpack_pack_iff_clean (Z : Zlib) (T : Trimming) (eager : Bool) (t : TorrsHash)
    (token : Bytes) (hhash : IsHash t.hash) (htags : ∀ f ∈ t.fields, IsTag f.tag)
    (hpack : pack Z T t = some token) :
    unpack Z T eager token = (some (normalForm T t), none) ↔
      Clean eager (t.fields.filterMap (Field.item T)) := by
  obtain ⟨b, hwrite, hunpack⟩ := unpack_pack eager hhash hpack
  have hwell : ∀ i ∈ t.fields.filterMap (Field.item T), i.WellTagged := by
    intro i hi
    obtain ⟨f, hf, hitem⟩ := List.mem_filterMap.mp hi
    exact Field.item_wellTagged (htags f hf) hitem
  have hread : readFields eager _ _ = _ ↔ Clean eager _ :=
    readFields_iff_clean hwell (Nat.lt_succ_self _)
  rw [← writeFields_items hwrite, ← filterMap_normal htags] at hread
  rw [hunpack, ← hread, normalForm, Prod.ext_iff, Prod.ext_iff]
  simp

def filmToken : TorrsHash where
  hash := ascii "0123456789ABCDEF0123456789abcdef01234567"
  fields :=
    [⟨tagTitle, ascii " Film "⟩, ⟨tagSize, ascii "0042"⟩, ⟨tagPoster, ascii ""⟩]

theorem unpack_pack_film : ∃ token, pack Zlib.stored Trimming.ascii filmToken = some token ∧
    unpack Zlib.stored Trimming.ascii true token =
      (some ⟨ascii "0123456789abcdef0123456789abcdef01234567",
        [⟨tagTitle, ascii "Film"⟩, ⟨tagSize, ascii "42"⟩]⟩, none) := by
  have htags : ∀ f ∈ filmToken.fields, IsTag f.tag := by
    simp [filmToken, IsTag, tagTitle, tagSize, tagPoster]
  have hclean : Clean true (filmToken.fields.filterMap (Field.item Trimming.ascii)) := by
    have hitems : filmToken.fields.filterMap (Field.item Trimming.ascii) =
        [.text 0 (ascii "Film"), .size 42] := by decide +kernel
    rw [hitems]
    exact ⟨by decide, trivial⟩
  have hnormal : normalForm Trimming.ascii filmToken =
      ⟨ascii "0123456789abcdef0123456789abcdef01234567",
        [⟨tagTitle, ascii "Film"⟩, ⟨tagSize, ascii "42"⟩]⟩ := by decide +kernel
  have hsome : (packBytes Zlib.stored Trimming.ascii filmToken).isSome = true := by decide +kernel
  obtain ⟨data, hdata⟩ := Option.isSome_iff_exists.mp hsome
  refine ⟨encode62 data, by rw [pack, hdata, Option.map_some], ?_⟩
  rw [← hnormal, unpack_pack_iff_clean _ _ _ _ _ (by decide +kernel) htags
    (by rw [pack, hdata, Option.map_some])]
  exact hclean

def zeroSizeToken : TorrsHash where
  hash := ascii "0123456789abcdef0123456789abcdef01234567"
  fields := [⟨tagSize, ascii "00"⟩, ⟨tagTitle, ascii "Film"⟩]

theorem zero_size_breaks_token :
    ∃ token, pack Zlib.stored Trimming.ascii zeroSizeToken = some token ∧
      normalForm Trimming.ascii zeroSizeToken =
        ⟨zeroSizeToken.hash, [⟨tagTitle, ascii "Film"⟩]⟩ ∧
      ∀ eager, unpack Zlib.stored Trimming.ascii eager token =
        (some ⟨zeroSizeToken.hash, []⟩, some .unexpectedEOF) := by
  have hsome : (packBytes Zlib.stored Trimming.ascii zeroSizeToken).isSome = true := by
    decide +kernel
  obtain ⟨data, hdata⟩ := Option.isSome_iff_exists.mp hsome
  have hpack : pack Zlib.stored Trimming.ascii zeroSizeToken = some (encode62 data) := by
    rw [pack, hdata, Option.map_some]
  refine ⟨_, hpack, by decide +kernel, fun eager => ?_⟩
  obtain ⟨b, hwrite, hunpack⟩ := unpack_pack eager (by decide +kernel) hpack
  have hbytes : writeFields Trimming.ascii zeroSizeToken.fields =
      some [4, 0, 4, 0, 70, 105, 108, 109] := by decide +kernel
  obtain rfl := Option.some.inj (hwrite.symm.trans hbytes)
  rw [hunpack]
  cases eager <;> decide +kernel

end GoStream.Torrshash
