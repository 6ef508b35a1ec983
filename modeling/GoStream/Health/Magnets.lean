import GoStream.Engines.GoStorm
import GoStream.Foundations.Positional
import GoStream.Foundations.Query
import GoStream.Health.Checker

/-!
# What a magnet link asks for
-/

namespace GoStream.Health

open Foundations Engines

structure IsHash (hash : Bytes) : Prop where
  length : hash.length = 40
  digits : ∀ c ∈ hash, isHexDigit c = true

def isControl (c : UInt8) : Bool := c < 32 || c = 127

def magnetQuery (uri : Bytes) : Option (List (Bytes × Bytes)) :=
  if uri.any isControl then none
  else if (queryUnescape (cut 35 uri).2).isNone then none
  else if (ascii "magnet:").isPrefixOf (cut 35 uri).1 then
    some (parseQuery (cut 63 (cut 35 uri).1).2)
  else none

def xtField (hash : Bytes) : Bytes := ascii "xt=urn:btih:" ++ hash

def xtParam (hash : Bytes) : Bytes × Bytes := (ascii "xt", ascii "urn:btih:" ++ hash)

def isLiteral (c : UInt8) : Bool :=
  !(isControl c || c = 35 || c = 37 || c = 38 || c = 43 || c = 59)

def isInner (c : UInt8) : Bool := !(isControl c || c = 35 || c = 38 || c = 59)

variable {hash title : Bytes}

theorem isLiteral_iff {c : UInt8} : isLiteral c = true ↔ isInner c = true ∧ c ≠ 37 ∧ c ≠ 43 := by
  simp only [isLiteral, isInner, Bool.not_eq_true', Bool.or_eq_false_iff, decide_eq_false_iff_not]
  tauto

theorem isInner_of_isLiteral {s : Bytes} (h : ∀ c ∈ s, isLiteral c = true) :
    ∀ c ∈ s, isInner c = true := fun c hc => (isLiteral_iff.mp (h c hc)).1

theorem queryUnescape_of_isLiteral {s : Bytes} (h : ∀ c ∈ s, isLiteral c = true) :
    queryUnescape s = some s := queryUnescape_of_plain fun c hc => (isLiteral_iff.mp (h c hc)).2

theorem isLiteral_xtField (h : IsHash hash) : ∀ c ∈ xtField hash, isLiteral c = true := by
  have hbyte : ∀ c : UInt8, isHexDigit c = true → isLiteral c = true :=
    forall_byte (by decide +kernel)
  intro c hc
  rcases List.mem_append.mp hc with hc | hc
  · exact (by decide +kernel : ∀ c ∈ ascii "xt=urn:btih:", isLiteral c = true) c hc
  · exact hbyte c (h.digits c hc)

theorem not_mem_of_isInner {s : Bytes} (h : ∀ c ∈ s, isInner c = true) :
    s.any isControl = false ∧ 35 ∉ s ∧ 38 ∉ s ∧ 59 ∉ s := by
  refine ⟨?_, fun hmem => ?_, fun hmem => ?_, fun hmem => ?_⟩
  · rw [List.any_eq_false]
    intro c hc hcontrol
    have hinner := h c hc
    simp [isInner, hcontrol] at hinner
  all_goals exact absurd (h _ hmem) (by decide)

theorem magnetQuery_eq {query : Bytes} (hcontrol : query.any isControl = false)
    (hhash : 35 ∉ query) :
    magnetQuery (ascii "magnet:?" ++ query) = some (parseQuery query) := by
  have hno : 35 ∉ ascii "magnet:?" ++ query := by
    rw [List.mem_append]
    rintro (hmem | hmem)
    · exact absurd hmem (by decide)
    · exact hhash hmem
  have hany : (ascii "magnet:?" ++ query).any isControl = false := by
    rw [List.any_append, hcontrol]
    decide
  have hcut : cut 63 (ascii "magnet:?" ++ query) = (ascii "magnet:", query) :=
    cut_append (u := ascii "magnet:") (by decide)
  rw [magnetQuery, hany, cut_of_not_mem hno, hcut]
  rfl

theorem queryPair_xt (h : IsHash hash) : queryPair (xtField hash) = some (xtParam hash) := by
  have hfield : xtField hash = ascii "xt" ++ 61 :: (ascii "urn:btih:" ++ hash) := rfl
  have hvalue : ∀ c ∈ ascii "urn:btih:" ++ hash, isLiteral c = true := fun c hc =>
    isLiteral_xtField h c (hfield ▸ List.mem_append_right _ (List.mem_cons_of_mem _ hc))
  have hsemi := (not_mem_of_isInner (isInner_of_isLiteral hvalue)).2.2.2
  rw [hfield, queryPair_eq (by decide +kernel) hsemi, queryUnescape_of_isLiteral hvalue]
  rfl

theorem queryUnescape_queryEscape (s : Bytes) : queryUnescape (queryEscape s) = some s := by
  have hhex : ∀ c : UInt8, Json.hexValue (upperHexDigit (c.toNat / 16)) = some (c.toNat / 16) ∧
      Json.hexValue (upperHexDigit (c.toNat % 16)) = some (c.toNat % 16) ∧
      (16 * (c.toNat / 16) + c.toNat % 16).toUInt8 = c := forall_byte (by decide +kernel)
  have hword : ∀ c : UInt8, (isWord c || c = 45 || c = 46 || c = 126) = true → c ≠ 37 ∧ c ≠ 43 := by
    intro c hc
    constructor
    all_goals
      rintro rfl
      exact absurd hc (by decide)
  induction s with
  | nil => rfl
  | cons c s ih =>
    rw [queryEscape, List.flatMap_cons]
    change queryUnescape (_ ++ queryEscape s) = _
    split_ifs with hplain hspace
    · rw [List.singleton_append, queryUnescape_cons (hword c hplain).1, ih,
        if_neg (hword c hplain).2]
      rfl
    · rw [List.singleton_append, queryUnescape_cons (by decide), ih, hspace]
      rfl
    · obtain ⟨hhigh, hlow, hbyte⟩ := hhex c
      simp only [List.cons_append, List.nil_append, queryUnescape, if_true, hhigh, hlow, ih]
      exact congrArg (fun d => some (d :: s)) hbyte

theorem isInner_queryEscape (s : Bytes) : ∀ c ∈ queryEscape s, isInner c = true := by
  have hbyte : ∀ c : UInt8, (if isWord c || c = 45 || c = 46 || c = 126 then [c]
      else if c = 32 then [43]
      else [37, upperHexDigit (c.toNat / 16), upperHexDigit (c.toNat % 16)]).all isInner = true :=
    forall_byte (by decide +kernel)
  intro d hd
  obtain ⟨c, -, hd⟩ := List.mem_flatMap.mp hd
  exact List.all_eq_true.mp (hbyte c) d hd

def escapedField (key value : Bytes) : Bytes := key ++ 61 :: queryEscape value

def namedParams (name : Bytes) (trackers : List Bytes) : List (Bytes × Bytes) :=
  (if name = [] then [] else [(ascii "dn", name)]) ++ trackers.map fun tr => (ascii "tr", tr)

theorem buildMagnet_eq (name : Bytes) (trackers : List Bytes) :
    Engines.buildMagnet hash name trackers = ascii "magnet:?" ++ (xtField hash ++
      ((namedParams name trackers).map fun p => escapedField p.1 p.2).flatMap (38 :: ·)) := by
  have hdn : ascii "&dn=" = 38 :: (ascii "dn" ++ [61]) := rfl
  have htr : ascii "&tr=" = 38 :: (ascii "tr" ++ [61]) := rfl
  have hxt : ascii "magnet:?xt=urn:btih:" = ascii "magnet:?" ++ ascii "xt=urn:btih:" := rfl
  rw [Engines.buildMagnet, namedParams, hdn, htr, hxt, xtField]
  by_cases hname : name = [] <;>
    simp [hname, escapedField, List.flatMap_map, Function.comp_def]

def IsKey (key : Bytes) : Prop := key = ascii "dn" ∨ key = ascii "tr"

theorem isKey_of_mem {name : Bytes} {trackers : List Bytes} {p : Bytes × Bytes}
    (hp : p ∈ namedParams name trackers) : IsKey p.1 := by
  rcases List.mem_append.mp hp with hp | hp
  · split_ifs at hp
    · cases hp
    · exact .inl (by rw [List.mem_singleton.mp hp])
  · obtain ⟨tr, -, rfl⟩ := List.mem_map.mp hp
    exact .inr rfl

theorem IsKey.bytes {key : Bytes} (h : IsKey key) :
    ∀ c ∈ key, (c ≠ 37 ∧ c ≠ 43 ∧ c ≠ 59 ∧ c ≠ 61) ∧ isInner c = true := by
  rcases h with rfl | rfl <;> decide +kernel

theorem isInner_escapedField {key : Bytes} (h : IsKey key) (value : Bytes) :
    ∀ c ∈ escapedField key value, isInner c = true := by
  intro c hc
  rcases List.mem_append.mp hc with hc | hc
  · exact (h.bytes c hc).2
  · rcases List.mem_cons.mp hc with rfl | hc
    · decide
    · exact isInner_queryEscape value c hc

theorem IsKey.queryPair_eq {key value : Bytes} (h : IsKey key) (hvalue : 59 ∉ value) :
    queryPair (key ++ 61 :: value) = (queryUnescape value).map (key, ·) :=
  Foundations.queryPair_eq (fun c hc => (h.bytes c hc).1) hvalue

theorem queryPair_escapedField {key : Bytes} (h : IsKey key) (value : Bytes) :
    queryPair (escapedField key value) = some (key, value) := by
  have hsemi := (not_mem_of_isInner (isInner_queryEscape value)).2.2.2
  rw [escapedField, h.queryPair_eq hsemi, queryUnescape_queryEscape]
  rfl

theorem magnetQuery_engines (h : IsHash hash) (name : Bytes) (trackers : List Bytes) :
    magnetQuery (Engines.buildMagnet hash name trackers) =
      some (xtParam hash :: namedParams name trackers) := by
  set fields := (namedParams name trackers).map fun p => escapedField p.1 p.2 with hfields
  have hinner : ∀ f ∈ xtField hash :: fields, (∀ c ∈ f, isInner c = true) ∧ f ≠ [] := by
    intro f hf
    rcases List.mem_cons.mp hf with rfl | hf
    · exact ⟨isInner_of_isLiteral (isLiteral_xtField h), by simp [xtField, ascii]⟩
    · obtain ⟨p, hp, rfl⟩ := List.mem_map.mp hf
      exact ⟨isInner_escapedField (isKey_of_mem hp) p.2, by simp [escapedField]⟩
  -- the query holds the bytes of the fields and separators
  have hquery : ∀ c ∈ xtField hash ++ fields.flatMap (38 :: ·), isInner c = true ∨ c = 38 := by
    intro c hc
    rcases List.mem_append.mp hc with hc | hc
    · exact .inl ((hinner _ List.mem_cons_self).1 c hc)
    · obtain ⟨f, hf, hc⟩ := List.mem_flatMap.mp hc
      rcases List.mem_cons.mp hc with hc | hc
      · exact .inr hc
      · exact .inl ((hinner f (List.mem_cons_of_mem _ hf)).1 c hc)
  have haccepted : ∀ c : UInt8, isInner c = true ∨ c = 38 → isControl c = false ∧ c ≠ 35 := by
    rintro c (hc | rfl)
    · simp only [isInner, Bool.not_eq_true', Bool.or_eq_false_iff, decide_eq_false_iff_not] at hc
      exact ⟨hc.1.1.1, hc.1.1.2⟩
    · decide
  rw [buildMagnet_eq, ← hfields, magnetQuery_eq
    (List.any_eq_false.mpr fun c hc => by simp [(haccepted c (hquery c hc)).1])
    (fun hmem => (haccepted 35 (hquery 35 hmem)).2 rfl),
    parseQuery_join fun f hf => ⟨(not_mem_of_isInner (hinner f hf).1).2.2.1, (hinner f hf).2⟩]
  have hrest : (fields.flatMap fun f => (queryPair f).toList) = namedParams name trackers := by
    rw [hfields, List.flatMap_map]
    refine (List.flatMap_congr fun p hp => ?_).trans (List.flatMap_singleton' _)
    rw [queryPair_escapedField (isKey_of_mem hp)]
    rfl
  rw [List.flatMap_cons, queryPair_xt h, hrest]
  rfl

theorem healthMagnet_eq : Health.buildMagnet hash title =
    ascii "magnet:?" ++ (xtField hash ++ 38 :: (ascii "dn" ++ 61 :: title)) := by
  have hdn : ascii "&dn=" = 38 :: (ascii "dn" ++ [61]) := rfl
  have hxt : ascii "magnet:?xt=urn:btih:" = ascii "magnet:?" ++ ascii "xt=urn:btih:" := rfl
  rw [Health.buildMagnet, hdn, hxt, xtField]
  simp

theorem isKey_dn : IsKey (ascii "dn") := .inl rfl

theorem magnetQuery_health (h : IsHash hash) (htitle : ∀ c ∈ title, isLiteral c = true) :
    magnetQuery (Health.buildMagnet hash title) = some [xtParam hash, (ascii "dn", title)] := by
  have hfields : ∀ f ∈ [xtField hash, ascii "dn" ++ 61 :: title],
      (∀ c ∈ f, isInner c = true) ∧ f ≠ [] := by
    intro f hf
    rcases List.mem_pair.mp hf with rfl | rfl
    · exact ⟨isInner_of_isLiteral (isLiteral_xtField h), by simp [xtField, ascii]⟩
    · refine ⟨fun c hc => ?_, by simp⟩
      rcases List.mem_append.mp hc with hc | hc
      · exact (isKey_dn.bytes c hc).2
      · rcases List.mem_cons.mp hc with rfl | hc
        · decide
        · exact isInner_of_isLiteral htitle c hc
  obtain ⟨hcontrol, hhash, -, -⟩ := not_mem_of_isInner (hfields _ List.mem_cons_self).1
  obtain ⟨hcontrol', hhash', -, -⟩ :=
    not_mem_of_isInner (hfields (ascii "dn" ++ 61 :: title) (by simp)).1
  have hsemi := (not_mem_of_isInner (isInner_of_isLiteral htitle)).2.2.2
  have hquery : parseQuery (xtField hash ++ [ascii "dn" ++ 61 :: title].flatMap (38 :: ·)) =
      [xtField hash, ascii "dn" ++ 61 :: title].flatMap fun f => (queryPair f).toList :=
    parseQuery_join fun f hf => ⟨(not_mem_of_isInner (hfields f hf).1).2.2.1, (hfields f hf).2⟩
  rw [healthMagnet_eq, magnetQuery_eq]
  · rw [List.flatMap_singleton] at hquery
    rw [hquery, List.flatMap_cons, List.flatMap_singleton, queryPair_xt h,
      isKey_dn.queryPair_eq hsemi, queryUnescape_of_isLiteral htitle]
    rfl
  · rw [List.any_append, List.any_cons, hcontrol, hcontrol']
    decide
  · rw [List.mem_append, List.mem_cons]
    rintro (hmem | heq | hmem)
    · exact hhash hmem
    · exact absurd heq (by decide)
    · exact hhash' hmem

theorem eq_of_parseQuery_health {raw : Bytes} {n : ℕ} (hle : raw.length ≤ title.length)
    (h : parseQueryWith n (ascii "dn" ++ 61 :: raw) = [(ascii "dn", title)]) :
    38 ∉ raw ∧ 59 ∉ raw ∧ queryUnescape raw = some title := by
  obtain ⟨n, rfl⟩ : ∃ m, n = m + 1 := by
    cases n with
    | zero => cases h
    | succ n => exact ⟨n, rfl⟩
  -- the field reaches up to the first separator of the title
  obtain ⟨field, rest, hsplit, hcut⟩ : ∃ field rest,
      (38 ∉ raw ∧ field = raw ∧ rest = [] ∨ raw = field ++ 38 :: rest) ∧
      cut 38 (ascii "dn" ++ 61 :: raw) = (ascii "dn" ++ 61 :: field, rest) := by
    rcases cut_cases 38 raw with ⟨hno, -⟩ | ⟨u, v, hu, rfl, -⟩
    · refine ⟨raw, [], .inl ⟨hno, rfl, rfl⟩, cut_of_not_mem ?_⟩
      simp [hno, ascii, byteOf]
    · refine ⟨u, v, .inr rfl, ?_⟩
      have hdn : 38 ∉ ascii "dn" ++ 61 :: u := by simp [hu, ascii, byteOf]
      simpa using cut_append (v := v) hdn
  rw [parseQueryWith, if_neg (by simp), hcut] at h
  have hshort : ∀ p ∈ parseQueryWith n rest, p.2.length ≤ rest.length :=
    fun p hp => length_le_of_mem_parseQuery hp
  cases hpair : queryPair (ascii "dn" ++ 61 :: field) with
  | none =>
    -- then the title would be read from what follows the separator
    rw [hpair, Option.toList_none, List.nil_append] at h
    have hmem : (ascii "dn", title) ∈ parseQueryWith n rest := by
      rw [h]
      exact List.mem_cons_self
    have hrest : title.length ≤ rest.length := hshort _ hmem
    rcases hsplit with ⟨-, -, rfl⟩ | rfl
    · cases n <;> cases hmem
    · simp only [List.length_append, List.length_cons] at hle
      omega
  | some p =>
    rw [hpair] at h
    have hp : p = (ascii "dn", title) := (List.cons.inj h).1
    have hsemi : 59 ∉ field := by
      intro hmem
      have hcontains : (ascii "dn" ++ 61 :: field).contains 59 = true := by
        rw [List.contains_iff_mem]
        simp [hmem]
      rw [queryPair, hcontains] at hpair
      cases hpair
    rw [isKey_dn.queryPair_eq hsemi, hp] at hpair
    obtain ⟨value, hvalue, heq⟩ := Option.map_eq_some_iff.mp hpair
    obtain rfl : value = title := (Prod.mk.inj heq).2
    have hlen := length_queryUnescape_le hvalue
    rcases hsplit with ⟨hno, rfl, -⟩ | rfl
    · exact ⟨hno, hsemi, hvalue⟩
    · simp only [List.length_append, List.length_cons] at hle
      omega

theorem literal_of_magnetQuery (h : IsHash hash)
    (hread : magnetQuery (Health.buildMagnet hash title) =
      some [xtParam hash, (ascii "dn", title)]) : ∀ c ∈ title, isLiteral c = true := by
  have hxt := not_mem_of_isInner (isInner_of_isLiteral (isLiteral_xtField h))
  -- a fragment ends the title early
  obtain ⟨raw, frag, hsplit, hraw⟩ : ∃ raw frag,
      (35 ∉ title ∧ raw = title ∨ title = raw ++ 35 :: frag) ∧
      (cut 35 (Health.buildMagnet hash title)).1 = Health.buildMagnet hash raw := by
    have hno : ∀ u, 35 ∉ u → 35 ∉ Health.buildMagnet hash u := by
      intro u hu
      rw [healthMagnet_eq]
      simp [hu, hxt.2.1, ascii, byteOf]
    rcases cut_cases 35 title with ⟨htitle, -⟩ | ⟨u, v, hu, rfl, -⟩
    · exact ⟨title, [], .inl ⟨htitle, rfl⟩, by rw [cut_of_not_mem (hno title htitle)]⟩
    · refine ⟨u, v, .inr rfl, ?_⟩
      have hbuild : Health.buildMagnet hash (u ++ 35 :: v) = Health.buildMagnet hash u ++ 35 :: v := by
        simp [Health.buildMagnet]
      rw [hbuild, cut_append (hno u hu)]
  unfold magnetQuery at hread
  split_ifs at hread with hcontrol hfragment hmagnet
  rw [hraw, healthMagnet_eq] at hread
  have hquery : cut 63 (ascii "magnet:?" ++ (xtField hash ++ 38 :: (ascii "dn" ++ 61 :: raw))) =
      (ascii "magnet:", xtField hash ++ 38 :: (ascii "dn" ++ 61 :: raw)) :=
    cut_append (u := ascii "magnet:") (by decide)
  rw [hquery] at hread
  have hle : raw.length ≤ title.length := by
    rcases hsplit with ⟨-, rfl⟩ | rfl
    · exact le_rfl
    · simp
  obtain ⟨m, hm⟩ : ∃ m, (xtField hash ++ 38 :: (ascii "dn" ++ 61 :: raw)).length = m + 1 :=
    ⟨_, Nat.succ_pred_eq_of_pos (by simp) |>.symm⟩
  have hfields : parseQueryWith m (ascii "dn" ++ 61 :: raw) = [(ascii "dn", title)] := by
    have hall := Option.some.inj hread
    rw [parseQuery, hm, parseQueryWith, if_neg (by simp), cut_append hxt.2.2.1, queryPair_xt h] at hall
    exact (List.cons.inj hall).2
  obtain ⟨hamp, hsemi, hvalue⟩ := eq_of_parseQuery_health hle hfields
  have hlen := length_queryUnescape_le hvalue
  rcases hsplit with ⟨hhash, rfl⟩ | rfl
  · have hplain := plain_of_queryUnescape hvalue
    intro c hc
    have hc' : isControl c = false := by
      have hany : (Health.buildMagnet hash raw).any isControl = false := by simpa using hcontrol
      rw [Health.buildMagnet, List.any_append, Bool.or_eq_false_iff] at hany
      simpa using List.any_eq_false.mp hany.2 c hc
    have hne : c ≠ 35 ∧ c ≠ 38 ∧ c ≠ 59 :=
      ⟨fun heq => hhash (heq ▸ hc), fun heq => hamp (heq ▸ hc), fun heq => hsemi (heq ▸ hc)⟩
    simp [isLiteral, hc', hne, hplain c hc]
  · simp only [List.length_append, List.length_cons] at hlen
    omega

/-- When a link is read as it was meant. -/
theorem magnets_exact_iff (hash : Bytes) (h : IsHash hash) (title : Bytes)
    (trackers : List Bytes) :
    magnetQuery (Engines.buildMagnet hash title trackers) = some (xtParam hash ::
      ((if title = [] then [] else [(ascii "dn", title)]) ++
        trackers.map fun tr => (ascii "tr", tr))) ∧
      (magnetQuery (Health.buildMagnet hash title) =
          some [xtParam hash, (ascii "dn", title)] ↔ ∀ c ∈ title, isLiteral c = true) :=
  ⟨magnetQuery_engines h title trackers, literal_of_magnetQuery h, magnetQuery_health h⟩

theorem magnets_exact_film :
    IsHash (List.replicate 40 97) ∧
      magnetQuery (Health.buildMagnet (List.replicate 40 97) (ascii "Film")) =
        some [xtParam (List.replicate 40 97), (ascii "dn", ascii "Film")] :=
  have h : IsHash (List.replicate 40 97) := ⟨by decide, by decide +kernel⟩
  ⟨h, (magnets_exact_iff _ h (ascii "Film") []).2.mpr (by decide +kernel)⟩

theorem title_adds_torrent :
    IsHash (List.replicate 40 97) ∧
      magnetQuery (Health.buildMagnet (List.replicate 40 97)
        (ascii "Film&xt=urn:btih:" ++ List.replicate 40 98)) =
      some [xtParam (List.replicate 40 97), (ascii "dn", ascii "Film"),
        xtParam (List.replicate 40 98)] :=
  ⟨⟨by decide, by decide +kernel⟩, by decide +kernel⟩

end GoStream.Health
