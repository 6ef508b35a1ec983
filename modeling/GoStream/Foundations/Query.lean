import GoStream.Foundations.Json

/-!
# Query strings
-/

namespace GoStream.Foundations

def cut (sep : UInt8) (s : Bytes) : Bytes × Bytes := (splitFirst sep s).getD (s, [])

variable {sep : UInt8} {s u v : Bytes}

theorem cut_append (hu : sep ∉ u) : cut sep (u ++ sep :: v) = (u, v) := by
  rw [cut, splitFirst_append hu]
  rfl

theorem cut_of_not_mem (h : sep ∉ s) : cut sep s = (s, []) := by
  rw [cut, splitFirst, if_neg h]
  rfl

theorem cut_cases (sep : UInt8) (s : Bytes) : (sep ∉ s ∧ cut sep s = (s, [])) ∨
    ∃ u v, sep ∉ u ∧ s = u ++ sep :: v ∧ cut sep s = (u, v) := by
  by_cases h : sep ∈ s
  · obtain ⟨u, v, rfl, hu⟩ := List.eq_append_cons_of_mem h
    exact .inr ⟨u, v, hu, rfl, cut_append hu⟩
  · exact .inl ⟨h, cut_of_not_mem h⟩

def queryUnescape : Bytes → Option Bytes
  | [] => some []
  | c :: rest =>
    if c = 37 then
      match rest with
      | a :: b :: rest => do
        let x ← Json.hexValue a
        let y ← Json.hexValue b
        (queryUnescape rest).map ((16 * x + y).toUInt8 :: ·)
      | _ => none
    else (queryUnescape rest).map ((if c = 43 then 32 else c) :: ·)

theorem queryUnescape_cons {c : UInt8} (hc : c ≠ 37) :
    queryUnescape (c :: s) = (queryUnescape s).map ((if c = 43 then 32 else c) :: ·) := by
  rcases s with _ | ⟨a, _ | ⟨b, s⟩⟩ <;> simp only [queryUnescape, if_neg hc]

theorem queryUnescape_of_plain (h : ∀ c ∈ s, c ≠ 37 ∧ c ≠ 43) : queryUnescape s = some s := by
  induction s with
  | nil => rfl
  | cons c s ih =>
    obtain ⟨hpercent, hplus⟩ := h c List.mem_cons_self
    rw [queryUnescape_cons hpercent, ih fun d hd => h d (List.mem_cons_of_mem _ hd), if_neg hplus]
    rfl

theorem length_queryUnescape_le (h : queryUnescape s = some u) : u.length ≤ s.length := by
  fun_induction queryUnescape s generalizing u with
  | case1 =>
    obtain rfl := Option.some.inj h
    exact le_rfl
  | case2 a b rest ih =>
    obtain ⟨x, -, h⟩ := Option.bind_eq_some_iff.mp h
    obtain ⟨y, -, h⟩ := Option.bind_eq_some_iff.mp h
    obtain ⟨t, ht, rfl⟩ := Option.map_eq_some_iff.mp h
    have hle := ih ht
    simp only [List.length_cons]
    omega
  | case3 => cases h
  | case4 c rest hc ih =>
    obtain ⟨t, ht, rfl⟩ := Option.map_eq_some_iff.mp h
    have hle := ih ht
    simp only [List.length_cons]
    omega

theorem plain_of_queryUnescape (h : queryUnescape s = some s) : ∀ c ∈ s, c ≠ 37 ∧ c ≠ 43 := by
  induction s with
  | nil => simp
  | cons c s ih =>
    by_cases hc : c = 37
    · -- the result would be shorter
      subst hc
      rcases s with _ | ⟨a, _ | ⟨b, s⟩⟩
      · cases h
      · cases h
      · rw [queryUnescape, if_pos rfl] at h
        obtain ⟨x, -, h⟩ := Option.bind_eq_some_iff.mp h
        obtain ⟨y, -, h⟩ := Option.bind_eq_some_iff.mp h
        obtain ⟨t, ht, heq⟩ := Option.map_eq_some_iff.mp h
        have hle := length_queryUnescape_le ht
        have hlen := congrArg List.length heq
        simp only [List.length_cons] at hlen
        omega
    · rw [queryUnescape_cons hc] at h
      obtain ⟨t, ht, heq⟩ := Option.map_eq_some_iff.mp h
      obtain ⟨hhead, rfl⟩ := List.cons.inj heq
      have hplus : c ≠ 43 := by
        rintro rfl
        exact absurd hhead (by decide)
      intro d hd
      rcases List.mem_cons.mp hd with rfl | hd
      · exact ⟨hc, hplus⟩
      · exact ih ht d hd

def queryPair (field : Bytes) : Option (Bytes × Bytes) :=
  if field.contains 59 || field.isEmpty then none
  else do
    let key ← queryUnescape (cut 61 field).1
    let value ← queryUnescape (cut 61 field).2
    some (key, value)

def parseQueryWith : ℕ → Bytes → List (Bytes × Bytes)
  | 0, _ => []
  | n + 1, s =>
    if s.isEmpty then []
    else (queryPair (cut 38 s).1).toList ++ parseQueryWith n (cut 38 s).2

def parseQuery (s : Bytes) : List (Bytes × Bytes) := parseQueryWith s.length s

theorem queryPair_eq {key value : Bytes} (hkey : ∀ c ∈ key, c ≠ 37 ∧ c ≠ 43 ∧ c ≠ 59 ∧ c ≠ 61)
    (hvalue : 59 ∉ value) :
    queryPair (key ++ 61 :: value) = (queryUnescape value).map (key, ·) := by
  have hsemi : (key ++ 61 :: value).contains 59 = false := by
    rw [← Bool.not_eq_true, List.contains_iff_mem, List.mem_append, List.mem_cons]
    rintro (hmem | heq | hmem)
    · exact (hkey 59 hmem).2.2.1 rfl
    · exact absurd heq (by decide)
    · exact hvalue hmem
  have hcut : cut 61 (key ++ 61 :: value) = (key, value) :=
    cut_append fun hmem => (hkey 61 hmem).2.2.2 rfl
  have hplain := queryUnescape_of_plain fun c hc => ⟨(hkey c hc).1, (hkey c hc).2.1⟩
  rw [queryPair, hsemi, hcut]
  cases queryUnescape value <;> simp [hplain]

theorem parseQueryWith_join {field : Bytes} {fields : List Bytes} {n : ℕ}
    (h : ∀ f ∈ field :: fields, 38 ∉ f ∧ f ≠ []) (hn : fields.length < n) :
    parseQueryWith n (field ++ fields.flatMap (38 :: ·)) =
      (field :: fields).flatMap fun f => (queryPair f).toList := by
  induction fields generalizing field n with
  | nil =>
    obtain ⟨n, rfl⟩ : ∃ m, n = m + 1 := ⟨n - 1, by omega⟩
    obtain ⟨hamp, hne⟩ := h field List.mem_cons_self
    rw [List.flatMap_nil, List.append_nil, parseQueryWith, cut_of_not_mem hamp]
    cases n <;> simp [parseQueryWith, hne]
  | cons next fields ih =>
    obtain ⟨n, rfl⟩ : ∃ m, n = m + 1 := ⟨n - 1, by omega⟩
    obtain ⟨hamp, hne⟩ := h field List.mem_cons_self
    have hrest := ih (fun f hf => h f (List.mem_cons_of_mem _ hf))
      (show fields.length < n by simpa using hn)
    rw [List.flatMap_cons, List.cons_append, parseQueryWith, cut_append hamp, hrest]
    simp [hne]

theorem length_le_flatMap {fields : List Bytes} :
    fields.length ≤ (fields.flatMap (38 :: ·)).length := by
  induction fields with
  | nil => exact le_rfl
  | cons f fields ih =>
    simp only [List.flatMap_cons, List.length_append, List.length_cons]
    omega

theorem parseQuery_join {field : Bytes} {fields : List Bytes}
    (h : ∀ f ∈ field :: fields, 38 ∉ f ∧ f ≠ []) :
    parseQuery (field ++ fields.flatMap (38 :: ·)) =
      (field :: fields).flatMap fun f => (queryPair f).toList := by
  apply parseQueryWith_join h
  have hpos := List.length_pos_of_ne_nil (h field List.mem_cons_self).2
  have hle : fields.length ≤ (fields.flatMap (38 :: ·)).length := length_le_flatMap
  rw [List.length_append]
  omega

theorem length_le_of_mem_parseQuery {n : ℕ} {p : Bytes × Bytes} (h : p ∈ parseQueryWith n s) :
    p.2.length ≤ s.length := by
  induction n generalizing s with
  | zero => cases h
  | succ n ih =>
    rw [parseQueryWith] at h
    split_ifs at h with hempty
    · cases h
    · have hlengths : (cut 38 s).1.length ≤ s.length ∧ (cut 38 s).2.length ≤ s.length := by
        rcases cut_cases 38 s with ⟨-, hcut⟩ | ⟨u, v, -, rfl, hcut⟩
        · simp [hcut]
        · simp only [hcut, List.length_append, List.length_cons]
          omega
      rcases List.mem_append.mp h with h | h
      · rw [Option.mem_toList, queryPair] at h
        split_ifs at h
        · obtain ⟨key, -, h⟩ := Option.bind_eq_some_iff.mp h
          obtain ⟨value, hvalue, h⟩ := Option.bind_eq_some_iff.mp h
          obtain rfl := Option.some.inj h
          have hle := length_queryUnescape_le hvalue
          have hfield : (cut 61 (cut 38 s).1).2.length ≤ (cut 38 s).1.length := by
            rcases cut_cases 61 (cut 38 s).1 with ⟨-, hcut⟩ | ⟨u, v, -, heq, hcut⟩
            · simp [hcut]
            · have hlen := congrArg List.length heq
              rw [List.length_append, List.length_cons] at hlen
              simp only [hcut]
              omega
          exact hle.trans (hfield.trans hlengths.1)
      · exact (ih h).trans hlengths.2

end GoStream.Foundations
