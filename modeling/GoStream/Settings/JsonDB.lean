import GoStream.Foundations.Maps
import GoStream.Foundations.Text

/-!
# The JSON store
-/

namespace GoStream.Settings

open Foundations

def reread {V : Type} (utf8 : Bytes → Bytes) (m : Dict Bytes V) : Dict Bytes V :=
  Dict.ofItems ((m.inOrder bytewise).map fun x => (utf8 x.1, x.2))

structure Encoding where
  Value : Type
  unmarshal : Bytes → Option (Dict Bytes Value) × Bool
  marshalIndent : Option (Dict Bytes Value) → Bytes
  marshal : Value → Bytes
  ofMap : Option (Dict Bytes Value) → Value
  utf8 : Bytes → Bytes
  shallow : Value → Bool
  marshalIndent_ne_nil : ∀ root, marshalIndent root ≠ []
  isSome_of_failed : ∀ b, (unmarshal b).2 = true → (unmarshal b).1.isSome = true
  utf8_of_mem : ∀ b m, (unmarshal b).1 = some m → ∀ x ∈ m.items, utf8 x.1 = x.1
  shallow_of_mem : ∀ b m, (unmarshal b).1 = some m → ∀ x ∈ m.items, shallow x.2 = true
  unmarshal_null : unmarshal (marshalIndent none) = (none, false)
  unmarshal_map : ∀ m : Dict Bytes Value, (∀ x ∈ m.items, shallow x.2 = true) →
    unmarshal (marshalIndent (some m)) = (some (reread utf8 m), false)
  unmarshal_deep : ∀ m : Dict Bytes Value, (∃ x ∈ m.items, shallow x.2 = false) →
    unmarshal (marshalIndent (some m)) = (some ∅, true)
  unmarshal_cut : ∀ root k, k < (marshalIndent root).length →
    unmarshal ((marshalIndent root).take k) = (some ∅, true)

namespace Encoding

def writeName (name : Bytes) : Bytes := name.flatMap (fun c => [4, c]) ++ [3]

def readNames : Bytes → Option (List Bytes)
  | [] => none
  | [c] => if c = 2 then some [] else none
  | c :: b :: rest =>
      if c = 3 then (readNames (b :: rest)).map ([] :: ·)
      else if c = 4 then
        (readNames rest).bind fun names =>
          names.head?.map fun name => (b :: name) :: names.tail
      else none

theorem readNames_writeName (name : Bytes) {rest : Bytes} (hrest : rest ≠ []) :
    readNames (writeName name ++ rest) = (readNames rest).map (name :: ·) := by
  induction name with
  | nil =>
    obtain ⟨b, rest, rfl⟩ := List.exists_cons_of_ne_nil hrest
    rfl
  | cons c name ih =>
    have hunfold : writeName (c :: name) ++ rest = 4 :: c :: (writeName name ++ rest) := rfl
    rw [hunfold, readNames, if_neg (by decide), if_pos rfl, ih]
    cases readNames rest with
    | none | some names => rfl

theorem readNames_flatMap (names : List Bytes) :
    readNames (names.flatMap writeName ++ [2]) = some names := by
  induction names with
  | nil => rfl
  | cons name names ih =>
    rw [List.flatMap_cons, List.append_assoc, readNames_writeName name (by simp), ih]
    rfl

theorem readNames_append {s : Bytes} {names : List Bytes} (h : readNames s = some names)
    {t : Bytes} (ht : t ≠ []) : readNames (s ++ t) = none := by
  fun_induction readNames s generalizing names with
  | case1 | case3 | case6 => cases h
  | case2 =>
    obtain ⟨b, t, rfl⟩ := List.exists_cons_of_ne_nil ht
    rfl
  | case4 b rest ih =>
    obtain ⟨names', hnames, -⟩ := Option.map_eq_some_iff.mp h
    have hunfold : 3 :: b :: rest ++ t = 3 :: b :: (rest ++ t) := rfl
    rw [hunfold, readNames, if_pos rfl]
    rw [List.cons_append] at ih
    rw [ih hnames]
    rfl
  | case5 b rest _ ih =>
    obtain ⟨names', hnames, -⟩ := Option.bind_eq_some_iff.mp h
    have hunfold : 4 :: b :: rest ++ t = 4 :: b :: (rest ++ t) := rfl
    rw [hunfold, readNames, if_neg (by decide), if_pos rfl, ih hnames]
    rfl

theorem readNames_take (names : List Bytes) {k : ℕ}
    (hk : k < (names.flatMap writeName ++ [2]).length) :
    readNames ((names.flatMap writeName ++ [2]).take k) = none := by
  cases h : readNames ((names.flatMap writeName ++ [2]).take k) with
  | none => rfl
  | some names' =>
    have hdrop : (names.flatMap writeName ++ [2]).drop k ≠ [] := by
      rw [Ne, List.drop_eq_nil_iff]
      omega
    have hnone := readNames_append h hdrop
    rw [List.take_append_drop, readNames_flatMap] at hnone
    cases hnone

def readMap : Bytes → Option (Dict Bytes Unit) × Bool
  | [] => (some ∅, true)
  | c :: rest =>
      if c = 0 ∧ rest = [] then (none, false)
      else if c = 1 then
        (readNames rest).elim (some ∅, true) fun names => (some (.ofItems (names.map (·, ()))), false)
      else (some ∅, true)

def writeMap : Option (Dict Bytes Unit) → Bytes
  | none => [0]
  | some m => 1 :: (((m.inOrder bytewise).map Prod.fst).flatMap writeName ++ [2])

def names : Encoding where
  Value := Unit
  unmarshal := readMap
  marshalIndent := writeMap
  marshal := fun _ => []
  ofMap := fun _ => ()
  utf8 := id
  shallow := fun _ => true
  marshalIndent_ne_nil := by
    rintro (_ | m)
    · exact List.cons_ne_nil _ _
    · exact List.cons_ne_nil _ _
  isSome_of_failed := by
    rintro (_ | ⟨c, rest⟩) h
    · rfl
    · rw [readMap] at h ⊢
      split_ifs at h ⊢
      · cases readNames rest <;> rfl
      · rfl
  utf8_of_mem := fun _ _ _ _ _ => rfl
  shallow_of_mem := fun _ _ _ _ _ => rfl
  unmarshal_null := rfl
  unmarshal_map := by
    intro m _
    have hread := readNames_flatMap ((m.inOrder bytewise).map Prod.fst)
    rw [writeMap, readMap, if_neg (by simp), if_pos rfl, hread, Option.elim_some, List.map_map]
    rfl
  unmarshal_deep := by
    rintro m ⟨x, -, hx⟩
    cases hx
  unmarshal_cut := by
    rintro (_ | m) (_ | k) hk
    · rfl
    · simp [writeMap] at hk
    · rfl
    · have hnone := readNames_take ((m.inOrder bytewise).map Prod.fst) (Nat.lt_of_succ_lt_succ hk)
      rw [writeMap, List.take_succ_cons, readMap, if_neg (by simp), if_pos rfl, hnone]
      rfl

end Encoding

structure File where
  content : Bytes
  writes : ℕ
  deriving DecidableEq

abbrev Directory := Dict Bytes File

inductive WriteResult where
  | written
  | refused
  | cut (missing : ℕ)
  deriving DecidableEq

structure Faults where
  readable : Bool
  write : WriteResult
  deriving DecidableEq

def writeFile (d : Directory) (filename data : Bytes) : WriteResult → Directory
  | .refused => d
  | .written => d.insert filename ⟨data, ((d.lookup filename).elim 0 File.writes) + 1⟩
  | .cut missing =>
      d.insert filename
        ⟨data.take (data.length - (missing + 1)), ((d.lookup filename).elim 0 File.writes) + 1⟩

namespace JsonDB

variable (toLower : Bytes → Bytes) (E : Encoding)

def xPathToFilename (xPath : Bytes) : Bytes :=
  toLower (xPath.map (fun c => if c = 47 then 46 else c) ++ ascii ".json")

def readJsonFileAsMap (d : Directory) (readable : Bool) (filename : Bytes) :
    Option (Dict Bytes E.Value) :=
  match d.lookup filename with
  | none => some ∅
  | some f => if readable then (E.unmarshal f.content).1 else some ∅

def writeMapAsJsonFile (d : Directory) (filename : Bytes) (root : Option (Dict Bytes E.Value))
    (write : WriteResult) : Directory :=
  writeFile d filename (E.marshalIndent root) write

def set (d : Directory) (q : Faults) (xPath name value : Bytes) : Directory :=
  if (E.unmarshal value).2 then d
  else
    match readJsonFileAsMap E d q.readable (xPathToFilename toLower xPath) with
    -- the assignment to a nil map panics
    | none => d
    | some root =>
        writeMapAsJsonFile E d (xPathToFilename toLower xPath)
          (some (root.insert name (E.ofMap (E.unmarshal value).1))) q.write

def get (d : Directory) (readable : Bool) (xPath name : Bytes) : Option Bytes :=
  ((readJsonFileAsMap E d readable (xPathToFilename toLower xPath)).bind
    (AList.lookup name)).map E.marshal

def rem (d : Directory) (q : Faults) (xPath name : Bytes) : Directory :=
  writeMapAsJsonFile E d (xPathToFilename toLower xPath)
    ((readJsonFileAsMap E d q.readable (xPathToFilename toLower xPath)).map (AList.erase name))
    q.write

inductive Call where
  | set (xPath name value : Bytes)
  | rem (xPath name : Bytes)
  deriving DecidableEq

namespace Call

def xPath : Call → Bytes
  | set xPath _ _ => xPath
  | rem xPath _ => xPath

def name : Call → Bytes
  | set _ name _ => name
  | rem _ name => name

def apply (d : Directory) (q : Faults) : Call → Directory
  | set xPath name value => JsonDB.set toLower E d q xPath name value
  | rem xPath name => JsonDB.rem toLower E d q xPath name

end Call

def Unparsed (d : Directory) (readable : Bool) (filename : Bytes) : Prop :=
  ∃ f, d.lookup filename = some f ∧ (readable = false ∨ (E.unmarshal f.content).2 = true)

structure Keeps (d : Directory) (q : Faults) (call : Call) : Prop where
  others : ∀ xPath name,
    (xPathToFilename toLower xPath, name) ≠ (xPathToFilename toLower call.xPath, call.name) →
    ∀ b, get toLower E d true xPath name = some b →
      get toLower E (call.apply toLower E d q) true xPath name = some b
  untouched : Unparsed E d q.readable (xPathToFilename toLower call.xPath) →
    (call.apply toLower E d q).lookup (xPathToFilename toLower call.xPath) =
      d.lookup (xPathToFilename toLower call.xPath)

def Call.Rejected : Call → Prop
  | .set _ _ value => (E.unmarshal value).2 = true
  | .rem _ _ => False

def Call.Storable (root : Dict Bytes E.Value) : Call → Prop
  | .set _ name value =>
      E.shallow (E.ofMap (E.unmarshal value).1) = true ∧
        ∀ old, root.lookup (E.utf8 name) = some old → E.utf8 name ≠ name →
          bytewise (E.utf8 name) < bytewise name →
          E.marshal (E.ofMap (E.unmarshal value).1) = E.marshal old
  | .rem _ _ => True

def Harmless (d : Directory) (q : Faults) (call : Call) : Prop :=
  q.write = .refused ∨ call.Rejected E ∨
    ∀ f, d.lookup (xPathToFilename toLower call.xPath) = some f →
      q.readable = true ∧ (E.unmarshal f.content).2 = false ∧
        ∀ root, (E.unmarshal f.content).1 = some root →
          (∀ x ∈ root.items, x.1 = call.name) ∨ (q.write = .written ∧ call.Storable E root)

section Reread

variable {V : Type} {utf8 : Bytes → Bytes} {m : Dict Bytes V}

theorem lookup_reread {k : Bytes} {v : V} (hk : m.lookup k = some v)
    (hlast : ∀ k' v', m.lookup k' = some v' → utf8 k' = utf8 k → k' = k ∨ bytewise k' < bytewise k) :
    (reread utf8 m).lookup (utf8 k) = some v := by
  have hasymm : ∀ a b : Bytes, bytewise a < bytewise b → ¬ bytewise b < bytewise a :=
    fun _ _ => lt_asymm
  refine Dict.lookup_ofItems_map (x := (k, v)) hasymm
    (Dict.inOrder_pairwise bytewise_injective m) (Dict.mem_inOrder.mpr hk) ?_
  rintro ⟨k', v'⟩ hmem heq
  have hk' : m.lookup k' = some v' := Dict.mem_inOrder.mp hmem
  refine (hlast k' v' hk' heq).imp_left fun h => ?_
  subst h
  rw [Option.some.inj (hk'.symm.trans hk)]

theorem lookup_reread_of_valid (hvalid : ∀ x ∈ m.items, utf8 x.1 = x.1) {k : Bytes} {v : V}
    (hk : m.lookup k = some v) : (reread utf8 m).lookup k = some v := by
  have hfix : ∀ k' v', m.lookup k' = some v' → utf8 k' = k' :=
    fun k' v' h => hvalid (k', v') (Dict.mem_items.mpr h)
  have hread : (reread utf8 m).lookup (utf8 k) = some v := by
    refine lookup_reread hk fun k' v' hk' heq => Or.inl ?_
    rw [← hfix k' v' hk', heq, hfix k v hk]
  rwa [hfix k v hk] at hread

theorem lookup_reread_insert (hvalid : ∀ x ∈ m.items, utf8 x.1 = x.1) {name k : Bytes} {v old : V}
    (hk : m.lookup k = some old) (hne : k ≠ name) :
    (reread utf8 (m.insert name v)).lookup k =
      if k = utf8 name ∧ bytewise k < bytewise name then some v else some old := by
  have hfix : ∀ k' v', m.lookup k' = some v' → utf8 k' = k' :=
    fun k' v' h => hvalid (k', v') (Dict.mem_items.mpr h)
  have hcases : ∀ k' v', (m.insert name v).lookup k' = some v' →
      k' = name ∨ utf8 k' = k' := by
    intro k' v' h
    rw [Dict.lookup_insert] at h
    split_ifs at h with hname
    · exact Or.inl hname
    · exact Or.inr (hfix k' v' h)
  by_cases hlost : k = utf8 name ∧ bytewise k < bytewise name
  · rw [if_pos hlost]
    have hread : (reread utf8 (m.insert name v)).lookup (utf8 name) = some v := by
      refine lookup_reread (by rw [Dict.lookup_insert, if_pos rfl]) fun k' v' hk' heq => ?_
      refine (hcases k' v' hk').imp_right fun h => ?_
      rw [← h, heq, ← hlost.1]
      exact hlost.2
    rwa [← hlost.1] at hread
  · rw [if_neg hlost]
    have hread : (reread utf8 (m.insert name v)).lookup (utf8 k) = some old := by
      refine lookup_reread (by rw [Dict.lookup_insert, if_neg hne, hk]) fun k' v' hk' heq => ?_
      rw [hfix k old hk] at heq
      rcases hcases k' v' hk' with rfl | h
      · right
        have hle : ¬ bytewise k < bytewise k' := fun hlt => hlost ⟨heq.symm, hlt⟩
        exact lt_of_le_of_ne (not_lt.mp hle) fun h => hne (bytewise_injective h).symm
      · exact Or.inl (h.symm.trans heq)
    rwa [hfix k old hk] at hread

end Reread

section Writes

variable {d : Directory} {q : Faults} {call : Call} {f : File} {root : Dict Bytes E.Value}

theorem lookup_writeFile_of_ne (d : Directory) {filename other : Bytes} (data : Bytes)
    (write : WriteResult) (h : other ≠ filename) :
    (writeFile d filename data write).lookup other = d.lookup other := by
  cases write with
  | refused => rfl
  | written | cut missing => exact AList.lookup_insert_ne h

theorem lookup_writeFile (d : Directory) (filename : Bytes) {data : Bytes} (hdata : data ≠ [])
    {write : WriteResult} (hwrite : write ≠ .refused) :
    ∃ f, (writeFile d filename data write).lookup filename = some f ∧
      d.lookup filename ≠ some f ∧ (write = .written → f.content = data) ∧
      (write ≠ .written → ∃ k < data.length, f.content = data.take k) := by
  have hnew : ∀ content, d.lookup filename ≠
      some ⟨content, ((d.lookup filename).elim 0 File.writes) + 1⟩ := by
    intro content heq
    have hwrites := congrArg (fun o : Option File => o.elim 0 File.writes) heq
    simp only [Option.elim_some] at hwrites
    omega
  cases write with
  | refused => exact absurd rfl hwrite
  | written => exact ⟨_, AList.lookup_insert _, hnew _, fun _ => rfl, fun h => absurd rfl h⟩
  | cut missing =>
    have hlength : 0 < data.length := List.length_pos_iff.mpr hdata
    refine ⟨_, AList.lookup_insert _, hnew _, fun h => absurd h (by simp), fun _ => ?_⟩
    exact ⟨data.length - (missing + 1), by omega, rfl⟩

def Call.edit (root : Dict Bytes E.Value) : Call → Dict Bytes E.Value
  | .set _ name value => root.insert name (E.ofMap (E.unmarshal value).1)
  | .rem _ name => root.erase name

theorem Call.apply_of_refused (hq : q.write = .refused) : call.apply toLower E d q = d := by
  cases call with
  | set xPath name value =>
    rw [Call.apply, JsonDB.set]
    split_ifs
    · rfl
    · split
      · rfl
      · rw [writeMapAsJsonFile, hq]
        rfl
  | rem xPath name =>
    rw [Call.apply, JsonDB.rem, writeMapAsJsonFile, hq]
    rfl

theorem Call.apply_of_rejected (h : call.Rejected E) : call.apply toLower E d q = d := by
  cases call with
  | set xPath name value => exact if_pos h
  | rem xPath name => exact h.elim

theorem Call.apply_of_root (h : ¬ call.Rejected E)
    (hroot : readJsonFileAsMap E d q.readable (xPathToFilename toLower call.xPath) = some root) :
    call.apply toLower E d q = writeMapAsJsonFile E d (xPathToFilename toLower call.xPath)
      (some (call.edit E root)) q.write := by
  cases call with
  | set xPath name value =>
    rw [Call.Rejected] at h
    rw [Call.xPath] at hroot
    rw [Call.apply, JsonDB.set, if_neg h, hroot]
    rfl
  | rem xPath name =>
    rw [Call.xPath] at hroot
    rw [Call.apply, JsonDB.rem, hroot]
    rfl

theorem Call.lookup_apply_of_ne {other : Bytes}
    (h : other ≠ xPathToFilename toLower call.xPath) :
    (call.apply toLower E d q).lookup other = d.lookup other := by
  cases call with
  | set xPath name value =>
    rw [Call.apply, JsonDB.set]
    split_ifs
    · rfl
    · split
      · rfl
      · exact lookup_writeFile_of_ne d _ _ h
  | rem xPath name => exact lookup_writeFile_of_ne d _ _ h

theorem readJsonFileAsMap_of_file {filename : Bytes} (hf : d.lookup filename = some f) :
    readJsonFileAsMap E d true filename = (E.unmarshal f.content).1 := by
  rw [readJsonFileAsMap, hf]
  rfl

theorem Unparsed.exists_root {readable : Bool} {filename : Bytes}
    (h : Unparsed E d readable filename) :
    ∃ root, readJsonFileAsMap E d readable filename = some root := by
  obtain ⟨f, hf, hbad⟩ := h
  rw [readJsonFileAsMap, hf]
  cases readable with
  | false => exact ⟨∅, rfl⟩
  | true =>
    have hfailed := hbad.resolve_left (by simp)
    exact Option.isSome_iff_exists.mp (E.isSome_of_failed f.content hfailed)

theorem exists_of_get {xPath name b : Bytes} (h : get toLower E d true xPath name = some b) :
    ∃ f root v, d.lookup (xPathToFilename toLower xPath) = some f ∧
      (E.unmarshal f.content).1 = some root ∧ root.lookup name = some v ∧ E.marshal v = b := by
  obtain ⟨v, hv, hb⟩ := Option.map_eq_some_iff.mp h
  obtain ⟨root, hroot, hlookup⟩ := Option.bind_eq_some_iff.mp hv
  cases hf : d.lookup (xPathToFilename toLower xPath) with
  | none =>
    rw [readJsonFileAsMap, hf] at hroot
    obtain rfl := Option.some.inj hroot
    cases hlookup
  | some f =>
    rw [readJsonFileAsMap_of_file E hf] at hroot
    exact ⟨f, root, v, rfl, hroot, hlookup, hb⟩

theorem get_of_content {xPath name : Bytes}
    (hf : d.lookup (xPathToFilename toLower xPath) = some f)
    (hroot : (E.unmarshal f.content).1 = some root) :
    get toLower E d true xPath name = (root.lookup name).map E.marshal := by
  rw [get, readJsonFileAsMap_of_file E hf, hroot]
  rfl

end Writes

section Exact

variable {d : Directory} {q : Faults} {call : Call} {f : File} {root : Dict Bytes E.Value}

theorem Keeps.parsed (h : Keeps toLower E d q call) (hq : q.write ≠ .refused)
    (hcall : ¬ call.Rejected E) :
    ¬ Unparsed E d q.readable (xPathToFilename toLower call.xPath) := by
  intro hbad
  obtain ⟨root, hroot⟩ := hbad.exists_root
  have hsame := h.untouched hbad
  obtain ⟨f, hf, hne, -⟩ := lookup_writeFile d (xPathToFilename toLower call.xPath)
    (E.marshalIndent_ne_nil (some (call.edit E root))) hq
  rw [Call.apply_of_root toLower E hcall hroot, writeMapAsJsonFile, hf] at hsame
  exact hne hsame.symm

theorem Call.shallow_edit (hshallow : ∀ x ∈ root.items, E.shallow x.2 = true)
    (hstorable : call.Storable E root) :
    ∀ x ∈ (call.edit E root).items, E.shallow x.2 = true := by
  rintro ⟨k, v⟩ hx
  have hlookup := Dict.mem_items.mp hx
  cases call with
  | set xPath name value =>
    rw [Call.edit, Dict.lookup_insert] at hlookup
    split_ifs at hlookup with hk
    · rw [← Option.some.inj hlookup]
      exact hstorable.1
    · exact hshallow (k, v) (Dict.mem_items.mpr hlookup)
  | rem xPath name =>
    rw [Call.edit, Dict.lookup_erase] at hlookup
    split_ifs at hlookup
    exact hshallow (k, v) (Dict.mem_items.mpr hlookup)

theorem Call.lookup_edit (hvalid : ∀ x ∈ root.items, E.utf8 x.1 = x.1)
    (hstorable : call.Storable E root) {k : Bytes} (hk : k ≠ call.name) {v : E.Value}
    (hv : root.lookup k = some v) :
    ((reread E.utf8 (call.edit E root)).lookup k).map E.marshal = some (E.marshal v) := by
  cases call with
  | set xPath name value =>
    rw [Call.name] at hk
    rw [Call.edit, lookup_reread_insert hvalid hv hk]
    split_ifs with hlost
    · obtain ⟨rfl, hlt⟩ := hlost
      rw [Option.map_some, hstorable.2 v hv hk hlt]
    · rfl
  | rem xPath name =>
    rw [Call.name] at hk
    have herase : (root.erase name).lookup k = some v := by
      rw [Dict.lookup_erase, if_neg hk, hv]
    have hvalid' : ∀ x ∈ Dict.items (root.erase name), E.utf8 x.1 = x.1 := by
      rintro ⟨k', v'⟩ hx
      have hlookup := Dict.mem_items.mp hx
      rw [Dict.lookup_erase] at hlookup
      split_ifs at hlookup
      exact hvalid (k', v') (Dict.mem_items.mpr hlookup)
    rw [Call.edit, lookup_reread_of_valid hvalid' herase]
    rfl

theorem Call.storable_of_kept (hvalid : ∀ x ∈ root.items, E.utf8 x.1 = x.1)
    (hother : ∃ x ∈ root.items, x.1 ≠ call.name)
    (hkept : ∀ k v, k ≠ call.name → root.lookup k = some v →
      ((E.unmarshal (E.marshalIndent (some (call.edit E root)))).1.bind
        (AList.lookup k)).map E.marshal = some (E.marshal v)) :
    call.Storable E root := by
  cases call with
  | rem xPath name => trivial
  | set xPath name value =>
    have hshallow : ∀ x ∈ (Call.edit E root (.set xPath name value)).items,
        E.shallow x.2 = true := by
      by_contra hdeep
      push Not at hdeep
      obtain ⟨x, hx, hxdeep⟩ := hdeep
      obtain ⟨⟨k, v⟩, hkv, hk⟩ := hother
      have hget := hkept k v hk (Dict.mem_items.mp hkv)
      rw [E.unmarshal_deep _ ⟨x, hx, by simpa using hxdeep⟩] at hget
      cases hget
    have hnew : (name, E.ofMap (E.unmarshal value).1) ∈
        (Call.edit E root (.set xPath name value)).items := by
      rw [Dict.mem_items, Call.edit, Dict.lookup_insert, if_pos rfl]
    refine ⟨hshallow _ hnew, fun old hold hne hlt => ?_⟩
    have hget := hkept (E.utf8 name) old hne hold
    rw [E.unmarshal_map _ hshallow, Option.bind_some, Call.edit,
      lookup_reread_insert hvalid hold hne, if_pos ⟨rfl, hlt⟩] at hget
    exact Option.some.inj hget

theorem Call.get_apply (hcall : ¬ call.Rejected E) (hq : q.write ≠ .refused)
    (hroot : readJsonFileAsMap E d q.readable (xPathToFilename toLower call.xPath) = some root)
    {xPath : Bytes} (hx : xPathToFilename toLower xPath = xPathToFilename toLower call.xPath)
    (name : Bytes) :
    get toLower E (call.apply toLower E d q) true xPath name =
      if q.write = .written then
        ((E.unmarshal (E.marshalIndent (some (call.edit E root)))).1.bind
          (AList.lookup name)).map E.marshal
      else none := by
  obtain ⟨f, hf, -, hwritten, hcut⟩ := lookup_writeFile d (xPathToFilename toLower call.xPath)
    (E.marshalIndent_ne_nil (some (call.edit E root))) hq
  rw [get, Call.apply_of_root toLower E hcall hroot, hx, writeMapAsJsonFile,
    readJsonFileAsMap_of_file E hf]
  split_ifs with hw
  · rw [hwritten hw]
  · obtain ⟨k, hk, hcontent⟩ := hcut hw
    rw [hcontent, E.unmarshal_cut _ k hk]
    rfl

theorem Harmless.keeps (h : Harmless toLower E d q call) : Keeps toLower E d q call := by
  by_cases hq : q.write = .refused
  · have hself := call.apply_of_refused toLower E (d := d) hq
    exact ⟨fun _ _ _ _ hb => by rwa [hself], fun _ => by rw [hself]⟩
  by_cases hcall : call.Rejected E
  · have hself := Call.apply_of_rejected toLower E (d := d) (q := q) hcall
    exact ⟨fun _ _ _ _ hb => by rwa [hself], fun _ => by rw [hself]⟩
  have hfile := (h.resolve_left hq).resolve_left hcall
  constructor
  · intro xPath name hne b hb
    obtain ⟨f, root, v, hf, hroot, hv, rfl⟩ := exists_of_get toLower E hb
    by_cases hx : xPathToFilename toLower xPath = xPathToFilename toLower call.xPath
    · have hname : name ≠ call.name := fun heq => hne (by rw [hx, heq])
      rw [hx] at hf
      obtain ⟨hreadable, -, hothers⟩ := hfile f hf
      obtain ⟨hwritten, hstorable⟩ := (hothers root hroot).resolve_left fun hall =>
        hname (hall (name, v) (Dict.mem_items.mpr hv))
      have hread : readJsonFileAsMap E d q.readable (xPathToFilename toLower call.xPath) =
          some root := by
        rw [hreadable, readJsonFileAsMap_of_file E hf, hroot]
      rw [Call.get_apply toLower E hcall hq hread hx, if_pos hwritten,
        E.unmarshal_map _ (Call.shallow_edit E (E.shallow_of_mem _ _ hroot) hstorable)]
      exact Call.lookup_edit E (E.utf8_of_mem _ _ hroot) hstorable hname hv
    · rw [get, readJsonFileAsMap, Call.lookup_apply_of_ne toLower E hx]
      exact hb
  · rintro ⟨f, hf, hbad⟩
    obtain ⟨hreadable, hparsed, -⟩ := hfile f hf
    rcases hbad with h | h
    · exact absurd (hreadable.symm.trans h) (by simp)
    · exact absurd (hparsed.symm.trans h) (by simp)

theorem Keeps.harmless (h : Keeps toLower E d q call) : Harmless toLower E d q call := by
  by_cases hq : q.write = .refused
  · exact Or.inl hq
  by_cases hcall : call.Rejected E
  · exact Or.inr (Or.inl hcall)
  refine Or.inr (Or.inr fun f hf => ?_)
  have hparsed := h.parsed toLower E hq hcall
  have hreadable : q.readable = true := by
    by_contra hbad
    exact hparsed ⟨f, hf, Or.inl (by simpa using hbad)⟩
  have hok : (E.unmarshal f.content).2 = false := by
    by_contra hbad
    exact hparsed ⟨f, hf, Or.inr (by simpa using hbad)⟩
  refine ⟨hreadable, hok, fun root hroot => or_iff_not_imp_left.mpr fun hother => ?_⟩
  push Not at hother
  have hread : readJsonFileAsMap E d q.readable (xPathToFilename toLower call.xPath) =
      some root := by
    rw [hreadable, readJsonFileAsMap_of_file E hf, hroot]
  -- what the call leaves of another entry
  have hkept : ∀ k v, k ≠ call.name → root.lookup k = some v →
      (if q.write = .written then
        ((E.unmarshal (E.marshalIndent (some (call.edit E root)))).1.bind
          (AList.lookup k)).map E.marshal
      else none) = some (E.marshal v) := by
    intro k v hk hv
    rw [← Call.get_apply toLower E hcall hq hread rfl]
    apply h.others call.xPath k fun heq => hk (Prod.mk.inj heq).2
    rw [get_of_content toLower E hf hroot, hv]
    rfl
  have hwritten : q.write = .written := by
    by_contra hw
    obtain ⟨⟨k, v⟩, hkv, hk⟩ := hother
    have hlost := hkept k v hk (Dict.mem_items.mp hkv)
    rw [if_neg hw] at hlost
    cases hlost
  simp only [if_pos hwritten] at hkept
  exact ⟨hwritten, Call.storable_of_kept E (E.utf8_of_mem _ _ hroot) hother hkept⟩

end Exact

end JsonDB

end GoStream.Settings
