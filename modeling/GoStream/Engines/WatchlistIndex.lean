import GoStream.Engines.Rehydration

/-!
# What the watchlist engine finds in the library
-/

namespace GoStream.Engines

open Foundations Regex Inodes AutoRemove Quality Metadata
open MetaCache (filepathJoin)

def wordsOf (s : Bytes) : Bytes := s.filter isWord

def isIMDB (s : Bytes) : Bool :=
  (ascii "tt").isPrefixOf s && decide (2 < s.length) && (s.drop 2).all isDecimal

def stubStem (path : Bytes) : Bytes :=
  let base := filepathBase path
  if (ascii ".mkv").isSuffixOf base then base.take (base.length - 4) else base

def titleKey (stem : Bytes) : Option Bytes :=
  (reMYear.submatch stem).bind fun k =>
    (indexOf (groupText k 1) stem).bind fun i =>
      if 0 < i then some (wordsOf (stem.take i) ++ groupText k 1) else none

structure ExistingIndex where
  imdbSet : List Bytes
  titleIndex : Dict Bytes Bytes

namespace ExistingIndex

variable (x : ExistingIndex)

def addIMDB : Option Bytes → ExistingIndex
  | none => x
  | some imdb => { x with imdbSet := imdb :: x.imdbSet }

def addTitle (path : Bytes) : ExistingIndex :=
  match titleKey (stubStem path) with
  | none => x
  | some key => { x with titleIndex := x.titleIndex.insert key path }

end ExistingIndex

def isZeroSize : Option Json → Bool
  | some (.num literal) => Float64.parseFloat literal = some 0
  | _ => false

def indexedIMDB (readable : Bool) (data : Bytes) : Option (Option Bytes) :=
  if readable = false ∨ 10240 < data.length then some none
  else
    let content := trimSpace data
    if ([123] : Bytes).isPrefixOf content then
      match Json.parse content with
      | none => some none
      | some obj =>
          -- a stub without a size is passed over, title and all
          if isZeroSize (obj.field (ascii "size")) then none
          else some (some (obj.stringField (ascii "imdb")) |>.filter isIMDB)
    else
      match splitLines content with
      | _ :: size :: _ :: imdb :: _ =>
          if trimSpace size = ascii "0" ∨ trimSpace size = [] then none
          else some (some (trimSpace imdb) |>.filter isIMDB)
      | _ => some none

def indexStub (readable : Bytes → Bool) (x : ExistingIndex) (f : Bytes × Bytes) : ExistingIndex :=
  match indexedIMDB (readable f.1) f.2 with
  | none => x
  | some imdb => (x.addIMDB imdb).addTitle f.1

namespace WatchlistConfig

variable (c : WatchlistConfig)

def buildExistingIndex (order : MapOrder) (readable : Bytes → Bool) (files : Files) :
    ExistingIndex :=
  (stubsBelow c.lowering c.moviesDir order files).foldl (indexStub readable) ⟨[], ∅⟩

def lookupKey (item : WatchlistItem) : Bytes :=
  wordsOf (c.lowering.lower item.title) ++ item.year

def isAlreadyPresent (item : WatchlistItem) (x : ExistingIndex) : Bool :=
  (item.imdbID ≠ [] && x.imdbSet.contains item.imdbID) ||
    (x.titleIndex.lookup (c.lookupKey item)).getD [] ≠ []

end WatchlistConfig

section Index

variable (readable : Bytes → Bool) (x : ExistingIndex)

theorem mem_imdbSet (l : List (Bytes × Bytes)) (imdb : Bytes) :
    imdb ∈ (l.foldl (indexStub readable) x).imdbSet ↔
      imdb ∈ x.imdbSet ∨ ∃ f ∈ l, indexedIMDB (readable f.1) f.2 = some (some imdb) := by
  induction l generalizing x with
  | nil => simp
  | cons f l ih =>
    have htitle : ∀ y : ExistingIndex, (y.addTitle f.1).imdbSet = y.imdbSet := by
      intro y
      rw [ExistingIndex.addTitle]
      split <;> rfl
    have hfirst : imdb ∈ (indexStub readable x f).imdbSet ↔
        imdb ∈ x.imdbSet ∨ indexedIMDB (readable f.1) f.2 = some (some imdb) := by
      rw [indexStub]
      rcases indexedIMDB (readable f.1) f.2 with _ | _ | found
      · simp
      · simp [htitle, ExistingIndex.addIMDB]
      · simp [htitle, ExistingIndex.addIMDB, or_comm, eq_comm]
    rw [List.foldl_cons, ih, hfirst, List.exists_mem_cons_iff, or_assoc]

theorem titleIndex_iff (l : List (Bytes × Bytes)) (hl : ∀ f ∈ l, f.1 ≠ []) (key : Bytes) :
    ((l.foldl (indexStub readable) x).titleIndex.lookup key).getD [] ≠ [] ↔
      (x.titleIndex.lookup key).getD [] ≠ [] ∨
        ∃ f ∈ l, (indexedIMDB (readable f.1) f.2).isSome = true ∧
          titleKey (stubStem f.1) = some key := by
  induction l generalizing x with
  | nil => simp
  | cons f l ih =>
    have himdb : ∀ o, (x.addIMDB o).titleIndex = x.titleIndex := by
      rintro (_ | _) <;> rfl
    have hfirst : ((indexStub readable x f).titleIndex.lookup key).getD [] ≠ [] ↔
        (x.titleIndex.lookup key).getD [] ≠ [] ∨
          (indexedIMDB (readable f.1) f.2).isSome = true ∧
            titleKey (stubStem f.1) = some key := by
      rw [indexStub]
      cases indexedIMDB (readable f.1) f.2 with
      | none => simp
      | some imdb =>
        cases hkey : titleKey (stubStem f.1) with
        | none => simp [ExistingIndex.addTitle, hkey, himdb]
        | some key' =>
          by_cases heq : key = key'
          · subst heq
            simp [ExistingIndex.addTitle, hkey, hl f List.mem_cons_self]
          · simp [ExistingIndex.addTitle, hkey, himdb, heq, Ne.symm heq]
    rw [List.foldl_cons, ih _ fun g hg => hl g (List.mem_cons_of_mem _ hg), hfirst,
      List.exists_mem_cons_iff, or_assoc]

end Index

def WatchlistConfig.Identifies (c : WatchlistConfig) (readable : Bytes → Bool) (item : WatchlistItem)
    (f : Bytes × Bytes) : Prop :=
  ∃ imdb, indexedIMDB (readable f.1) f.2 = some imdb ∧
    (imdb = some item.imdbID ∧ item.imdbID ≠ [] ∨
      titleKey (stubStem f.1) = some (c.lookupKey item))

theorem path_ne_nil {L : Lowering} {dir path : Bytes} (h : isStubBelow L dir path = true) :
    path ≠ [] := by
  rintro rfl
  rw [isStubBelow, Bool.and_eq_true] at h
  cases dir with
  | nil => exact absurd h.1 (by decide)
  | cons d dir => exact absurd h.1 (by simp)

theorem isAlreadyPresent_iff (c : WatchlistConfig) (order : MapOrder) (readable : Bytes → Bool)
    (files : Files) (item : WatchlistItem) :
    c.isAlreadyPresent item (c.buildExistingIndex order readable files) = true ↔
      ∃ f, files.lookup f.1 = some f.2 ∧ isStubBelow c.lowering c.moviesDir f.1 = true ∧
        c.Identifies readable item f := by
  have hl : ∀ f ∈ stubsBelow c.lowering c.moviesDir order files, f.1 ≠ [] := fun f hf =>
    path_ne_nil (mem_stubsBelow.mp hf).2
  have himdb := mem_imdbSet readable ⟨[], ∅⟩ (stubsBelow c.lowering c.moviesDir order files)
    item.imdbID
  have htitle := titleIndex_iff readable ⟨[], ∅⟩ (stubsBelow c.lowering c.moviesDir order files) hl
    (c.lookupKey item)
  rw [WatchlistConfig.isAlreadyPresent, Bool.or_eq_true, Bool.and_eq_true, List.contains_iff_mem,
    decide_eq_true_eq, decide_eq_true_eq, WatchlistConfig.buildExistingIndex, himdb, htitle]
  constructor
  · rintro (⟨hid, h | ⟨f, hf, hindexed⟩⟩ | h | ⟨f, hf, hindexed, hkey⟩)
    · cases h
    · obtain ⟨hlookup, hbelow⟩ := mem_stubsBelow.mp hf
      exact ⟨f, hlookup, hbelow, some item.imdbID, hindexed, Or.inl ⟨rfl, hid⟩⟩
    · exact absurd rfl h
    · obtain ⟨hlookup, hbelow⟩ := mem_stubsBelow.mp hf
      obtain ⟨imdb, himdb⟩ := Option.isSome_iff_exists.mp hindexed
      exact ⟨f, hlookup, hbelow, imdb, himdb, Or.inr hkey⟩
  · rintro ⟨f, hlookup, hbelow, imdb, hindexed, ⟨rfl, hid⟩ | hkey⟩
    · exact Or.inl ⟨hid, Or.inr ⟨f, mem_stubsBelow.mpr ⟨hlookup, hbelow⟩, hindexed⟩⟩
    · refine Or.inr (Or.inr ⟨f, mem_stubsBelow.mpr ⟨hlookup, hbelow⟩, ?_, hkey⟩)
      rw [hindexed]
      rfl

theorem isAlreadyPresent_insert (c : WatchlistConfig) (order : MapOrder) (readable : Bytes → Bool)
    (files : Files) (item : WatchlistItem) {path : Bytes} (content : Bytes)
    (hpath : isStubBelow c.lowering c.moviesDir path = true) :
    c.isAlreadyPresent item
        (c.buildExistingIndex order readable (AList.insert path content files)) = true ↔
      c.isAlreadyPresent item
        (c.buildExistingIndex order readable (AList.erase path files)) = true ∨
        c.Identifies readable item (path, content) := by
  rw [isAlreadyPresent_iff, isAlreadyPresent_iff]
  constructor
  · rintro ⟨⟨path', data⟩, hlookup, hbelow, h⟩
    rw [Dict.lookup_insert] at hlookup
    split_ifs at hlookup with heq
    · obtain rfl := Option.some.inj hlookup
      subst heq
      exact Or.inr h
    · exact Or.inl ⟨(path', data), by rw [Dict.lookup_erase, if_neg heq, hlookup], hbelow, h⟩
  · rintro (⟨⟨path', data⟩, hlookup, hbelow, h⟩ | h)
    · rw [Dict.lookup_erase] at hlookup
      split_ifs at hlookup with heq
      exact ⟨(path', data), by rw [Dict.lookup_insert, if_neg heq, hlookup], hbelow, h⟩
    · exact ⟨(path, content), by rw [Dict.lookup_insert, if_pos rfl], hpath, h⟩

theorem indexedIMDB_stubContent (readable : Bool) {size : Int64} (hsize : 0 < size.toInt)
    (hexact : |size.toInt| < 2 ^ 53) (url magnet imdb : Bytes) :
    indexedIMDB readable (stubContent url size magnet imdb) = some none ∨
      indexedIMDB readable (stubContent url size magnet imdb) = some ((some imdb).filter isIMDB) := by
  have hfield : (Json.obj [(ascii "imdb", .str imdb), (ascii "magnet", .str magnet),
      (ascii "size", .num (itoa size.toInt)), (ascii "url", .str url)]).field (ascii "size") =
        some (.num (itoa size.toInt)) := rfl
  have hzero : isZeroSize (some (.num (itoa size.toInt))) = false := by
    rw [isZeroSize, Float64.parseFloat_itoa hexact, decide_eq_false_iff_not]
    intro h
    have heq : size.toInt = 0 := by exact_mod_cast Option.some.inj h
    omega
  rw [indexedIMDB]
  split_ifs
  · exact Or.inl rfl
  · refine Or.inr ?_
    rw [trimSpace_stubContent, if_pos (brace_stubContent _ _ _ _), parse_stubContent]
    dsimp only
    rw [hfield, hzero]
    rfl

structure WatchlistStub (c : WatchlistConfig) where
  item : WatchlistItem
  candidate : ProwlarrStream
  hash : InfoHash
  file : FileStat
  accepted : c.acceptsFile candidate file = true

namespace WatchlistStub

variable {c : WatchlistConfig} (w : WatchlistStub c)

def path : Bytes := c.mkvPath w.item w.candidate w.hash

def content : Bytes := c.mkvContent w.item w.candidate w.hash w.file

def emptied (magnet : Bytes) : Bytes :=
  stubContent (streamURL c.baseURL w.hash w.file.id.toInt) w.file.length magnet []

def tail : Bytes :=
  let tags := watchlistTags (c.lowering.lower w.candidate.title)
  (if tags ≠ [] then 95 :: tags else []) ++ 95 :: Engine.watchlist.tag w.hash

def stem : Bytes := cleanFilename (w.item.title ++ 95 :: w.item.year) ++ w.tail

def Present (order : MapOrder) (readable : Bytes → Bool) (files : Files) : Prop :=
  c.isAlreadyPresent w.item (c.buildExistingIndex order readable files) = true

def Recognised (order : MapOrder) (readable : Bytes → Bool) (files : Files) : Prop :=
  w.Present order readable (createMKV files w.path w.content .done).1 ∧
    ∀ magnet, w.Present order readable
      (createMKV (createMKV files w.path w.content .done).1 w.path (w.emptied magnet) .done).1

theorem size_spec : 0 < w.file.length.toInt ∧ |w.file.length.toInt| < 2 ^ 53 := by
  have haccepted := w.accepted
  have hmax := Int64.le_iff_toInt_le.mp (le_maxFileSize_of_acceptsWatchlist haccepted)
  rw [WatchlistConfig.acceptsFile, Bool.and_eq_true] at haccepted
  have hpos := length_pos_of_fileSizeGB (sizeGB_of_rankExact rfl haccepted.2).1
  have hlimit : maxFileSize.toInt = 107374182400 := by decide
  rw [hlimit] at hmax
  refine ⟨hpos, ?_⟩
  rw [abs_of_pos hpos]
  omega

theorem path_eq : w.path = filepathJoin c.moviesDir (w.stem ++ ascii ".mkv") := by
  have hsep : ascii "_" = [95] := rfl
  simp only [path, WatchlistConfig.mkvPath, stem, tail, Engine.filename, hsep]
  split_ifs <;> simp only [List.append_assoc, List.cons_append, List.nil_append]

theorem slash_not_mem_stem : 47 ∉ w.stem := by
  have hclean : ∀ s, 47 ∉ cleanFilename s := by
    intro s h
    rcases mem_replaceRuns (mem_of_mem_trimByte (List.mem_of_mem_take h)) with hc | ⟨hmem, -⟩
    · exact absurd hc (by decide)
    · obtain ⟨b, -, hb⟩ := List.mem_map.mp hmem
      split_ifs at hb with hok
      · subst hb
        exact absurd hok (by decide)
      · exact absurd hb (by decide)
  have htags : ∀ st, 47 ∉ watchlistTags st := by
    intro st
    rw [watchlistTags]
    split_ifs <;> decide
  have htag : 47 ∉ Engine.watchlist.tag w.hash := fun h =>
    absurd (List.all_eq_true.mp (tag_spec .watchlist w.hash).2 47 h) (by decide)
  have hif : ∀ (p : Prop) [Decidable p], 47 ∉ if p then
      (95 : UInt8) :: watchlistTags (c.lowering.lower w.candidate.title) else [] := by
    intro p _
    split_ifs
    · simp [htags]
    · simp
  rw [stem, tail, List.mem_append, List.mem_append, List.mem_cons]
  rintro (h | h | h | h)
  · exact hclean _ h
  · exact hif _ h
  · exact absurd h (by decide)
  · exact htag h

theorem stubStem_path : stubStem w.path = w.stem := by
  have hslash : 47 ∉ w.stem ++ ascii ".mkv" := by
    rw [List.mem_append]
    rintro (h | h)
    · exact w.slash_not_mem_stem h
    · exact absurd h (by decide)
  have hmkv : (ascii ".mkv").isSuffixOf (w.stem ++ ascii ".mkv") = true := by
    rw [List.isSuffixOf_iff_suffix]
    exact List.suffix_append _ _
  have hlength : (w.stem ++ ascii ".mkv").length - 4 = w.stem.length := by
    rw [List.length_append]
    rfl
  rw [stubStem, path_eq, filepathBase_join _ (by simp [ascii]) hslash,
    if_pos hmkv, hlength, List.take_left]

theorem isStubBelow_path : isStubBelow c.lowering c.moviesDir w.path = true := by
  rw [path_eq, filepathJoin]
  exact isStubBelow_append c.lowering c.moviesDir w.stem

section Recognised

variable (order : MapOrder) (readable : Bytes → Bool) (files : Files)

theorem identifies_emptied_iff (magnet : Bytes) :
    c.Identifies readable w.item (w.path, w.emptied magnet) ↔
      titleKey w.stem = some (c.lookupKey w.item) := by
  have hindexed : indexedIMDB (readable w.path) (w.emptied magnet) = some none := by
    rcases indexedIMDB_stubContent (readable w.path) w.size_spec.1 w.size_spec.2
      (streamURL c.baseURL w.hash w.file.id.toInt) magnet [] with h | h
    · exact h
    · exact h
  rw [WatchlistConfig.Identifies, stubStem_path, hindexed]
  constructor
  · rintro ⟨imdb, himdb, ⟨hid, -⟩ | hkey⟩
    · rw [hid] at himdb
      exact absurd (Option.some.inj himdb) (by simp)
    · exact hkey
  · intro hkey
    exact ⟨none, rfl, Or.inr hkey⟩

theorem identifies_content (hkey : titleKey w.stem = some (c.lookupKey w.item)) :
    c.Identifies readable w.item (w.path, w.content) := by
  rw [WatchlistConfig.Identifies, stubStem_path]
  rcases indexedIMDB_stubContent (readable w.path) w.size_spec.1 w.size_spec.2
      (streamURL c.baseURL w.hash w.file.id.toInt)
      (buildMagnet w.candidate.infoHash.digits w.item.title defaultTrackers) w.item.imdbID with h | h
  · exact ⟨_, h, Or.inr hkey⟩
  · exact ⟨_, h, Or.inr hkey⟩

end Recognised

end WatchlistStub

def watchlistSample : WatchlistConfig where
  lowering := .ascii
  baseURL := ascii "http://localhost:8090"
  moviesDir := ascii "/movies"
  sort := .insertion

def matrixItem : WatchlistItem := ⟨ascii "The Matrix", ascii "1999", ascii "tt0133093"⟩

def matrixStream : ProwlarrStream := ⟨[], ascii "The Matrix 1999 1080p", hashC, 1⟩

def matrixStub : WatchlistStub watchlistSample where
  item := matrixItem
  candidate := matrixStream
  hash := hashC
  file := filmFile
  accepted := by decide +kernel

end GoStream.Engines
