import GoStream.Engines.TV
import GoStream.Engines.Watchlist
import GoStream.Metadata.Reader

/-!
# Stubs that can be read
-/

namespace GoStream.Engines

open Foundations Regex Inodes AutoRemove Quality Metadata

structure GoStormURL where
  text : Bytes
  http : isHTTP text = true

def GoStormURL.client (b : GoStormURL) : Bytes := (b.text.reverse.dropWhile (· = 47)).reverse

def Readable (content url : Bytes) (size : Int64) : Prop :=
  ∃ m, readMetadata content = .ok m ∧ m.url = url ∧ m.size = size

inductive Written (b : GoStormURL) : List FileStat → Bytes → Bytes → Int64 → Prop
  | movie (c : MovieConfig) (hc : c.baseURL = b.client) (movie : Movie) (imdbID : Bytes)
      (stream : MovieStream) (hash : InfoHash) (files : List FileStat) (f : FileStat)
      (hf : c.bestMovieFile stream files = some f) :
      Written b (files.filter (c.acceptsFile stream)) (c.mkvContent movie imdbID stream hash f)
        (streamURL c.baseURL hash f.id.toInt) f.length
  | tv (c : TVConfig) (hc : c.baseURL = b.client) (s : TVState) (job : Job) (x : Creation)
      (hx : TVOp.attempt x ∈ job.ops c s) :
      Written b (job.passing c) (x.content c) (streamURL c.baseURL x.hash x.file.id.toInt)
        x.file.length
  | watchlist (c : WatchlistConfig) (hc : c.baseURL = b.client) (item : WatchlistItem)
      (candidate : ProwlarrStream) (hash : InfoHash) (files : List FileStat) (f : FileStat)
      (hf : c.bestWatchlistFile candidate files = some f) :
      Written b (files.filter (c.acceptsFile candidate)) (c.mkvContent item candidate hash f)
        (streamURL c.baseURL hash f.id.toInt) f.length

theorem GoStormURL.client_cases (b : GoStormURL) :
    (∃ w, b.client = ascii "http://" ++ w) ∨ (∃ w, b.client = ascii "https://" ++ w) ∨
      b.client = ascii "http:" ∨ b.client = ascii "https:" := by
  have htrim : ∀ u v : Bytes, ((u ++ v).reverse.dropWhile (· = 47)).reverse =
        u ++ (v.reverse.dropWhile (· = 47)).reverse ∨
      ((u ++ v).reverse.dropWhile (· = 47)).reverse = (u.reverse.dropWhile (· = 47)).reverse := by
    intro u v
    rw [List.reverse_append, List.dropWhile_append]
    split_ifs
    · exact .inr rfl
    · exact .inl (by simp)
  have hhttp := b.http
  rw [isHTTP, Bool.or_eq_true, List.isPrefixOf_iff_prefix, List.isPrefixOf_iff_prefix] at hhttp
  rcases hhttp with ⟨v, hv⟩ | ⟨v, hv⟩
  · rcases htrim (ascii "http://") v with h | h
    · exact .inl ⟨_, by rw [client, ← hv, h]⟩
    · exact .inr (.inr (.inl (by rw [client, ← hv, h]; rfl)))
  · rcases htrim (ascii "https://") v with h | h
    · exact .inr (.inl ⟨_, by rw [client, ← hv, h]⟩)
    · exact .inr (.inr (.inr (by rw [client, ← hv, h]; rfl)))

theorem isHTTP_streamURL (b : GoStormURL) (hash : InfoHash) (index : ℤ) :
    isHTTP (streamURL b.client hash index) = isHTTP b.client := by
  simp only [streamURL, List.append_assoc]
  rcases b.client_cases with ⟨w, h⟩ | ⟨w, h⟩ | h | h
  · rw [h]; rfl
  · rw [h]; rfl
  · rw [h]; rfl
  · rw [h]; rfl

theorem trimmed_streamURL (b : GoStormURL) (hash : InfoHash) (index : ℤ) :
    Trimmed (streamURL b.client hash index) := by
  constructor
  · intro c hc
    simp only [streamURL, List.append_assoc] at hc
    rcases b.client_cases with ⟨w, h⟩ | ⟨w, h⟩ | h | h
    all_goals
      rw [h] at hc
      obtain rfl := Option.some.inj hc
      rfl
  · intro c hc
    rw [streamURL, List.getLast?_append_of_ne_nil _ (by decide)] at hc
    obtain rfl := Option.some.inj hc
    rfl

theorem hasMembers_stubContent (url : Bytes) (size : Int64) (magnet imdb : Bytes) :
    HasMembers (Json.parse (stubContent url size magnet imdb)) url size magnet imdb := by
  refine ⟨_, parse_stubContent url size magnet imdb, fun m => ?_⟩
  simp only [stubMembers, List.mem_cons, List.not_mem_nil, or_false]
  constructor
  · rintro (h | h | h | h) <;> simp [h]
  · rintro (h | h | h | h) <;> simp [h]

theorem readMetadata_stubContent {url : Bytes} (hurl : Trimmed url) (size : Int64) (magnet imdb : Bytes) :
    readMetadata (stubContent url size magnet imdb) =
      validate url size imdb (stubContent url size magnet imdb) := by
  have h := readMetadata_json (stubContent url size magnet imdb)
    (by rw [trimSpace_stubContent]; exact brace_stubContent _ _ _ _)
    (by rw [trimSpace_stubContent]; exact hasMembers_stubContent url size magnet imdb)
  rw [hurl.trimSpace_eq, trimSpace_stubContent] at h
  exact h

theorem readable_stubContent_iff {url : Bytes} (hurl : Trimmed url) (size : Int64) (magnet imdb : Bytes) :
    Readable (stubContent url size magnet imdb) url size ↔
      isHTTP url = true ∧ minFileSize ≤ size ∧ size ≤ maxFileSize := by
  rw [Readable, readMetadata_stubContent hurl, validate]
  by_cases hhttp : isHTTP url = true
  · rw [if_neg (by simp [hhttp])]
    by_cases hsize : size < minFileSize ∨ maxFileSize < size
    · rw [if_pos hsize]
      refine iff_of_false (by simp) ?_
      rintro ⟨-, hmin, hmax⟩
      rcases hsize with hlt | hlt
      · exact Int64.not_lt.mpr hmin hlt
      · exact Int64.not_lt.mpr hmax hlt
    · rw [if_neg hsize]
      rw [not_or, Int64.not_lt, Int64.not_lt] at hsize
      exact iff_of_true ⟨_, rfl, rfl, rfl⟩ ⟨hhttp, hsize⟩
  · rw [if_pos (by simpa using hhttp)]
    exact iff_of_false (by simp) fun h => hhttp h.1

theorem le_maxFileSize {f : FileStat} (h : fileSizeGB f.length.toInt ≤ 2) : f.length ≤ maxFileSize := by
  have hmax : fileSizeGB 107374182400 = 100 := by decide +kernel
  have hlt : f.length.toInt < 107374182400 :=
    length_lt_of_fileSizeGB (by norm_num) (by rw [hmax]; linarith)
  rw [Int64.le_iff_toInt_le]
  exact hlt.le

theorem le_maxFileSize_of_acceptsFile {c : MovieConfig} {stream : MovieStream} {f : FileStat}
    (h : c.acceptsFile stream f = true) : f.length ≤ maxFileSize := by
  rw [MovieConfig.acceptsFile, Bool.and_eq_true] at h
  exact le_maxFileSize (sizeGB_of_rankExact rfl h.2).2

theorem le_maxFileSize_of_acceptsWatchlist {c : WatchlistConfig} {candidate : ProwlarrStream}
    {f : FileStat} (h : c.acceptsFile candidate f = true) : f.length ≤ maxFileSize := by
  rw [WatchlistConfig.acceptsFile, Bool.and_eq_true] at h
  exact le_maxFileSize (sizeGB_of_rankExact rfl h.2).2

theorem size_of_passes {c : TVConfig} {stream : TVStream} {fallback : Resolution} {f : FileStat}
    (h : c.passes stream fallback f = true) : minFileSize ≤ f.length ∧ f.length ≤ maxFileSize := by
  rw [TVConfig.passes, Bool.and_eq_true, Bool.and_eq_true, decide_eq_true_eq] at h
  obtain ⟨⟨-, hmin⟩, hrank⟩ := h
  have hmax := (sizeGB_of_rankExact rfl hrank).2
  refine ⟨?_, le_maxFileSize (hmax.trans (by decide +kernel))⟩
  rw [Int64.le_iff_toInt_le]
  exact le_trans (by decide) hmin

theorem longest_of_head_sort (S : SliceSort) {l : List FileStat} {f : FileStat}
    (h : (S.sort (fun f g => g.length < f.length) l).head? = some f) :
    f ∈ l ∧ ∀ g ∈ l, g.length ≤ f.length := by
  have horders : OrdersOn (fun f g : FileStat => decide (g.length < f.length)) l := by
    refine ⟨fun a _ => by simp, fun a _ b _ c _ hab hbc => ?_, fun a _ b _ c _ hab hbc => ?_⟩
    · rw [decide_eq_true_eq] at hab hbc ⊢
      exact Int64.lt_trans hbc hab
    · rw [decide_eq_false_iff_not, Int64.not_lt] at hab hbc ⊢
      exact Int64.le_trans hab hbc
  have hsorted := S.ascending _ l horders
  cases hl : S.sort (fun f g : FileStat => decide (g.length < f.length)) l with
  | nil => rw [hl] at h; cases h
  | cons first rest =>
    rw [hl] at h hsorted
    obtain rfl := Option.some.inj h
    have hmem : ∀ g, g ∈ first :: rest ↔ g ∈ l := fun g => by
      rw [← hl]
      exact S.mem_sort _
    refine ⟨(hmem first).mp List.mem_cons_self, fun g hg => ?_⟩
    rcases List.mem_cons.mp ((hmem g).mpr hg) with rfl | hrest
    · exact Int64.le_refl _
    · have hless := (List.pairwise_cons.mp hsorted).1 g hrest
      rw [decide_eq_false_iff_not, Int64.not_lt] at hless
      exact hless

theorem longest_readable_iff {b : GoStormURL} {passing : List FileStat} {f : FileStat} {hash : InfoHash}
    {magnet imdb : Bytes} (hf : f ∈ passing ∧ ∀ g ∈ passing, g.length ≤ f.length)
    (hmax : f.length ≤ maxFileSize) :
    Readable (stubContent (streamURL b.client hash f.id.toInt) f.length magnet imdb)
        (streamURL b.client hash f.id.toInt) f.length ↔
      isHTTP b.client = true ∧ ∃ g ∈ passing, minFileSize ≤ g.length := by
  rw [readable_stubContent_iff (trimmed_streamURL b hash f.id.toInt), isHTTP_streamURL]
  refine and_congr_right fun _ => ⟨fun h => ⟨f, hf.1, h.1⟩, ?_⟩
  rintro ⟨g, hg, hmin⟩
  exact ⟨Int64.le_trans hmin (hf.2 g hg), hmax⟩

/-- When a stub that is written can be read. -/
theorem written_stub_readable_iff {b : GoStormURL} {passing : List FileStat} {content url : Bytes}
    {size : Int64} (h : Written b passing content url size) :
    Readable content url size ↔
      isHTTP b.client = true ∧ ∃ f ∈ passing, minFileSize ≤ f.length := by
  cases h with
  | movie c hc movie imdbID stream hash files f hf =>
    have hlongest := longest_of_head_sort c.sort hf
    rw [MovieConfig.mkvContent, hc]
    exact longest_readable_iff hlongest
      (le_maxFileSize_of_acceptsFile (List.mem_filter.mp hlongest.1).2)
  | tv c hc s job x hx =>
    have hpasses := (from_of_mem_ops hx).passes
    have hsize : minFileSize ≤ x.file.length ∧ x.file.length ≤ maxFileSize := by
      cases job with
      | fullpack | single => exact size_of_passes (List.mem_filter.mp hpasses).2
    rw [Creation.content, hc, readable_stubContent_iff (trimmed_streamURL b x.hash x.file.id.toInt),
      isHTTP_streamURL]
    exact and_congr_right fun _ => iff_of_true hsize ⟨x.file, hpasses, hsize.1⟩
  | watchlist c hc item candidate hash files f hf =>
    unfold WatchlistConfig.bestWatchlistFile at hf
    split_ifs at hf
    have hlongest := longest_of_head_sort c.sort hf
    rw [WatchlistConfig.mkvContent, hc]
    exact longest_readable_iff hlongest
      (le_maxFileSize_of_acceptsWatchlist (List.mem_filter.mp hlongest.1).2)

def localURL : GoStormURL := ⟨ascii "http://localhost:8090/", by decide⟩

theorem localURL_client : movieSample.baseURL = localURL.client := by decide +kernel

theorem film_stub_readable :
    Readable (movieSample.mkvContent film filmID smallFilm hashC filmFile)
      (streamURL movieSample.baseURL hashC filmFile.id.toInt) filmFile.length := by
  have hbest : movieSample.bestMovieFile smallFilm [filmFile] = some filmFile := by decide +kernel
  have hpassing : filmFile ∈ [filmFile].filter (movieSample.acceptsFile smallFilm) :=
    (longest_of_head_sort movieSample.sort hbest).1
  exact (written_stub_readable_iff (.movie movieSample localURL_client film filmID smallFilm hashC
    [filmFile] filmFile hbest)).mpr ⟨by decide +kernel, filmFile, hpassing, by decide⟩

def shortFile : FileStat := ⟨1, ascii "a.mkv", 50000000⟩

theorem short_film_stub_refused :
    movieSample.bestMovieFile smallFilm [shortFile] = some shortFile ∧
      readMetadata (movieSample.mkvContent film filmID smallFilm hashC shortFile) =
        .error (.invalidSize 50000000) := by
  refine ⟨by decide +kernel, ?_⟩
  have hread := readMetadata_stubContent (trimmed_streamURL localURL hashC shortFile.id.toInt)
    shortFile.length (buildMagnet smallFilm.hash.digits film.name defaultTrackers) filmID
  rw [MovieConfig.mkvContent, localURL_client, hread, validate, isHTTP_streamURL]
  decide +kernel

end GoStream.Engines
