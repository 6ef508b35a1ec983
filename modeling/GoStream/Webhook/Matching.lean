import GoStream.Engines.GoStorm

/-!
# Webhooks of the media server
-/

namespace GoStream.Webhook

open Foundations Regex Inodes Engines

def extractHashSuffix (filename : Bytes) : Bytes :=
  let base := filename.take (filename.length - (filepathExt filename).length)
  if base.contains 95 && (afterLast 95 base).length = 8 then afterLast 95 base else []

def upTo2Digits : Regex := .seq digit (opt digit)

def episodeDigits : Regex := .seq (.star (.byte 48)) (.group 1 (.seq digit (upTo 2 digit)))

def seasonEpisode : Regex := inOrder [foldByte 115, upTo2Digits, foldByte 101, episodeDigits]

def reWebhookSeasonEpisode : Regex := inOrder [.boundary, seasonEpisode, .boundary]

def reWebhookEpisodeWord : Regex :=
  inOrder [.boundary,
    oneOf [fold (ascii "episode"), fold (ascii "episodio"), fold (ascii "ep"), fold (ascii "e")],
    .star (cls isSpace), episodeDigits, .boundary]

def bytesFrom (lo hi : ℕ) : List UInt8 := (List.range' lo (hi - lo)).map UInt8.ofNat

def anyOf (l : List UInt8) : Regex := oneOf (l.map .byte)

def wideOther : Regex :=
  oneOf [.seq (anyOf ((bytesFrom 128 256).filter fun c => c ≠ 0xC5 && c ≠ 0xE2))
      (.star (anyOf (bytesFrom 128 192))),
    .seq (.byte 0xC5) (anyOf (bytesFrom 128 191)),
    inOrder [.byte 0xE2, anyOf ((bytesFrom 128 192).filter (· ≠ 0x84)), anyOf (bytesFrom 128 192)],
    inOrder [.byte 0xE2, .byte 0x84, anyOf ((bytesFrom 128 192).filter (· ≠ 0xAA))]]

def isAlnum (c : UInt8) : Bool := isDecimal c || (65 ≤ c && c ≤ 90) || (97 ≤ c && c ≤ 122)

def separator : Regex := .alt (cls fun c => !isAlnum c) wideOther

def submatchApart (r : Regex) (s : Bytes) : Option Captures :=
  let apart := Regex.seq r (.alt separator .textEnd)
  match ((Regex.alt apart (.seq separator apart)).ends ⟨[], s⟩).head? with
  | some x => some x.2
  | none =>
    match s with
    | [] => none
    | b :: s => (Regex.seq separator apart).submatchFrom [b] s

def rePathSeasonEpisode (s : Bytes) : Option Captures := submatchApart seasonEpisode s

def rePathSeasonXEpisode (s : Bytes) : Option Captures :=
  submatchApart (inOrder [upTo2Digits, foldByte 120, episodeDigits]) s

def episodeOf (found : Option Captures) : Option ℤ :=
  found.bind fun k => (parseInt (groupText k 1)).map Int64.toInt

def extractWebhookEpisodeNumber (title : Bytes) : Option ℤ :=
  (episodeOf (reWebhookSeasonEpisode.submatch title)).or
    (episodeOf (reWebhookEpisodeWord.submatch title))

def extractPathEpisodeNumber (path : Bytes) : Option ℤ :=
  let filename := filepathBase path
  (episodeOf (rePathSeasonEpisode filename)).or (episodeOf (rePathSeasonXEpisode filename))

def reImdbID : Regex :=
  inOrder [lit (ascii "\"imdb://"), .group 1 (.seq (lit (ascii "tt")) (plus digit)), .byte 34]

inductive LibraryType
  | movie
  | tvShow
  deriving DecidableEq

inductive Event
  | play
  | resume
  | stop
  deriving DecidableEq

structure Payload where
  text : Bytes
  event : Bytes
  title : Bytes
  grandparentTitle : Bytes
  year : ℤ
  librarySectionType : Bytes
  media : List (List Bytes)

def Payload.normalizedEvent (p : Payload) : Option Event :=
  if p.event = ascii "media.play" ∨ p.event = ascii "PlaybackStart" then some .play
  else if p.event = ascii "media.resume" ∨ p.event = ascii "PlaybackProgress" then some .resume
  else if p.event = ascii "media.stop" ∨ p.event = ascii "PlaybackStop" then some .stop
  else none

def Payload.libraryType (p : Payload) : Option LibraryType :=
  if p.librarySectionType = ascii "movie" ∨ p.librarySectionType = ascii "Movie" then some .movie
  else if p.librarySectionType = ascii "show" ∨ p.librarySectionType = ascii "Episode" then
    some .tvShow
  else none

structure Target where
  library : LibraryType
  title : Bytes
  series : Bytes
  year : ℤ
  episode : Option ℤ
  suffix : Bytes
  imdbID : Bytes
  files : List Bytes
  deriving DecidableEq

def Payload.target (L : Lowering) (p : Payload) (library : LibraryType) : Target where
  library := library
  title := L.lower p.title
  series := L.lower p.grandparentTitle
  year := p.year
  episode := extractWebhookEpisodeNumber (L.lower p.title)
  suffix := ((p.media.flatten.map extractHashSuffix).find? (· ≠ [])).getD []
  imdbID := ((reImdbID.submatch p.text).map (groupText · 1)).getD []
  files := p.media.flatten

structure PlaybackState where
  hash : Bytes
  imdbID : Bytes
  confirmedAt : ℤ
  isHealthy : Bool
  isStopped : Bool
  deriving DecidableEq

structure Registry where
  states : Dict Bytes PlaybackState
  named : [] ∉ states

abbrev Entry := Bytes × PlaybackState

def Registry.entries (r : Registry) : List Entry := r.states.items

theorem Registry.path_ne_nil {r : Registry} {e : Entry} (h : e ∈ r.entries) : e.1 ≠ [] := by
  intro hnil
  apply r.named
  rw [← hnil]
  exact Dict.mem_keys_of_mem_items h

def Registry.update (r : Registry) (path : Bytes) (h : path ≠ []) (state : PlaybackState) :
    Registry where
  states := AList.insert path state r.states
  named := by
    rw [AList.mem_insert]
    rintro (hnil | hmem)
    · exact h hnil.symm
    · exact r.named hmem

def pathMatchesWebhookEpisode (path : Bytes) (t : Target) : Bool :=
  match t.library, t.episode with
  | .tvShow, some n => extractPathEpisodeNumber path = some n
  | _, _ => true

inductive Rule
  | imdb
  | suffix
  | file
  deriving DecidableEq

def Rule.rank : Rule → ℕ
  | .imdb => 0
  | .suffix => 1
  | .file => 2

def Target.rule (t : Target) (e : Entry) : Option Rule :=
  if t.imdbID ≠ [] ∧ e.2.imdbID ≠ [] ∧ e.2.imdbID = t.imdbID ∧ pathMatchesWebhookEpisode e.1 t then
    some .imdb
  else if t.suffix ≠ [] ∧ extractHashSuffix e.1 = t.suffix then some .suffix
  else if t.files.any fun f => filepathBase f = filepathBase e.1 then some .file
  else none

def Target.exact (t : Target) (entries : List Entry) : Option Entry :=
  entries.find? fun e => (t.rule e).isSome

def sectionDir : LibraryType → Bytes
  | .tvShow => ascii "/tv/"
  | .movie => ascii "/movies/"

def Target.unlabelled (t : Target) (entries : List Entry) : List Entry :=
  entries.filter fun e =>
    t.imdbID ≠ [] && contains e.1 (sectionDir t.library) && e.2.imdbID = [] &&
      pathMatchesWebhookEpisode e.1 t

def Target.bootstrap (t : Target) (entries : List Entry) : Option Entry :=
  match t.unlabelled entries with
  | [e] => some e
  | _ => none

def replaceSpaces (b : UInt8) (s : Bytes) : Bytes := s.map fun c => if c = 32 then b else c

def containsTitle (filename title : Bytes) : Bool :=
  contains filename (replaceSpaces 46 title) || contains filename (replaceSpaces 95 title)

def cleanWord (word : Bytes) : Bytes := (word.reverse.dropWhile (ascii ":.,;!?").contains).reverse

section Fuzzy

variable (L : Lowering) (fields : Bytes → List Bytes) (t : Target)

def Target.titleLevel (filename : Bytes) : ℕ :=
  if t.title ≠ [] ∧ containsTitle filename t.title then 3
  else
    let series :=
      if t.series = [] then 0
      else if containsTitle filename t.series then 2
      else
        match fields t.series with
        | [] => 0
        | word :: _ =>
          if 4 < word.length ∧ 4 < (cleanWord word).length ∧
              contains filename (cleanWord word) then 1
          else 0
    if series ≠ 0 then series
    else
      match fields t.title with
      | [] => 0
      | word :: _ =>
        if 3 < word.length ∧ contains filename word ∧ 0 < t.year ∧ contains filename (itoa t.year)
        then 1
        else 0

def Target.level (e : Entry) : ℕ :=
  if pathMatchesWebhookEpisode e.1 t then t.titleLevel fields (L.lower (filepathBase e.1)) else 0

def Target.fuzzy (entries : List Entry) : Option Entry := firstBest (t.level L fields) entries

end Fuzzy

structure Orders where
  exact : MapOrder
  bootstrap : MapOrder
  fuzzy : MapOrder

inductive Act
  | confirmed (path : Bytes)
  | stopped (path : Bytes)
  | pumpTerminated (path : Bytes)
  | shieldReset
  | prioritized (hash : Bytes) (on : Bool)
  deriving DecidableEq

structure World where
  registry : Registry
  activePumps : List Bytes

structure Circumstances where
  lowering : Lowering
  fields : Bytes → List Bytes
  now : ℤ
  loaded : Bytes → Bool

variable (c : Circumstances) (orders : Orders)

def Target.select (t : Target) (event : Event) (entries : List Entry) : Option Entry :=
  ((t.exact (orders.exact.arrange entries)).or
    (if event = .stop then none else t.bootstrap (orders.bootstrap.arrange entries))).or
    (t.fuzzy c.lowering c.fields (orders.fuzzy.arrange entries))

def prioritize (hash : Bytes) (on : Bool) : List Act :=
  if hash ≠ [] ∧ c.loaded hash then [.prioritized hash on] else []

def PlaybackState.confirm (s : PlaybackState) (now : ℤ) (imdbID : Bytes) : PlaybackState :=
  { s with
    isHealthy := true
    confirmedAt := now
    isStopped := false
    imdbID := if s.imdbID = [] then imdbID else s.imdbID }

def PlaybackState.halt (s : PlaybackState) (now : ℤ) : PlaybackState :=
  { s with isHealthy := false, confirmedAt := now, isStopped := true }

def respond (t : Target) (event : Event) (w : World) (e : Entry) (h : e.1 ≠ []) :
    World × List Act :=
  match event with
  | .stop =>
    ({ registry := w.registry.update e.1 h (e.2.halt c.now)
       activePumps := w.activePumps.filter (· ≠ e.1) },
      .stopped e.1 :: ((if w.activePumps.contains e.1 then [.pumpTerminated e.1] else []) ++
        .shieldReset :: prioritize c e.2.hash false))
  | _ =>
    ({ w with registry := w.registry.update e.1 h (e.2.confirm c.now t.imdbID) },
      .confirmed e.1 :: prioritize c e.2.hash true)

def handlePlexWebhook (w : World) (p : Payload) : World × List Act :=
  match p.normalizedEvent, p.libraryType with
  | some event, some library =>
    let t := p.target c.lowering library
    match t.select c orders event w.registry.entries with
    | none => (w, [])
    | some e => if h : e.1 ≠ [] then respond c t event w e h else (w, [])
  | _, _ => (w, [])

def selected (r : Registry) (p : Payload) : Option Entry :=
  match p.normalizedEvent, p.libraryType with
  | some event, some library => (p.target c.lowering library).select c orders event r.entries
  | _, _ => none

end GoStream.Webhook
