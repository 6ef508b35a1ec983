import GoStream.AutoRemove.Ownership
import GoStream.Foundations.Json
import GoStream.Engines.Names

/-!
# Magnets and stubs
-/

namespace GoStream.Engines

open Foundations Regex Inodes AutoRemove

structure FileStat where
  id : Int64
  path : Bytes
  length : Int64
  deriving DecidableEq

structure TorrentStats where
  hash : Bytes
  title : Bytes
  deriving DecidableEq

def upperHexDigit (d : ℕ) : UInt8 := if d < 10 then (48 + d).toUInt8 else (55 + d).toUInt8

def queryEscape (s : Bytes) : Bytes :=
  s.flatMap fun c =>
    if isWord c || c = 45 || c = 46 || c = 126 then [c]
    else if c = 32 then [43]
    else [37, upperHexDigit (c.toNat / 16), upperHexDigit (c.toNat % 16)]

def defaultTrackers : List Bytes :=
  [ascii "udp://tracker.opentrackr.org:1337/announce",
    ascii "udp://open.stealth.si:80/announce",
    ascii "udp://tracker.torrent.eu.org:451/announce",
    ascii "udp://exodus.desync.com:6969/announce",
    ascii "udp://tracker.openbittorrent.com:6969/announce"]

def buildMagnet (infoHash name : Bytes) (trackers : List Bytes) : Bytes :=
  ascii "magnet:?xt=urn:btih:" ++ infoHash ++
    (if name ≠ [] then ascii "&dn=" ++ queryEscape name else []) ++
    trackers.flatMap fun tr => ascii "&tr=" ++ queryEscape tr

def filepathExt (path : Bytes) : Bytes :=
  let name := afterLast 47 path
  if 46 ∈ name then 46 :: afterLast 46 name else []

def endsInHash8 (s : Bytes) : Bool :=
  9 ≤ s.length && s[s.length - 9]? = some 95 && (s.drop (s.length - 8)).all isLowerHex

def titleFromFilename (filename : Bytes) : Bytes :=
  let s := filename.take (filename.length - (filepathExt filename).length)
  let s := if endsInHash8 s then s.take (s.length - 9) else s
  trimSpace (s.map fun c => if c = 95 ∨ c = 46 then 32 else c)

def stubContent (streamURL : Bytes) (fileSize : Int64) (magnet imdb : Bytes) : Bytes :=
  Json.renderObject [(ascii "imdb", .str imdb), (ascii "magnet", .str magnet),
    (ascii "size", .int fileSize.toInt), (ascii "url", .str streamURL)]

theorem trimSpace_stubContent (url : Bytes) (size : Int64) (magnet imdb : Bytes) :
    trimSpace (stubContent url size magnet imdb) = stubContent url size magnet imdb := by
  apply Trimmed.trimSpace_eq
  constructor
  · intro c hc
    obtain rfl := Option.some.inj hc
    rfl
  · intro c hc
    rw [stubContent, Json.renderObject, ← List.cons_append, List.getLast?_concat] at hc
    obtain rfl := Option.some.inj hc
    rfl

theorem brace_stubContent (url : Bytes) (size : Int64) (magnet imdb : Bytes) :
    ([123] : Bytes).isPrefixOf (stubContent url size magnet imdb) = true := rfl

theorem parse_stubContent (url : Bytes) (size : Int64) (magnet imdb : Bytes) :
    Json.parse (stubContent url size magnet imdb) =
      some (.obj [(ascii "imdb", .str imdb), (ascii "magnet", .str magnet),
        (ascii "size", .num (itoa size.toInt)), (ascii "url", .str url)]) :=
  Json.parse_renderObject _

inductive Write
  | done
  | failed
  | cut (part : Bytes)
  deriving DecidableEq

abbrev Files := Dict Bytes Bytes

def createMKV (files : Files) (path content : Bytes) : Write → Files × Bool
  | .done => (AList.insert path content files, true)
  | .failed => (files, false)
  | .cut part => (AList.insert path part files, false)

def isStubBelow (L : Lowering) (dir path : Bytes) : Bool :=
  (dir ++ [47]).isPrefixOf path && (ascii ".mkv").isSuffixOf (L.lower path)

def stubsBelow (L : Lowering) (dir : Bytes) (order : MapOrder) (files : Files) :
    List (Bytes × Bytes) :=
  order.arrange (files.items.filter fun f => isStubBelow L dir f.1)

section Walk

variable {L : Lowering} {dir : Bytes} {order : MapOrder} {files : Files}

theorem mem_stubsBelow {f : Bytes × Bytes} :
    f ∈ stubsBelow L dir order files ↔
      files.lookup f.1 = some f.2 ∧ isStubBelow L dir f.1 = true := by
  rw [stubsBelow, order.mem_arrange, List.mem_filter, ← Dict.mem_items]

theorem nodup_map_stubsBelow (L : Lowering) (dir : Bytes) (order : MapOrder) (files : Files) :
    ((stubsBelow L dir order files).map Prod.fst).Nodup := by
  have hsub : ((files.items.filter fun f => isStubBelow L dir f.1).map Prod.fst).Sublist
      (files.items.map Prod.fst) := List.filter_sublist.map Prod.fst
  rw [stubsBelow, ((order.perm _).map Prod.fst).nodup_iff]
  exact hsub.nodup (Dict.nodup_keys_of_perm (List.Perm.refl _))

theorem isStubBelow_append (L : Lowering) (dir u : Bytes) :
    isStubBelow L dir (dir ++ 47 :: (u ++ ascii ".mkv")) = true := by
  have hmkv : L.lower (ascii ".mkv") = ascii ".mkv" := L.lower_of_ascii rfl
  have hsettled : Settled (ascii ".mkv") := settled_cons (by decide) _
  rw [isStubBelow, Bool.and_eq_true, List.isPrefixOf_iff_prefix, List.isSuffixOf_iff_suffix]
  constructor
  · simp
  · rw [← List.cons_append, ← List.append_assoc, L.lower_append _ _ hsettled, hmkv]
    exact List.suffix_append _ _

end Walk

def reTVHashURL : Regex :=
  inOrder [lit (ascii "link="), .group 1 (times 40 (cls isLowerHex))]

end GoStream.Engines
