import GoStream.Foundations.Text

/-!
# The 64-bit xxHash
-/

namespace GoStream.Foundations.XXHash

def prime1 : UInt64 := 11400714785074694791
def prime2 : UInt64 := 14029467366897019727
def prime3 : UInt64 := 1609587929392839161
def prime4 : UInt64 := 9650029242287828579
def prime5 : UInt64 := 2870177450012600261

def rotateLeft (x r : UInt64) : UInt64 := x <<< r ||| x >>> (64 - r)

def word (b : Bytes) : UInt64 := b.foldr (fun x acc => x.toUInt64 ||| acc <<< 8) 0

def round (acc input : UInt64) : UInt64 := rotateLeft (acc + input * prime2) 31 * prime1

def mergeRound (acc val : UInt64) : UInt64 := (acc ^^^ round 0 val) * prime1 + prime4

structure Lanes where
  v1 : UInt64
  v2 : UInt64
  v3 : UInt64
  v4 : UInt64

def stripes : ℕ → Lanes → Bytes → Lanes × Bytes
  | fuel + 1, v, b =>
    if 32 ≤ b.length then
      stripes fuel
        ⟨round v.v1 (word (b.take 8)), round v.v2 (word ((b.drop 8).take 8)),
          round v.v3 (word ((b.drop 16).take 8)), round v.v4 (word ((b.drop 24).take 8))⟩
        (b.drop 32)
    else (v, b)
  | 0, v, b => (v, b)

def Lanes.merge (v : Lanes) : UInt64 :=
  let h := rotateLeft v.v1 1 + rotateLeft v.v2 7 + rotateLeft v.v3 12 + rotateLeft v.v4 18
  mergeRound (mergeRound (mergeRound (mergeRound h v.v1) v.v2) v.v3) v.v4

def words : ℕ → UInt64 → Bytes → UInt64 × Bytes
  | fuel + 1, h, b =>
    if 8 ≤ b.length then
      words fuel (rotateLeft (h ^^^ round 0 (word (b.take 8))) 27 * prime1 + prime4) (b.drop 8)
    else (h, b)
  | 0, h, b => (h, b)

def halfWord (h : UInt64) (b : Bytes) : UInt64 × Bytes :=
  if 4 ≤ b.length then
    (rotateLeft (h ^^^ word (b.take 4) * prime1) 23 * prime2 + prime3, b.drop 4)
  else (h, b)

def singles (h : UInt64) (b : Bytes) : UInt64 :=
  b.foldl (fun h x => rotateLeft (h ^^^ x.toUInt64 * prime5) 11 * prime1) h

def avalanche (h : UInt64) : UInt64 :=
  let h := (h ^^^ h >>> 33) * prime2
  let h := (h ^^^ h >>> 29) * prime3
  h ^^^ h >>> 32

def sum64 (b : Bytes) : UInt64 :=
  let (h, rest) :=
    if 32 ≤ b.length then
      let (v, rest) := stripes b.length ⟨prime1 + prime2, prime2, 0, 0 - prime1⟩ b
      (v.merge, rest)
    else (prime5, b)
  let (h, rest) := words b.length (h + UInt64.ofNat b.length) rest
  let (h, rest) := halfWord h rest
  avalanche (singles h rest)

example : sum64 (ascii "abc") = 0x44bc2cf5ad770999 := by decide +kernel

example : sum64 (ascii "Nobody inspects the spammish repetition") = 0xfbcea83c8a378bf1 := by
  decide +kernel

end GoStream.Foundations.XXHash
