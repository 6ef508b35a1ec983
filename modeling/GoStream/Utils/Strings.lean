import GoStream.Foundations.Disk

/-!
# The order of file names
-/

namespace GoStream.Utils

open Foundations

def commonPrefix : Bytes → Bytes → Bytes
  | a :: as, b :: bs => if a = b then a :: commonPrefix as bs else []
  | _, _ => []

def trimPrefix (s p : Bytes) : Bytes := if p.isPrefixOf s then s.drop p.length else s

def isDigit (c : UInt8) : Bool := 48 ≤ c && c ≤ 57

def atoi (digits : Bytes) : Option ℕ :=
  let n := digits.foldl (fun n d => 10 * n + (d.toNat - 48)) 0
  if digits = [] ∨ n > 2 ^ 63 - 1 then none else some n

def numberPrefix (s : Bytes) : Option ℕ := atoi (s.takeWhile isDigit)

def compareStrings (first second : Bytes) : Bool :=
  let common := commonPrefix first second
  let resultStr1 := trimPrefix first common
  let resultStr2 := trimPrefix second common
  match numberPrefix resultStr1, numberPrefix resultStr2 with
  | some num1, some num2 => decide (num1 < num2)
  | some _, none => true
  | none, some _ => false
  | none, none => decide (resultStr1 < resultStr2)

end GoStream.Utils
