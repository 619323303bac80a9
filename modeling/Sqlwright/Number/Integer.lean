/-!
Integers in text. A written integer is an optional sign and at least one ASCII digit; one that
leaves the wanted range is refused, never wrapped.
-/

namespace Sqlwright.Number

def digitValue (c : Char) : Nat := c.toNat - 48

/-- The value of a run of digits, continued from what was read before. -/
def digitsValue (start : Nat) (digits : List Char) : Nat :=
  digits.foldl (fun total c => total * 10 + digitValue c) start

/-- One or more ASCII digits. -/
def readNat? (s : List Char) : Option Nat :=
  if s.isEmpty || !s.all Char.isDigit then none else some (digitsValue 0 s)

def readInt? : List Char → Option Int
  | '-' :: digits => (readNat? digits).map fun n => -(n : Int)
  | '+' :: digits => (readNat? digits).map fun n => (n : Int)
  | digits => (readNat? digits).map fun n => (n : Int)

/-- A natural number up to `most`; a leading plus is accepted. -/
def readUpTo? (most : Nat) (s : List Char) : Option Nat :=
  let digits := match s with
    | '+' :: rest => rest
    | all => all
  (readNat? digits).filter (· ≤ most)

/-- A signed 64-bit integer. -/
def readInt64? (s : List Char) : Option Int64 :=
  (readInt? s).bind fun n =>
    if -9223372036854775808 ≤ n ∧ n ≤ 9223372036854775807 then some (Int64.ofInt n) else none

/-- Largest value of an unsigned 32-bit count. -/
def maxCount : Nat := 4294967295

/-- Largest value of an unsigned 64-bit count. -/
def maxWide : Nat := 18446744073709551615

end Sqlwright.Number
