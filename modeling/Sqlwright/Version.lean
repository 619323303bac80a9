import Sqlwright.Fault
import Sqlwright.Number.Integer

/-!
Server versions. A dotted version is the first word of what the server says, up to three numbers
between points; a HANA version has five parts of which the first, third and fifth count.
-/

namespace Sqlwright

structure Version where
  major : Nat
  minor : Nat
  patch : Nat
  driver : String
  deriving Repr, DecidableEq

namespace Version

/-- The number a part starts with, blanks and leading zeros aside; a part without a number, or with
one beyond 64 bits, counts as zero. -/
def part (s : List Char) : Nat :=
  let digits := ((Text.trimChars s).dropWhile (· == '0')).takeWhile Char.isDigit
  ((Number.readNat? digits).filter (· ≤ Number.maxWide)).getD 0

/-- Whether a part starts with a digit, blanks aside. -/
def startsWithDigit (s : List Char) : Bool :=
  ((Text.trimChars s).head?.map Char.isDigit).getD false

/-- Reads a dotted version; missing parts are zero, a text that starts with no digit is refused. -/
def parse (driver text : String) : Except Fault Version :=
  let parts := Text.splitOn '.' (Text.firstWord text.toList)
  if startsWithDigit (parts.headD []) then
    .ok ⟨part (parts.headD []), part (parts.getD 1 []), part (parts.getD 2 []), driver⟩
  else .error (.unreadableVersion text)

/-- Reads a version of at least five parts. -/
def parseHana (driver text : String) : Except Fault Version :=
  match Text.splitOn '.' (Text.trimChars text.toList) with
  | major :: _ :: minor :: _ :: patch :: _ => .ok ⟨part major, part minor, part patch, driver⟩
  | _ => .error (.unreadableVersion text)

/-- The three numbers between points. -/
def text (v : Version) : String :=
  toString v.major ++ "." ++ toString v.minor ++ "." ++ toString v.patch

end Version

end Sqlwright
