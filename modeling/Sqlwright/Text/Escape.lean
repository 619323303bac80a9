/-!
Escaped text: the inside of a JSON string and the quoted form that diagnostics use. Both write the
quote and the backslash with a backslash; they differ in how control characters are named.
-/

namespace Sqlwright.Text

private def hexDigit (n : Nat) : Char := if n < 10 then Char.ofNat (48 + n) else Char.ofNat (87 + n)

/-- The hexadecimal digits of a code point, none leading. -/
def hexDigits (n : Nat) : List Char := Nat.toDigits 16 n

/-- One character inside a JSON string. -/
def escapeJsonChar (c : Char) : List Char :=
  if c = '\x22' then ['\\', '\x22']
  else if c = '\\' then ['\\', '\\']
  else if c = '\n' then ['\\', 'n']
  else if c = '\r' then ['\\', 'r']
  else if c = '\t' then ['\\', 't']
  else if c.toNat = 8 then ['\\', 'b']
  else if c.toNat = 12 then ['\\', 'f']
  else if c.toNat < 32 then
    ['\\', 'u', '0', '0', hexDigit (c.toNat / 16), hexDigit (c.toNat % 16)]
  else [c]

/-- A JSON string with its quotes. -/
def jsonString (s : String) : String :=
  .ofList ('\x22' :: s.toList.flatMap escapeJsonChar ++ ['\x22'])

/-- One character of a diagnostic text; control characters are named by their code point. -/
def escapeDiagnosticChar (c : Char) : List Char :=
  if c = '\x22' then ['\\', '\x22']
  else if c = '\\' then ['\\', '\\']
  else if c = '\n' then ['\\', 'n']
  else if c = '\r' then ['\\', 'r']
  else if c = '\t' then ['\\', 't']
  else if c.toNat = 0 then ['\\', '0']
  else if c.toNat < 32 ∨ c.toNat = 127 then '\\' :: 'u' :: '\x7b' :: hexDigits c.toNat ++ ['\x7d']
  else [c]

/-- A text as diagnostics show it, in quotes. -/
def diagnosticString (s : String) : String :=
  .ofList ('\x22' :: s.toList.flatMap escapeDiagnosticChar ++ ['\x22'])

end Sqlwright.Text
