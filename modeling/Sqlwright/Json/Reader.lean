import Sqlwright.Json

/-!
Reading JSON text. Integers are exact while they fit in 64 bits; every other number is a float, made
from the digits that fit in 64 bits by one multiplication or division by a power of ten.
-/

namespace Sqlwright.Json

/-- Drops the blanks between the parts of a text. -/
def skipBlanks (s : List Char) : List Char :=
  s.dropWhile fun c => c == ' ' || c == '\t' || c == '\n' || c == '\r'

/-! ### Texts -/

def hexValue? (c : Char) : Option Nat :=
  if c.isDigit then some (c.toNat - 48)
  else if 'a' ≤ c && c ≤ 'f' then some (c.toNat - 87)
  else if 'A' ≤ c && c ≤ 'F' then some (c.toNat - 55)
  else none

/-- Four hexadecimal digits. -/
def unit? (a b c d : Char) : Option Nat :=
  [a, b, c, d].foldlM (fun total digit => (hexValue? digit).map (total * 16 + ·)) 0

/-- What a letter behind a backslash stands for. -/
def escaped? : Char → Option Char
  | '\x22' => some '\x22'
  | '\\' => some '\\'
  | '/' => some '/'
  | 'n' => some '\n'
  | 't' => some '\t'
  | 'r' => some '\r'
  | 'b' => some '\x08'
  | 'f' => some '\x0c'
  | _ => none

/-- The character of two surrogates. -/
def paired? (high low : Nat) : Option Char :=
  if 0xDC00 ≤ low ∧ low < 0xE000 then
    some (Char.ofNat (0x10000 + (high - 0xD800) * 1024 + (low - 0xDC00)))
  else none

/-- A character in front of what was read. -/
def push (c : Char) (read : Option (List Char × List Char)) : Option (List Char × List Char) :=
  read.map fun parts => (c :: parts.1, parts.2)

/-- Reads a text behind its opening quote, up to its closing one. -/
def readText : List Char → Option (List Char × List Char)
  | [] => none
  | '\x22' :: rest => some ([], rest)
  | '\\' :: 'u' :: a :: b :: c :: d :: '\\' :: 'u' :: e :: f :: g :: h :: rest =>
    match unit? a b c d with
    | some unit =>
      if 0xD800 ≤ unit ∧ unit < 0xDC00 then
        match (unit? e f g h).bind (paired? unit) with
        | some char => push char (readText rest)
        | none => none
      else if 0xDC00 ≤ unit ∧ unit < 0xE000 then none
      else push (Char.ofNat unit) (readText ('\\' :: 'u' :: e :: f :: g :: h :: rest))
    | none => none
  | '\\' :: 'u' :: a :: b :: c :: d :: rest =>
    match unit? a b c d with
    | some unit =>
      if 0xD800 ≤ unit ∧ unit < 0xE000 then none else push (Char.ofNat unit) (readText rest)
    | none => none
  | '\\' :: c :: rest =>
    match escaped? c with
    | some char => push char (readText rest)
    | none => none
  | c :: rest => if c.toNat < 32 then none else push c (readText rest)

/-! ### Numbers -/

/-- Appends digits to a significand while it stays within 64 bits, and tells how many. -/
def collect (significand : Nat) : List Char → Nat × Nat
  | [] => (significand, 0)
  | c :: rest =>
    let next := significand * 10 + Number.digitValue c
    if next ≤ Number.maxWide then
      let read := collect next rest
      (read.1, read.2 + 1)
    else (significand, 0)

/-- The largest power of ten that is divided by at once. -/
def largestPower : Nat := 308

/-- The float nearest to a power of ten. -/
def powerOfTen (power : Nat) : Float := (Number.FloatLiteral.finite false 1 power).toDouble

/-- Divides by a power of ten, `largestPower` at a time. -/
def divideByTens (x : Float) (power : Nat) : Float :=
  if power ≤ largestPower then x / powerOfTen power
  else if x == 0.0 then x
  else divideByTens (x / powerOfTen largestPower) (power - largestPower)
termination_by power
decreasing_by simp only [largestPower] at *; omega

/-- A significand times a power of ten; none beyond the range of floats. -/
def scaled? (significand : Nat) (exponent : Int) : Option Float :=
  let x := Float.ofNat significand
  match exponent with
  | .negSucc n => some (divideByTens x (n + 1))
  | .ofNat n =>
    if n ≤ largestPower then
      let product := x * powerOfTen n
      if product.isInf then none else some product
    else if significand = 0 then some x
    else none

/-- Reads a run of digits, which must not be empty. -/
def digits? (s : List Char) : Option (List Char × List Char) :=
  let read := s.span Char.isDigit
  if read.1.isEmpty then none else some read

/-- Reads the digits behind a point, if there is one. -/
def fraction? : List Char → Option (List Char × List Char)
  | '.' :: rest => digits? rest
  | rest => some ([], rest)

/-- Reads an exponent, if there is one. -/
def exponent? : List Char → Option (Option Int × List Char)
  | c :: rest =>
    if c = 'e' ∨ c = 'E' then
      let (sign, rest) : Int × List Char := match rest with
        | '-' :: rest => (-1, rest)
        | '+' :: rest => (1, rest)
        | rest => (1, rest)
      (digits? rest).map fun read => (some (sign * Number.digitsValue 0 read.1), read.2)
    else some (none, c :: rest)
  | [] => some (none, [])

/-- A number from its parts. Minus zero is a float. -/
def numberOf? (negative : Bool) (whole fraction : List Char) (exponent : Option Int) :
    Option Json :=
  let first := collect 0 whole
  let exact := fraction.isEmpty && exponent.isNone && first.2 == whole.length
  let bound := if negative then 9223372036854775808 else Number.maxWide
  if exact && first.1 ≤ bound && !(negative && first.1 == 0) then
    some (.integer (if negative then -(first.1 : Int) else first.1))
  else
    let all := collect first.1 fraction
    let point := ((whole.length - first.2 : Nat) : Int) - all.2
    (scaled? all.1 (point + exponent.getD 0)).map fun x => .float (if negative then -x else x)

/-- Reads a number; a whole part of several digits does not start with zero. -/
def readNumber (s : List Char) : Option (Json × List Char) := do
  let (negative, s) := match s with
    | '-' :: rest => (true, rest)
    | s => (false, s)
  let (whole, s) ← digits? s
  if whole.length > 1 ∧ whole.head? = some '0' then none
  let (fraction, s) ← fraction? s
  let (exponent, s) ← exponent? s
  return (← numberOf? negative whole fraction exponent, s)

/-! ### Values -/

mutual

/-- Reads one value; `fuel` bounds the number of steps. -/
def readValue : Nat → List Char → Option (Json × List Char)
  | 0, _ => none
  | fuel + 1, s =>
    match skipBlanks s with
    | 'n' :: 'u' :: 'l' :: 'l' :: rest => some (.null, rest)
    | 't' :: 'r' :: 'u' :: 'e' :: rest => some (.bool true, rest)
    | 'f' :: 'a' :: 'l' :: 's' :: 'e' :: rest => some (.bool false, rest)
    | '\x22' :: rest => (readText rest).map fun read => (.string (.ofList read.1), read.2)
    | '[' :: rest =>
      match skipBlanks rest with
      | ']' :: rest => some (.array [], rest)
      | _ => (readItems fuel rest).map fun read => (.array read.1, read.2)
    | '\x7b' :: rest =>
      match skipBlanks rest with
      | '\x7d' :: rest => some (.object [], rest)
      | _ => (readFields fuel rest).map fun read => (ofFields read.1, read.2)
    | rest => readNumber rest

/-- Reads the items of an array up to its closing bracket. -/
def readItems : Nat → List Char → Option (List Json × List Char)
  | 0, _ => none
  | fuel + 1, s =>
    match readValue fuel s with
    | none => none
    | some (item, rest) =>
      match skipBlanks rest with
      | ',' :: rest => (readItems fuel rest).map fun read => (item :: read.1, read.2)
      | ']' :: rest => some ([item], rest)
      | _ => none

/-- Reads the fields of an object up to its closing brace. -/
def readFields : Nat → List Char → Option (List (String × Json) × List Char)
  | 0, _ => none
  | fuel + 1, s =>
    match skipBlanks s with
    | '\x22' :: rest =>
      match readText rest with
      | none => none
      | some (key, rest) =>
        match skipBlanks rest with
        | ':' :: rest =>
          match readValue fuel rest with
          | none => none
          | some (value, rest) =>
            let field := (String.ofList key, value)
            match skipBlanks rest with
            | ',' :: rest => (readFields fuel rest).map fun read => (field :: read.1, read.2)
            | '\x7d' :: rest => some ([field], rest)
            | _ => none
        | _ => none
    | _ => none

end

/-- Reads a text that holds one value and nothing else but blanks. Every step of the reader takes a
character, so the length of the text bounds the steps. -/
def read? (text : String) : Option Json :=
  match readValue (text.length + 1) text.toList with
  | some (value, rest) => if (skipBlanks rest).isEmpty then some value else none
  | none => none

end Sqlwright.Json
