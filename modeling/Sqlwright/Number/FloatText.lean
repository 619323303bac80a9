import Sqlwright.Number.Nearest
import Sqlwright.Number.Shortest
import Sqlwright.Number.Integer

/-!
Floating-point values as text and back. The digits are the shortest that read back; a `FloatStyle`
holds the decisions of one output format: where positional form ends, whether an integral value
keeps a point, how an exponent is signed.
-/

namespace Sqlwright.Number

/-- The decisions of one float format. -/
structure FloatStyle where
  /-- Leading digit exponents that are written without an exponent part. -/
  positional : Int → Bool
  /-- An integral value in positional form ends in `.0`. -/
  pointZero : Bool
  /-- A positive exponent carries a plus sign. -/
  plusSign : Bool
  /-- Of two equally near shortest decimals the upper one is taken. -/
  tieUp : Bool

/-- Values inside SQL text and texts of cells never use an exponent. -/
def FloatStyle.plain : FloatStyle := ⟨fun _ => true, false, false, true⟩

/-- JSON numbers keep a point and use a signed exponent from 1e16 on and below 1e-5. -/
def FloatStyle.json : FloatStyle := ⟨fun e => -5 ≤ e && e < 16, true, true, false⟩

/-- Diagnostic texts keep a point and use an exponent from 1e16 on and below 1e-4. -/
def FloatStyle.diagnostic : FloatStyle := ⟨fun e => -4 ≤ e && e < 16, true, false, true⟩

private def zeros (n : Nat) : List Char := List.replicate n '0'

/-- The digits laid out around the point or with an exponent. -/
def FloatStyle.layout (style : FloatStyle) (d : Decimal) : List Char :=
  let digits := Nat.toDigits 10 d.digits
  let lead : Int := d.exp + digits.length - 1
  if style.positional lead then
    if 0 ≤ d.exp then
      digits ++ zeros d.exp.toNat ++ (if style.pointZero then ['.', '0'] else [])
    else if 0 ≤ lead then
      digits.take (lead.toNat + 1) ++ '.' :: digits.drop (lead.toNat + 1)
    else '0' :: '.' :: zeros ((-lead).toNat - 1) ++ digits
  else
    let tail := digits.drop 1
    let sign := if lead < 0 then ['-'] else if style.plusSign then ['+'] else []
    digits.take 1 ++ (if tail.isEmpty then [] else '.' :: tail) ++
      'e' :: sign ++ Nat.toDigits 10 lead.natAbs

/-- The text of a finite value from its sign and magnitude. -/
def FloatStyle.finite (style : FloatStyle) (negative : Bool) (x : Magnitude) : String :=
  let body :=
    if x.m = 0 then style.layout ⟨0, 0⟩ else style.layout (x.shortest style.tieUp)
  .ofList (if negative then '-' :: body else body)

/-- The text of a value given by its bits and field widths. -/
def FloatStyle.ofBits (style : FloatStyle) (fractionBits exponentBits bits : Nat) : String :=
  let negative := bits / Nat.pow 2 (fractionBits + exponentBits) % 2 = 1
  let exponent := bits / Nat.pow 2 fractionBits % Nat.pow 2 exponentBits
  if exponent = Nat.pow 2 exponentBits - 1 then
    if bits % Nat.pow 2 fractionBits ≠ 0 then "NaN" else if negative then "-inf" else "inf"
  else style.finite negative (Magnitude.ofBits fractionBits exponentBits bits)

/-- The text of a 64-bit value. -/
def FloatStyle.double (style : FloatStyle) (x : Float) : String :=
  style.ofBits 52 11 x.toBits.toNat

/-- The text of a 32-bit value. -/
def FloatStyle.single (style : FloatStyle) (x : Float32) : String :=
  style.ofBits 23 8 x.toBits.toNat

/-- What a text says about a float before any rounding. -/
inductive FloatLiteral where
  | notANumber
  | infinite (negative : Bool)
  /-- `digits * 10 ^ exp`. -/
  | finite (negative : Bool) (digits : Nat) (exp : Int)

/-- An exponent part: nothing, or `e` with an optional sign and at least one digit. -/
def readExponent? : List Char → Option Int
  | [] => some 0
  | c :: rest => if c = 'e' ∨ c = 'E' then readInt? rest else none

/-- An unsigned decimal: digits with an optional point, at least one digit in all, then an optional
exponent. -/
def readUnsigned? (negative : Bool) (s : List Char) : Option FloatLiteral :=
  let whole := s.takeWhile Char.isDigit
  let rest := s.dropWhile Char.isDigit
  let (fraction, rest) := match rest with
    | '.' :: more => (more.takeWhile Char.isDigit, more.dropWhile Char.isDigit)
    | more => ([], more)
  if whole.isEmpty && fraction.isEmpty then none
  else (readExponent? rest).map fun exp =>
    .finite negative (digitsValue 0 (whole ++ fraction)) (exp - fraction.length)

/-- A float in text: an optional sign, then `nan`, `inf`, `infinity` in any case of letters or a
decimal. -/
def readFloat? (s : List Char) : Option FloatLiteral :=
  let (negative, body) := match s with
    | '-' :: rest => (true, rest)
    | '+' :: rest => (false, rest)
    | all => (false, all)
  let folded := body.map Char.toLower
  if folded = "nan".toList then some .notANumber
  else if folded = "inf".toList ∨ folded = "infinity".toList then some (.infinite negative)
  else readUnsigned? negative body

/-- Decimal exponents past this bound decide between zero and infinity by themselves. -/
private def exponentBound : Int := 1200

/-- The digits' own exponent brought near zero: a value far above or below every finite float is
replaced by one that is still far above or below. -/
private def tame (digits : Nat) (exp : Int) : Nat × Int :=
  if digits = 0 then (0, 0)
  else if exponentBound < exp + width digits then (1, exponentBound)
  else if exp + width digits < -exponentBound then (1, -exponentBound)
  else (digits, exp)

/-- The bits of the nearest value of the given field widths. -/
def FloatLiteral.toBits (fractionBits exponentBits : Nat) : FloatLiteral → Nat
  | .notANumber => (Nat.pow 2 (exponentBits + 1) - 1) * Nat.pow 2 (fractionBits - 1)
  | .infinite negative => signBit negative + (Nat.pow 2 exponentBits - 1) * Nat.pow 2 fractionBits
  | .finite negative digits exp =>
    let (digits, exp) := tame digits exp
    signBit negative +
      nearestBits fractionBits exponentBits (digits * Nat.pow 10 exp.toNat)
        (Nat.pow 10 (-exp).toNat)
where
  signBit (negative : Bool) : Nat := if negative then Nat.pow 2 (fractionBits + exponentBits) else 0

/-- The nearest 64-bit value. -/
def FloatLiteral.toDouble (x : FloatLiteral) : Float := .ofBits (.ofNat (x.toBits 52 11))

/-- The nearest 32-bit value. -/
def FloatLiteral.toSingle (x : FloatLiteral) : Float32 := .ofBits (.ofNat (x.toBits 23 8))

end Sqlwright.Number
