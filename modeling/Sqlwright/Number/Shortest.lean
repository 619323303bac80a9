/-!
The fewest decimal digits that read back to a binary floating-point value. A value is `m * 2 ^ q`;
the reals that round to it form an interval around it, ends included exactly when `m` is even. The
search tries decimal grids from coarse to fine and takes the first one with a point inside.
-/

namespace Sqlwright.Number

/-- A finite magnitude `m * 2 ^ q`. -/
structure Magnitude where
  m : Nat
  q : Int
  /-- The gap to the value below is half the gap to the value above. -/
  narrowBelow : Bool

/-- The magnitude in the low bits of a finite value with the given field widths. -/
def Magnitude.ofBits (fractionBits exponentBits bits : Nat) : Magnitude :=
  let fraction := bits % Nat.pow 2 fractionBits
  let exponent := bits / Nat.pow 2 fractionBits % Nat.pow 2 exponentBits
  let bias : Int := Nat.pow 2 (exponentBits - 1) - 1 + fractionBits
  if exponent = 0 then ⟨fraction, 1 - bias, false⟩
  else ⟨Nat.pow 2 fractionBits + fraction, exponent - bias, fraction = 0 && exponent > 1⟩

/-- The decimal `digits * 10 ^ exp`. -/
structure Decimal where
  digits : Nat
  exp : Int
  deriving Repr, DecidableEq

/-- Compares `a * 10 ^ i` with `n * 2 ^ j`, exactly. -/
def compareScaled (a : Nat) (i : Int) (n : Nat) (j : Int) : Ordering :=
  compare (a * Nat.pow 10 i.toNat * Nat.pow 2 (-j).toNat)
    (n * Nat.pow 2 j.toNat * Nat.pow 10 (-i).toNat)

/-- The decimal lies among the reals that round to the value. -/
def Magnitude.readsBack (x : Magnitude) (d : Decimal) : Bool :=
  let low := if x.narrowBelow then 4 * x.m - 1 else 4 * x.m - 2
  let high := 4 * x.m + 2
  let closed := x.m % 2 == 0
  let atLow := compareScaled d.digits d.exp low (x.q - 2)
  let atHigh := compareScaled d.digits d.exp high (x.q - 2)
  (atLow == .gt || (closed && atLow == .eq)) && (atHigh == .lt || (closed && atHigh == .eq))

/-- How many decimal digits a number has; zero has one. -/
def width (n : Nat) : Nat := (Nat.toDigits 10 n).length

/-- The least `k` with `x < 10 ^ k`, for a magnitude above zero. -/
def Magnitude.scale (x : Magnitude) : Int :=
  let num := x.m * Nat.pow 2 x.q.toNat
  let den := Nat.pow 2 (-x.q).toNat
  if den ≤ num then width (num / den) else 1 - (width ((den - 1) / num) : Int)

/-- The whole part of `x / 10 ^ grid`. -/
def Magnitude.onGrid (x : Magnitude) (grid : Int) : Nat :=
  x.m * Nat.pow 2 x.q.toNat * Nat.pow 10 (-grid).toNat /
    (Nat.pow 2 (-x.q).toNat * Nat.pow 10 grid.toNat)

/-- The point of one grid that reads back and lies nearest; of two equally near the upper one when
`tieUp`, otherwise the even one. -/
def Magnitude.onGrid? (x : Magnitude) (tieUp : Bool) (grid : Int) : Option Decimal :=
  let below : Decimal := ⟨x.onGrid grid, grid⟩
  let above : Decimal := ⟨below.digits + 1, grid⟩
  if x.readsBack below then
    if x.readsBack above then
      match compareScaled (2 * below.digits + 1) grid (2 * x.m) x.q with
      | .lt => some above
      | .gt => some below
      | .eq => if tieUp || below.digits % 2 == 1 then some above else some below
    else some below
  else if x.readsBack above then some above
  else none

/-- The value written out in full. -/
def Magnitude.exact (x : Magnitude) : Decimal :=
  if 0 ≤ x.q then ⟨x.m * Nat.pow 2 x.q.toNat, 0⟩ else ⟨x.m * Nat.pow 5 (-x.q).toNat, x.q⟩

/-- Trailing zeros moved into the exponent, at most `fuel` of them. -/
def Decimal.strip : Nat → Decimal → Decimal
  | 0, d => d
  | fuel + 1, d =>
    if d.digits ≠ 0 ∧ d.digits % 10 = 0 then strip fuel ⟨d.digits / 10, d.exp + 1⟩ else d

/-- The shortest decimal that reads back. Seventeen digits suffice for 64-bit values; beyond them
the exact value is the answer. -/
def Magnitude.shortest (x : Magnitude) (tieUp : Bool) : Decimal :=
  let found := (List.range 17).findSome? fun (n : Nat) => x.onGrid? tieUp (x.scale - (n + 1))
  let d := found.getD x.exact
  d.strip (width d.digits)

end Sqlwright.Number
