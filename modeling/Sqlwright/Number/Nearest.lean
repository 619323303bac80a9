/-!
The binary floating-point value nearest to a rational. The finite values of one sign are numbered in
order by their bits, with infinity as the next one, so a value rounded up past its power of two, or
past the largest finite value, lands on the right bits without a case of its own.
-/

namespace Sqlwright.Number

/-- The whole number nearest to `num / den`, the even one of two equally near. -/
def divideEven (num den : Nat) : Nat :=
  let below := num / den
  match compare (2 * (num % den)) den with
  | .lt => below
  | .gt => below + 1
  | .eq => below + below % 2

/-- The greatest `e` with `2 ^ e ≤ num / den`, for positive numbers. -/
def binaryExponent (num den : Nat) : Int :=
  let guess : Int := (num.log2 : Int) - den.log2
  if den * Nat.pow 2 guess.toNat ≤ num * Nat.pow 2 (-guess).toNat then guess else guess - 1

/-- The bits of the value nearest to `num / den`, without a sign, for the given field widths. -/
def nearestBits (fractionBits exponentBits num den : Nat) : Nat :=
  if num = 0 then 0
  else
    let least : Int := 2 - Nat.pow 2 (exponentBits - 1) - fractionBits
    let grid := max (binaryExponent num den - fractionBits) least
    let steps := divideEven (num * Nat.pow 2 (-grid).toNat) (den * Nat.pow 2 grid.toNat)
    min ((grid - least).toNat * Nat.pow 2 fractionBits + steps)
      ((Nat.pow 2 exponentBits - 1) * Nat.pow 2 fractionBits)

end Sqlwright.Number
