import Profiler.Decimal.Shortest

/-!
# Writing decimals

A `Layout` is how a decimal is written: between which powers of ten in positional notation, and
with what mark and which signs in scientific notation. `fixed` writes a number with a given number
of places instead.
-/

namespace Profiler.Decimal

/-- How a decimal is written. -/
structure Layout where
  /-- The least power of ten whose numbers are written positionally. -/
  leastPositional : Int
  /-- The greatest power of ten whose numbers are written positionally. -/
  greatestPositional : Int
  /-- What comes after the last digit of a whole number in positional notation. -/
  wholeEnding : List Char
  /-- What comes before the exponent in scientific notation. -/
  exponentMark : List Char
  /-- The sign of an exponent that is not negative. -/
  plusSign : List Char
deriving DecidableEq

/-- The decimal digits of a whole number. -/
def digits (n : Nat) : List Char := Nat.toDigits 10 n

/-- The digits of a number before and after the point, when the last of them counts
`10 ^ exponent`. -/
def positional (wholeEnding : List Char) (ds : List Char) (exponent : Int) : List Char :=
  if 0 ≤ exponent then ds ++ List.replicate exponent.toNat '0' ++ wholeEnding
  else
    let padded := List.leftpad ((-exponent).toNat + 1) '0' ds
    let whole := padded.length - (-exponent).toNat
    padded.take whole ++ '.' :: padded.drop whole

namespace Layout

/-- The first digit, the others after a point, and the exponent of the first digit. -/
def scientific (layout : Layout) (ds : List Char) (exponent : Int) : List Char :=
  let mantissa := match ds with
    | first :: rest => if rest.isEmpty then [first] else first :: '.' :: rest
    | [] => []
  let sign := if exponent < 0 then ['-'] else layout.plusSign
  mantissa ++ layout.exponentMark ++ sign ++ digits exponent.natAbs

/-- The text of a decimal. -/
def write (layout : Layout) (d : Scaled) : List Char :=
  let ds := digits d.digits
  let power : Int := d.exponent + ds.length - 1
  if d.digits = 0 then ds ++ layout.wholeEnding
  else if layout.leastPositional ≤ power ∧ power ≤ layout.greatestPositional then
    positional layout.wholeEnding ds d.exponent
  else
    layout.scientific ds power

end Layout

/-- A number with `places` places after the point, rounded from its exact value to the nearest such
number and of two to the one with an even last digit. -/
def fixed (places : Nat) (x : Binary) : List Char :=
  positional [] (digits (nearest (x.num * Nat.pow 10 places) x.den)) (-places)

end Profiler.Decimal
