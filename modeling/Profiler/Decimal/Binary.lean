import Profiler.Decimal.Nearest

/-!
# Numbers in binary floating point

A `Binary` is a number `mantissa * 2 ^ exponent`, the form in which times are measured in seconds.
`Binary.round` is the closest such number with at most 53 binary digits to a given quotient, of two
equally close ones the one with an even mantissa. Exponents have no limits here: times in seconds
lie between `10 ^ -9` and `2 ^ 64`, far from those of any format in use.
-/

namespace Profiler.Decimal

/-- The number `mantissa * 2 ^ exponent`. -/
structure Binary where
  mantissa : Nat
  exponent : Int
deriving DecidableEq

namespace Binary

/-- The number of binary digits that a rounded number keeps. -/
def precision : Nat := 53

/-- Zero. -/
def zero : Binary := ⟨0, 0⟩

/-- The numerator of the number as a quotient of whole numbers. -/
def num (x : Binary) : Nat := x.mantissa * Nat.pow 2 x.exponent.toNat

/-- The denominator of the number as a quotient of whole numbers. -/
def den (x : Binary) : Nat := Nat.pow 2 (-x.exponent).toNat

/-- The exponent for which `num / den` has a mantissa of full precision. -/
def exponentOf (num den : Nat) : Int :=
  let guess : Int := num.log2 - den.log2 - (precision - 1 : Nat)
  let power := guess + precision - 1
  if num * Nat.pow 2 (-power).toNat < den * Nat.pow 2 power.toNat then
    guess - 1
  else
    guess

/-- The number of full precision that is nearest to `num / den`. -/
def round (num den : Nat) : Binary :=
  if num = 0 then zero
  else
    let exponent := exponentOf num den
    let mantissa := nearest (num * Nat.pow 2 (-exponent).toNat) (den * Nat.pow 2 exponent.toNat)
    if mantissa = Nat.pow 2 precision then ⟨Nat.pow 2 (precision - 1), exponent + 1⟩
    else ⟨mantissa, exponent⟩

/-- The number of full precision that is nearest to the sum of two. -/
def add (x y : Binary) : Binary := round (x.num * y.den + y.num * x.den) (x.den * y.den)

end Binary

end Profiler.Decimal
