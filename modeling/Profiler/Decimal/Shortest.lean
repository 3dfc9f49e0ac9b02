import Profiler.Decimal.Binary

/-!
# The shortest decimal that reads back

Of all decimals that round to a given `Binary`, `shortest` finds those with the fewest digits and
among these the nearest one. It tries the multiples of a power of ten, from the largest power down:
a multiple of a larger power has fewer digits. On each such grid only the two neighbours of the
number can be nearest.
-/

namespace Profiler.Decimal

/-- The number `digits * 10 ^ exponent`. -/
structure Scaled where
  digits : Nat
  exponent : Int
deriving DecidableEq

namespace Scaled

/-- The numerator of the number as a quotient of whole numbers. -/
def num (d : Scaled) : Nat := d.digits * Nat.pow 10 d.exponent.toNat

/-- The denominator of the number as a quotient of whole numbers. -/
def den (d : Scaled) : Nat := Nat.pow 10 (-d.exponent).toNat

/-- Whether a decimal rounds to `x`. It does if it lies within half the distance to the next number
on either side; the exact middle is rounded to `x` if `x` has an even mantissa. Below a power of two
the next number is half as far away. -/
def readsBack (x : Binary) (d : Scaled) : Bool :=
  let value := 4 * d.num * x.den
  let unit := Nat.pow 2 x.exponent.toNat * d.den
  let gap := if x.mantissa = Nat.pow 2 (Binary.precision - 1) then 1 else 2
  let least := (4 * x.mantissa - gap) * unit
  let greatest := (4 * x.mantissa + 2) * unit
  if x.mantissa % 2 = 0 then least ≤ value ∧ value ≤ greatest else least < value ∧ value < greatest

end Scaled

/-- The multiples of `10 ^ exponent` next to `x`, the one nearer to `x` first. Of two that are
equally near the even one comes first. -/
def neighbours (x : Binary) (exponent : Int) : List Scaled :=
  let num := x.num * Nat.pow 10 (-exponent).toNat
  let den := x.den * Nat.pow 10 exponent.toNat
  let below := num / den
  let near := nearest num den
  [⟨near, exponent⟩, ⟨if near = below then below + 1 else below, exponent⟩]

/-- The first decimal that rounds to `x` on the grids from `10 ^ exponent` down, at most `fuel` of
them. -/
def shortestFrom (x : Binary) : Nat → Int → Scaled
  | 0, exponent => ⟨x.num / x.den, exponent⟩
  | fuel + 1, exponent =>
    match (neighbours x exponent).find? (·.readsBack x) with
    | some d => d
    | none => shortestFrom x fuel (exponent - 1)

/-- The number of decimal digits of a whole number. -/
def digitCount (n : Nat) : Nat := (Nat.toDigits 10 n).length

/-- The shortest decimal that rounds to `x`. The search starts above `x` and ends at the latest at
the grid that `x` itself is on. -/
def shortest (x : Binary) : Scaled :=
  let start := digitCount (x.num / x.den)
  shortestFrom x (start + (-x.exponent).toNat + 1) start

end Profiler.Decimal
