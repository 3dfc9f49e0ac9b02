import Profiler.Capped
import Profiler.Decimal.Layout

/-!
# Durations in seconds

Reports give durations in seconds. A duration becomes a binary floating-point number first: its
whole seconds, its remaining nanoseconds as a fraction of a second, and their sum are each rounded.
Tables write that number with two places, JSON writes it with as few digits as read back.
-/

namespace Profiler.Duration

open Decimal

/-- The duration as a number of seconds. -/
def toSeconds (d : Duration) : Binary :=
  (Binary.round d.secs 1).add (Binary.round d.nanos nanosPerSecond)

/-- The duration in seconds with two places. -/
def inTable (d : Duration) : List Char := fixed 2 d.toSeconds

/-- Numbers from `10 ^ -5` and below `10 ^ 16` are written positionally and always with a fraction;
an exponent follows an `e` and its sign. -/
def numberLayout : Layout := ⟨-5, 15, ['.', '0'], ['e'], ['+']⟩

/-- The duration in seconds with as few digits as read back. -/
def inJson (d : Duration) : List Char := numberLayout.write (shortest d.toSeconds)

end Profiler.Duration
