import Profiler.Capped
import Profiler.Keyed

/-!
# Histograms of labels

A `Histogram` counts how often each label was seen. `Histogram.ranked` lists the labels by how
often they were seen, the most frequent first and equally frequent ones in the order of their
names; the list does not depend on the order in which the labels came.
-/

namespace Profiler

/-- How often each label was seen. -/
abbrev Histogram := Keyed String Count

namespace Histogram

/-- The histogram after a label was seen once more. -/
def record (histogram : Histogram) (label : String) : Histogram :=
  histogram.insert label ((histogram.get? label).getD 0 + Capped.ofNat 1)

/-- Whether an entry comes before another or is equal to it. -/
def ranksBefore (a b : String × Count) : Bool :=
  b.2.val < a.2.val || (a.2.val = b.2.val && a.1 ≤ b.1)

/-- The entries, the most frequent first. -/
def ranked (histogram : Histogram) : List (String × Count) :=
  histogram.entries.mergeSort ranksBefore

end Histogram

end Profiler
