import Profiler.Sampler.Histogram

/-!
# Reports of samples

A `SampleReport` is what a sampler found out: for how long it ran, and which labels it saw how
often.
-/

namespace Profiler

/-- What a sampler found out. -/
structure SampleReport where
  name : String
  elapsed : Duration
  entries : List (String × Count)
deriving DecidableEq

namespace SampleReport

/-- The report on a histogram. -/
def ofHistogram (name : String) (elapsed : Duration) (histogram : Histogram) : SampleReport :=
  ⟨name, elapsed, histogram.ranked⟩

/-- How often a label was seen. -/
def count (report : SampleReport) (label : String) : Count :=
  ((report.entries.find? fun entry => entry.1 = label).map Prod.snd).getD 0

/-- The number of samples in which something was seen. -/
def total (report : SampleReport) : Count :=
  report.entries.foldl (fun total entry => total + entry.2) 0

/-- The lines of the report. -/
def lines (report : SampleReport) : List String :=
  ("samples for " ++ report.name)
    :: ("  execution time " ++ toString report.elapsed.millis ++ " ms")
    :: report.entries.map fun (label, count) => label ++ ": " ++ toString count.val

/-- The report as text, each line with its end. -/
def text (report : SampleReport) : String := String.join (report.lines.map (· ++ "\n"))

end SampleReport

end Profiler
