import Profiler.Report.Text
import Profiler.Sink
import Profiler.Text.Utf8

/-!
# Writing a report to a sink

The table of a report is written line by line, in UTF-8. `Report.writeTo` stops at the first line
that the sink does not take as a whole.
-/

namespace Profiler.Report

/-- The bytes of the table, line by line. -/
def fragments (report : Report) : List (List UInt8) :=
  report.lines.map fun line => utf8 (line ++ ['\n'])

/-- Writes the table to a sink. -/
def writeTo (report : Report) (sink : Sink) : Except Failure Unit × Sink :=
  sink.writeFragments report.fragments

end Profiler.Report
