import Profiler.Instrument.Basic
import Profiler.Report.Json

/-!
# Requests to an instrument

A `Request` is a question or an order that instrumented code has for its instrument, and
`Instrument.serve` answers it. Every order is answered with the region that it was about. A `View`
is a form in which the report can be had; every view takes a report first.
-/

namespace Profiler

/-- A form in which a report can be had. -/
inductive View where
  | rows
  | tree
  | json
  | text
  /-- What is printed, which is nothing if there is no report. -/
  | printed
  | write (sink : Sink)
  /-- The report itself, to be kept under a key. -/
  | save (key : String)

/-- A question or an order to an instrument. -/
inductive Request where
  | enter (name : String)
  | exit (name : String)
  | change (name : String)
  /-- Like `exit`, but a refusal is answered and not only told. -/
  | tryExit (name : String)
  /-- Like `change`, but a refusal is answered and not only told. -/
  | tryChange (name : String)
  | add (name : String) (addition : Addition)
  | region (name : String)
  | view (view : View)

/-- What an instrument answers. -/
inductive Response where
  /-- The region that was asked for, or that an order was about. -/
  | region (found : Option Region)
  /-- How an order that may be refused went, and the region that it was about. -/
  | attempt (result : Except Fault Unit) (found : Option Region)
  | rows (rows : Option (List (Nat × Region)))
  | tree (report : Option Report)
  | json (text : String)
  | text (text : Option String)
  | printed (text : String)
  | written (result : Except Failure Unit) (received : List UInt8)
  | saved (key : String) (report : Option Report)

namespace View

/-- What a sink got of a report. Without a report nothing is written. -/
def written (sink : Sink) : Option Report → Except Failure Unit × Sink
  | some report => report.writeTo sink
  | none => (.ok (), sink)

/-- A report in the form of a view. -/
def of (report : Option Report) : View → Response
  | rows => .rows (report.map Report.rows)
  | tree => .tree report
  | json => .json ((report.map Report.json).getD "")
  | text => .text (report.map Report.text)
  | printed => .printed ((report.map Report.text).getD "")
  | write sink =>
    let (result, after) := written sink report
    .written result after.received.toList
  | save key => .saved key report

end View

namespace Instrument

/-- The answer to an order about `name`, which is the region of that name afterwards. -/
def answerRegion (name : String) (events : List Event) (after : Instrument) :
    Response × List Event × Instrument :=
  (.region (after.region? name), events, after)

/-- The answer to an order about `name` that may have been refused. -/
def answerAttempt (name : String) :
    Except Fault Unit × List Event × Instrument → Response × List Event × Instrument
  | (result, events, after) => (.attempt result (after.region? name), events, after)

/-- The answer to a request, the events that it gives rise to, and the instrument after it. -/
def serve (instrument : Instrument) (clock : Clock) :
    Request → Response × List Event × Instrument
  | .enter name => answerRegion name [] (instrument.enter name clock)
  | .exit name =>
    let (events, after) := instrument.exit name clock
    answerRegion name events after
  | .change name =>
    let (events, after) := instrument.change name clock
    answerRegion name events after
  | .tryExit name => answerAttempt name (instrument.attempt (·.tryExit name clock))
  | .tryChange name => answerAttempt name (instrument.attempt (·.tryChange name clock))
  | .add name addition => answerRegion name [] (instrument.add name addition)
  | .region name => answerRegion name [] instrument
  | .view view =>
    let (report, after) := instrument.report clock
    (view.of report, [], after)

end Instrument

end Profiler
