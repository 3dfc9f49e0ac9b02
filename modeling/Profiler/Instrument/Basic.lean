import Profiler.Report.Write
import Profiler.Timer.Operations
import Profiler.Timer.Reporting
import Profiler.Timer.Search

/-!
# Instruments

Instrumented code does not know whether timing is switched on. What it holds is an `Instrument`:
a live timer, or an inert one that ignores everything and has nothing to report.
-/

namespace Profiler

/-- A timer as instrumented code sees it. -/
inductive Instrument where
  | live (timer : Timer)
  | inert
deriving DecidableEq

namespace Instrument

/-- An instrument made from a configuration, or an inert one if there is none. -/
def ofConfig (config? : Option Config) (clock : Clock) : Instrument :=
  match config? with
  | some config => live (Timer.ofConfig config clock)
  | none => inert

/-- The instrument after a span of the child `name` has been opened. -/
def enter (instrument : Instrument) (name : String) (clock : Clock) : Instrument :=
  match instrument with
  | live timer => live (timer.enter name clock)
  | inert => inert

/-- Closes the innermost open region called `name`. -/
def exit (instrument : Instrument) (name : String) (clock : Clock) : List Event × Instrument :=
  match instrument with
  | live timer => let (events, after) := timer.exit name clock; (events, live after)
  | inert => ([], inert)

/-- Changes to the sibling `name` of the current region. -/
def change (instrument : Instrument) (name : String) (clock : Clock) : List Event × Instrument :=
  match instrument with
  | live timer => let (events, after) := timer.change name clock; (events, live after)
  | inert => ([], inert)

/-- Tries an order that may be refused. An inert instrument refuses nothing. -/
def attempt (instrument : Instrument) (order : Timer → Timer.Outcome) :
    Except Fault Unit × List Event × Instrument :=
  match instrument with
  | live timer => let outcome := order timer; (outcome.result, outcome.events, live outcome.timer)
  | inert => (.ok (), [], inert)

/-- The instrument with an addition to the child `name` of the current region. -/
def add (instrument : Instrument) (name : String) (addition : Addition) : Instrument :=
  match instrument with
  | live timer => live (timer.add name addition)
  | inert => inert

/-- The first region called `name`. -/
def region? : Instrument → String → Option Region
  | live timer, name => timer.region? name
  | inert, _ => none

/-- The report, if there is one. -/
def report (instrument : Instrument) (clock : Clock) : Option Report × Instrument :=
  match instrument with
  | live timer => let (report, after) := timer.report clock; (some report, live after)
  | inert => (none, inert)

/-- The name of the innermost open region, if there is one. -/
def currentName? : Instrument → Option String
  | live timer => some timer.currentName
  | inert => none

/-- The name of the top-level region, if there is one. -/
def topName? : Instrument → Option String
  | live timer => some timer.topName
  | inert => none

end Instrument

end Profiler
