import Profiler.Capped

/-!
# The clock and what a timer reads from it

A `Clock` holds what the operating system would answer at one moment: the monotonic wall clock and
the usage counters of the thread and of the process. It may run backwards, and it may refuse to
report blocks. A timer takes a `Reading` of the sources that it tracks; `Counters.seen` says what
it sees of the block counters.
-/

namespace Profiler

/-- The metrics that a timer collects. Block counters belong to processor time. -/
structure Metrics where
  wall : Bool := true
  cpu : Bool := true
  count : Bool := true
deriving DecidableEq

/-- Whose usage counters a timer reads. -/
inductive Scope where
  | thread
  | process
deriving DecidableEq

/-- Usage counters as the operating system keeps them. -/
structure Counters where
  cpu : Duration := 0
  reads : Int := 0
  writes : Int := 0
deriving DecidableEq

/-- Usage counters as a timer sees them. -/
structure Usage where
  cpu : Duration := 0
  reads : Count := 0
  writes : Count := 0
deriving DecidableEq

/-- A block counter as a timer sees it: zero if it is negative or refused. -/
def Counters.blocks (refused : Bool) (counter : Int) : Count :=
  if refused then 0 else Capped.ofNat counter.toNat

/-- The counters as a timer sees them. Processor time is reported even when blocks are refused. -/
def Counters.seen (counters : Counters) (refused : Bool) : Usage where
  cpu := counters.cpu
  reads := blocks refused counters.reads
  writes := blocks refused counters.writes

/-- What the sources of time and usage would answer at one moment. -/
structure Clock where
  wall : Duration := 0
  thread : Counters := {}
  process : Counters := {}
  blocksRefused : Bool := false
deriving DecidableEq

/-- One reading of the sources that a timer tracks. -/
structure Reading where
  wall : Option Duration
  usage : Option Usage
deriving DecidableEq

namespace Clock

/-- A way in which the clock changes. -/
inductive Change where
  /-- Time passes, and the running thread uses all of it. -/
  | advance (time : Duration)
  | setWall (wall : Duration)
  | setThread (counters : Counters)
  | setProcess (counters : Counters)
  | refuseBlocks (refused : Bool)

/-- The clock after `time` has passed, all of it used by the running thread. -/
def advance (clock : Clock) (time : Duration) : Clock :=
  { clock with
    wall := clock.wall + time
    thread := { clock.thread with cpu := clock.thread.cpu + time } }

/-- The clock after a change. -/
def change (clock : Clock) : Change → Clock
  | .advance time => clock.advance time
  | .setWall wall => { clock with wall }
  | .setThread counters => { clock with thread := counters }
  | .setProcess counters => { clock with process := counters }
  | .refuseBlocks refused => { clock with blocksRefused := refused }

/-- The usage of a scope as a timer sees it. -/
def usage (clock : Clock) : Scope → Usage
  | .thread => clock.thread.seen clock.blocksRefused
  | .process => clock.process.seen clock.blocksRefused

/-- A reading of the sources that `metrics` calls for. -/
def reading (clock : Clock) (metrics : Metrics) (scope : Scope) : Reading where
  wall := if metrics.wall then some clock.wall else none
  usage := if metrics.cpu then some (clock.usage scope) else none

end Clock

end Profiler
