import Profiler.Fault

/-!
# Events

The profiler does not fail on misuse that it can ignore: it says so in an `Event`. An event has a
level, a message that depends on its kind alone, and fields that carry the particulars.
-/

namespace Profiler

/-- How grave an event is. -/
inductive Level where
  | debug
  | warn
  | error
deriving DecidableEq

/-- Something the profiler says while it works. -/
inductive Event where
  /-- An exit of the top-level region was ignored. -/
  | exitAtTopLevel (region topLevel : String)
  /-- An exit of a region that is not open was ignored. -/
  | exitIgnored (region : String) (fault : Fault)
  /-- An exit of an ancestor closes the regions nested in it. -/
  | closingNested (region current : String)
  /-- A change at the top level was ignored. -/
  | changeIgnored (region : String) (fault : Fault)
  /-- A registry creates the timer of a thread. -/
  | timerCreated (thread : String)
  /-- A registry gave up the timer of a thread. -/
  | timerRemoved
  /-- A sampler starts to run. -/
  | samplerStarted (sampler target : String)
  /-- A sampler ends, having met a number of distinct labels. -/
  | samplerExiting (sampler : String) (labels : Nat)
  /-- The samples of a running sampler were asked for. -/
  | samplerBusy (sampler : String)
deriving DecidableEq

namespace Event

/-- How grave an event is. -/
def level : Event → Level
  | exitAtTopLevel .. | closingNested .. | changeIgnored .. | samplerBusy .. => .warn
  | exitIgnored .. => .error
  | timerCreated .. | timerRemoved | samplerStarted .. | samplerExiting .. => .debug

/-- The wording of an event. -/
def message : Event → String
  | exitAtTopLevel .. => "exit ignored, already at the top-level region"
  | exitIgnored .. => "exit ignored, examine the use of timing calls"
  | closingNested .. =>
    "exit does not match the innermost open region, closing the regions nested in it"
  | changeIgnored .. => "change ignored"
  | timerCreated .. => "creating region timer for thread"
  | timerRemoved => "removed region timer for thread"
  | samplerStarted .. => "sampler thread started"
  | samplerExiting .. => "sampler thread exiting"
  | samplerBusy .. => "cannot dump samples while the sampler is running"

/-- The particulars of an event, by name. -/
def fields : Event → List (String × String)
  | exitAtTopLevel region topLevel => [("region", region), ("top_level", topLevel)]
  | exitIgnored region fault => [("region", region), ("error", fault.message)]
  | closingNested region current => [("region", region), ("current", current)]
  | changeIgnored region fault => [("region", region), ("error", fault.message)]
  | timerCreated thread => [("thread", thread)]
  | timerRemoved => []
  | samplerStarted sampler target => [("sampler", sampler), ("target", target)]
  | samplerExiting sampler labels => [("sampler", sampler), ("labels", toString labels)]
  | samplerBusy sampler => [("sampler", sampler)]

end Event

end Profiler
