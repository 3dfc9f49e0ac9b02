import Profiler.Instrument.Request
import Profiler.Keyed

/-!
# Scripts for one instrument

A script runs requests to one instrument and changes of the clock in turn. Reports that are kept
outlive the instrument's later changes: `Step.recall` shows one as it was.
-/

namespace Profiler.Script

/-- A step of a script. -/
inductive Step where
  | clock (change : Clock.Change)
  | request (request : Request)
  /-- Show a report that was kept. -/
  | recall (key : String)

/-- What a step is answered. -/
inductive Answer where
  | done
  | response (response : Response)
  | recalled (report : Option Report)

/-- The answer to a step, the events that it gave rise to, and the innermost open region then. -/
structure Reply where
  answer : Answer
  events : List Event := []
  current? : Option String := none

/-- What a script works on. -/
structure State where
  clock : Clock
  instrument : Instrument
  saved : Keyed String Report := .empty

namespace State

/-- The state with a report kept, if a response is one. -/
def keep (state : State) : Response → State
  | .saved key (some report) => { state with saved := state.saved.insert key report }
  | _ => state

/-- One step of a script. -/
def step (state : State) : Step → Reply × State
  | .clock change => ({ answer := .done }, { state with clock := state.clock.change change })
  | .request request =>
    let (response, events, after) := state.instrument.serve state.clock request
    ({ answer := .response response, events, current? := after.currentName? },
      { state with instrument := after }.keep response)
  | .recall key => ({ answer := .recalled (state.saved.get? key) }, state)

/-- The replies to steps taken one after the other. -/
def run (state : State) : List Step → List Reply
  | [] => []
  | step :: rest =>
    let (reply, after) := state.step step
    reply :: after.run rest

end State

/-- The state at the start of a script: the clock after some changes, and a new instrument. -/
def start (changes : List Clock.Change) (config? : Option Config) : State :=
  let clock := changes.foldl Clock.change {}
  { clock, instrument := .ofConfig config? clock }

end Profiler.Script
