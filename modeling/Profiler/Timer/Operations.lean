import Profiler.Timer.Basic

/-!
# What can be done with a timer

Entering, exiting and changing regions, and adding to them. Misuse never fails: `tryExit` and
`tryChange` answer it with a `Fault`, and `exit` and `change` turn the fault into an `Event`.

An exit takes a name, not a region. It closes the innermost open region of that name together with
everything nested in it; the top-level region always stays open.
-/

namespace Profiler.Timer

/-- What became of a request that may be refused. -/
structure Outcome where
  result : Except Fault Unit
  events : List Event
  timer : Timer

/-- The timer after a span of the child `name` of the current region has been opened. -/
def enter (timer : Timer) (name : String) (clock : Clock) : Timer :=
  let (child, located) := timer.locateChild timer.current name
  (located.goTo child).openNode child clock

/-- The open regions inside the innermost one called `name`, innermost first. -/
def nestedIn (timer : Timer) (name : String) : List Nat :=
  timer.openPath.takeWhile fun id => timer.nameOf id ≠ name

/-- Closes the innermost open region called `name` and everything nested in it. -/
def tryExit (timer : Timer) (name : String) (clock : Clock) : Outcome :=
  if timer.openPath.any fun id => timer.nameOf id = name then
    let nested := timer.nestedIn name
    let events := if nested.isEmpty then [] else [.closingNested name timer.currentName]
    let unwound := nested.foldl (fun timer _ => timer.leave clock) timer
    if unwound.isAtTop then ⟨.error (.atTopLevel unwound.currentName), events, unwound⟩
    else ⟨.ok (), events, unwound.leave clock⟩
  else
    ⟨.error (.regionNotOpen name timer.currentName), [], timer⟩

/-- What is said of an exit that was refused. -/
def exitEvent (name : String) : Fault → Event
  | .atTopLevel topLevel => .exitAtTopLevel name topLevel
  | fault => .exitIgnored name fault

/-- Closes the innermost open region called `name`, saying so if that cannot be done. -/
def exit (timer : Timer) (name : String) (clock : Clock) : List Event × Timer :=
  let outcome := timer.tryExit name clock
  match outcome.result with
  | .ok () => (outcome.events, outcome.timer)
  | .error fault => (outcome.events ++ [exitEvent name fault], outcome.timer)

/-- Closes the current region and opens its sibling `name`, with one reading for both. -/
def tryChange (timer : Timer) (name : String) (clock : Clock) : Outcome :=
  match (timer.node timer.current).parent? with
  | none => ⟨.error (.atTopLevel timer.currentName), [], timer⟩
  | some parent =>
    let (sibling, located) := (timer.closeNode timer.current clock).locateChild parent name
    ⟨.ok (), [], (located.goTo sibling).openNode sibling clock⟩

/-- Changes to the sibling `name` of the current region, saying so if there can be none. -/
def change (timer : Timer) (name : String) (clock : Clock) : List Event × Timer :=
  let outcome := timer.tryChange name clock
  match outcome.result with
  | .ok () => (outcome.events, outcome.timer)
  | .error fault => (outcome.events ++ [.changeIgnored name fault], outcome.timer)

/-- The timer with an addition to the child `name` of the current region. An addition to a total
that is not collected changes nothing and creates no region. -/
def add (timer : Timer) (name : String) (addition : Addition) : Timer :=
  if timer.metrics.accepts addition then
    let (child, located) := timer.locateChild timer.current name
    located.modifyNode child fun node => { node with region := node.region.add addition }
  else
    timer

end Profiler.Timer
