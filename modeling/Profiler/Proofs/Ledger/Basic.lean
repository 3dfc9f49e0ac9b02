import Profiler.Keyed
import Profiler.Proofs.Timer.Orders
import Profiler.Proofs.Totals

/-!
# Ledgers of totals by path

A `Ledger` is what a timer means. It has no nodes, links or cursors: regions are known by their
paths, which are the names below the top-level region, and a finite map has the totals of each path.
The open regions are a stack of `Frame`s, each with the reading at which it was opened. The frame
at the bottom belongs to the top-level region, whose path is empty; it is never closed, only brought
up to date by reports.

`Ledger.follow` is the meaning of every order.
-/

namespace Profiler

/-- An open region and the reading since which it has been open, or last brought up to date. -/
structure Frame where
  path : List String
  entry : Reading
deriving DecidableEq

/-- Totals by path, and a stack of open paths. -/
structure Ledger where
  /-- The name of the top-level region. -/
  top : String
  metrics : Metrics
  scope : Scope
  entries : Keyed (List String) Totals
  /-- The entry of the frame of the top-level region. -/
  bottom : Reading
  /-- The other frames, the innermost first. -/
  inner : List Frame

namespace Ledger

/-- The frames from the innermost to the one at the bottom. -/
def frames (ledger : Ledger) : List Frame := ledger.inner ++ [⟨[], ledger.bottom⟩]

/-- The path of the innermost open region. -/
def path (ledger : Ledger) : List String := (ledger.inner.head?.map Frame.path).getD []

/-- The name of the region with a path. -/
def nameOf (ledger : Ledger) (path : List String) : String := path.getLast?.getD ledger.top

/-- The name of the innermost open region. -/
def currentName (ledger : Ledger) : String := ledger.nameOf ledger.path

/-- The totals of a path, which are zero if it has no entry. -/
def totals (ledger : Ledger) (path : List String) : Totals := (ledger.entries.get? path).getD {}

/-- The ledger with the totals of a path changed. A path without an entry gets one. -/
def update (ledger : Ledger) (path : List String) (f : Totals → Totals) : Ledger :=
  { ledger with entries := ledger.entries.insert path (f (ledger.totals path)) }

/-- A reading of what the ledger tracks. -/
def now (ledger : Ledger) (clock : Clock) : Reading := clock.reading ledger.metrics ledger.scope

/-- The ledger of a timer that has just been made: the top-level region has been opened. -/
def ofConfig (config : Config) (clock : Clock) : Ledger where
  top := config.name
  metrics := config.metrics
  scope := config.scope
  entries := Keyed.empty.insert [] (({} : Totals).countEntry config.metrics)
  bottom := clock.reading config.metrics config.scope
  inner := []

/-! ### Orders -/

/-- Opens the region `name` inside the innermost open one. -/
def enter (ledger : Ledger) (name : String) (clock : Clock) : Ledger :=
  let path := ledger.path ++ [name]
  { ledger.update path (·.countEntry ledger.metrics) with
    inner := ⟨path, ledger.now clock⟩ :: ledger.inner }

/-- Closes the innermost open region, unless it is the top-level one. -/
def leave (ledger : Ledger) (clock : Clock) : Ledger :=
  match ledger.inner with
  | [] => ledger
  | frame :: outer =>
    { ledger.update frame.path (·.elapse frame.entry (ledger.now clock)) with inner := outer }

/-- Closes the innermost `count` open regions. -/
def unwind (ledger : Ledger) (clock : Clock) : Nat → Ledger
  | 0 => ledger
  | count + 1 => (ledger.leave clock).unwind clock count

/-- What is said of an exit that closes `nested` regions first. -/
def closingEvents (ledger : Ledger) (name : String) (nested : Nat) : List Event :=
  if nested = 0 then [] else [.closingNested name ledger.currentName]

/-- Closes the regions down to and including the innermost one called `name`. The top-level region
is not closed, and nothing is if there is no such region. -/
def exit (ledger : Ledger) (name : String) (clock : Clock) :
    Except Fault Unit × List Event × Ledger :=
  match ledger.inner.findIdx? fun frame => ledger.nameOf frame.path = name with
  | some nested => (.ok (), ledger.closingEvents name nested, ledger.unwind clock (nested + 1))
  | none =>
    if ledger.top = name then
      (.error (.atTopLevel name), ledger.closingEvents name ledger.inner.length,
        ledger.unwind clock ledger.inner.length)
    else (.error (.regionNotOpen name ledger.currentName), [], ledger)

/-- Closes the innermost open region and opens its sibling `name` at the same reading. Nothing is
done if only the top-level region is open. -/
def change (ledger : Ledger) (name : String) (clock : Clock) : Except Fault Unit × Ledger :=
  match ledger.inner with
  | [] => (.error (.atTopLevel ledger.top), ledger)
  | _ :: _ => (.ok (), (ledger.leave clock).enter name clock)

/-- Adds to the region `name` inside the innermost open one, if the total is collected. -/
def add (ledger : Ledger) (name : String) (addition : Addition) : Ledger :=
  if ledger.metrics.accepts addition then ledger.update (ledger.path ++ [name]) (·.add addition)
  else ledger

/-- Adds what went by to the top-level region, which stays open from now on. -/
def closeOut (ledger : Ledger) (clock : Clock) : Ledger :=
  { ledger.update [] (·.elapse ledger.bottom (ledger.now clock)) with bottom := ledger.now clock }

/-! ### Reports -/

/-- The names that lead from a path to longer ones, in their order. -/
def childNames (ledger : Ledger) (path : List String) : List String :=
  (ledger.entries.keys.filterMap fun key =>
    if key.dropLast = path then key.getLast? else none).mergeSort

/-- The trees below a path, cut at `fuel` levels. -/
def forest (ledger : Ledger) : Nat → List String → Forest
  | 0, _ => .nil
  | fuel + 1, path => (ledger.childNames path).foldr (fun name later =>
      .cons ((ledger.totals (path ++ [name])).region name) (ledger.forest fuel (path ++ [name]))
        later) .nil

/-- The entries as a tree. There are more entries than a path has names, so it is not cut. -/
def copy (ledger : Ledger) : Report where
  metrics := ledger.metrics
  top := (ledger.totals []).region ledger.top
  children := ledger.forest ledger.entries.size []

/-- The first region called `name` in the tree of the entries. -/
def region? (ledger : Ledger) (name : String) : Option Region :=
  (ledger.copy.rows.find? fun row => row.2.name = name).map Prod.snd

/-! ### Runs -/

/-- The answer to an order, and the ledger after it. -/
def follow (ledger : Ledger) (clock : Clock) : Order → Order.Reply × Ledger
  | .enter name => ({}, ledger.enter name clock)
  | .exit name =>
    let (result, events, after) := ledger.exit name clock
    match result with
    | .ok () => ({ events }, after)
    | .error (.atTopLevel top) => ({ events := events ++ [.exitAtTopLevel name top] }, after)
    | .error fault => ({ events := events ++ [.exitIgnored name fault] }, after)
  | .tryExit name =>
    let (result, events, after) := ledger.exit name clock
    ({ result, events }, after)
  | .change name =>
    let (result, after) := ledger.change name clock
    match result with
    | .ok () => ({}, after)
    | .error fault => ({ events := [.changeIgnored name fault] }, after)
  | .tryChange name =>
    let (result, after) := ledger.change name clock
    ({ result }, after)
  | .add name addition => ({}, ledger.add name addition)
  | .report =>
    let current := ledger.closeOut clock
    ({ report? := some current.copy }, current)

/-- The ledger after orders that are given one after the other, each at its clock. -/
def after (ledger : Ledger) : List (Clock × Order) → Ledger
  | [] => ledger
  | (clock, order) :: rest => (ledger.follow clock order).2.after rest

/-- The answers to orders, each with the name of the innermost open region then. -/
def replies (ledger : Ledger) : List (Clock × Order) → List (Order.Reply × String)
  | [] => []
  | (clock, order) :: rest =>
    let (reply, after) := ledger.follow clock order
    (reply, after.currentName) :: after.replies rest

end Ledger

end Profiler
