import Profiler.Report.Basic
import Profiler.Timer.Basic

/-!
# Taking a report

The top-level region is open as long as its timer lives, so a report first brings it up to date and
then copies the tree.
-/

namespace Profiler.Timer

/-- The trees below the nodes `ids`, cut at `fuel` levels. -/
def forest (timer : Timer) : Nat → List Nat → Forest
  | 0, _ => .nil
  | fuel + 1, ids =>
    ids.foldr (fun id later =>
      .cons (timer.node id).region (timer.forest fuel (timer.node id).children) later) .nil

/-- A copy of the regions as they are. A tree has fewer levels than nodes, so none is cut. -/
def copy (timer : Timer) : Report where
  metrics := timer.metrics
  top := (timer.node 0).region
  children := timer.forest timer.nodes.size (timer.node 0).children

/-- The timer with its top-level region brought up to date. -/
def closeOut (timer : Timer) (clock : Clock) : Timer := timer.closeNode 0 clock

/-- Brings the top-level region up to date and copies the regions. -/
def report (timer : Timer) (clock : Clock) : Report × Timer :=
  let current := timer.closeOut clock
  (current.copy, current)

end Profiler.Timer
