import Profiler.Region

/-!
# Totals without a name

`Totals` are the five totals of a region. The ways in which a region changes are changes of its
totals (`Region.totals_countEntry`, `Region.totals_accrue`, `Region.totals_add`). What goes by in a
region is measured between two readings (`Totals.elapse`), and marks stand for the last reading of
the sources that are tracked (`Marks.tracked`).
-/

namespace Profiler

/-- What was collected in a region. -/
structure Totals where
  wall : Duration := 0
  cpu : Duration := 0
  count : Count := 0
  reads : Count := 0
  writes : Count := 0
deriving DecidableEq

namespace Totals

/-- The totals after one more entry, if entries are counted. -/
def countEntry (totals : Totals) (metrics : Metrics) : Totals :=
  if metrics.count then { totals with count := totals.count + Capped.ofNat 1 } else totals

/-- The totals after the time and usage between two readings. -/
def elapse (totals : Totals) (entry now : Reading) : Totals where
  wall := match entry.wall, now.wall with
    | some start, some stop => totals.wall + (stop - start)
    | _, _ => totals.wall
  cpu := match entry.usage, now.usage with
    | some start, some stop => totals.cpu + (stop.cpu - start.cpu)
    | _, _ => totals.cpu
  count := totals.count
  reads := match entry.usage, now.usage with
    | some start, some stop => totals.reads + (stop.reads - start.reads)
    | _, _ => totals.reads
  writes := match entry.usage, now.usage with
    | some start, some stop => totals.writes + (stop.writes - start.writes)
    | _, _ => totals.writes

/-- The totals with an addition. -/
def add (totals : Totals) : Addition → Totals
  | .wall time => { totals with wall := totals.wall + time }
  | .cpu time => { totals with cpu := totals.cpu + time }
  | .count entries => { totals with count := totals.count + entries }
  | .reads blocks => { totals with reads := totals.reads + blocks }
  | .writes blocks => { totals with writes := totals.writes + blocks }

/-- The totals under a name. -/
def region (totals : Totals) (name : String) : Region :=
  ⟨name, totals.wall, totals.cpu, totals.count, totals.reads, totals.writes⟩

end Totals

/-- The readings that marks stand for, of the sources that are tracked. -/
def Marks.tracked (marks : Marks) (metrics : Metrics) : Reading where
  wall := if metrics.wall then some marks.wall else none
  usage := if metrics.cpu then some marks.usage else none

/-- Marks that have been moved up stand for the reading that they were moved to. -/
theorem Marks.tracked_moveTo (marks : Marks) (clock : Clock) (metrics : Metrics) (scope : Scope) :
    (marks.moveTo (clock.reading metrics scope)).tracked metrics = clock.reading metrics scope := by
  cases hwall : metrics.wall <;> cases hcpu : metrics.cpu <;>
    simp [Marks.tracked, Marks.moveTo, Clock.reading, hwall, hcpu]

namespace Region

/-- The region with its name and count only. -/
def outline (region : Region) : Region := { name := region.name, count := region.count }

/-- The totals of a region. -/
def totals (region : Region) : Totals :=
  ⟨region.wall, region.cpu, region.count, region.reads, region.writes⟩

@[simp] theorem totals_countEntry (region : Region) (metrics : Metrics) :
    (region.countEntry metrics).totals = region.totals.countEntry metrics := by
  unfold countEntry Totals.countEntry
  split <;> rfl

@[simp] theorem totals_add (region : Region) (addition : Addition) :
    (region.add addition).totals = region.totals.add addition := by
  cases addition <;> rfl

/-- A region accrues what goes by between the reading that its marks stand for and another one. -/
theorem totals_accrue (region : Region) (marks : Marks) (clock : Clock) (metrics : Metrics)
    (scope : Scope) : (region.accrue marks (clock.reading metrics scope)).totals =
      region.totals.elapse (marks.tracked metrics) (clock.reading metrics scope) := by
  cases hwall : metrics.wall <;> cases hcpu : metrics.cpu <;>
    simp [accrue, accrueWall, accrueUsage, Totals.elapse, Marks.tracked, Clock.reading, hwall, hcpu,
      totals, add]

end Region

end Profiler
