import Profiler.Clock

/-!
# Regions and their totals

A `Region` is a name with the totals collected under it. Totals change in three ways: a span of the
region opens (`Region.countEntry`), a span closes and adds what went by since its `Marks`
(`Region.accrue`), or a value measured elsewhere is added (`Region.add`). None of the three lowers
a total.
-/

namespace Profiler

/-- A named region and what was collected in it. -/
structure Region where
  name : String
  wall : Duration := 0
  cpu : Duration := 0
  count : Count := 0
  reads : Count := 0
  writes : Count := 0
deriving DecidableEq

/-- The readings at the moment a span was opened, or last brought up to date. -/
structure Marks where
  wall : Duration := 0
  usage : Usage := {}
deriving DecidableEq

/-- The marks moved up to a reading. Sources that were not read keep their marks. -/
def Marks.moveTo (marks : Marks) (reading : Reading) : Marks where
  wall := reading.wall.getD marks.wall
  usage := reading.usage.getD marks.usage

/-- A value measured elsewhere, to be added to one total. -/
inductive Addition where
  | wall (time : Duration)
  | cpu (time : Duration)
  | count (entries : Count)
  | reads (blocks : Count)
  | writes (blocks : Count)
deriving DecidableEq

/-- Whether the total that an addition goes to is collected. -/
def Metrics.accepts (metrics : Metrics) : Addition → Bool
  | .wall _ => metrics.wall
  | .cpu _ => metrics.cpu
  | .count _ => metrics.count
  | .reads _ => metrics.cpu
  | .writes _ => metrics.cpu

namespace Region

/-- The region with an addition in its total. -/
def add (region : Region) : Addition → Region
  | .wall time => { region with wall := region.wall + time }
  | .cpu time => { region with cpu := region.cpu + time }
  | .count entries => { region with count := region.count + entries }
  | .reads blocks => { region with reads := region.reads + blocks }
  | .writes blocks => { region with writes := region.writes + blocks }

/-- The region after one more entry, if entries are counted. -/
def countEntry (region : Region) (metrics : Metrics) : Region :=
  if metrics.count then region.add (.count (Capped.ofNat 1)) else region

/-- The region with the wall time between its mark and a reading. -/
def accrueWall (region : Region) (mark : Duration) : Option Duration → Region
  | none => region
  | some wall => region.add (.wall (wall - mark))

/-- The region with the usage between its mark and a reading. -/
def accrueUsage (region : Region) (mark : Usage) : Option Usage → Region
  | none => region
  | some usage =>
    ((region.add (.cpu (usage.cpu - mark.cpu))).add (.reads (usage.reads - mark.reads))).add
      (.writes (usage.writes - mark.writes))

/-- The region with everything that went by between its marks and a reading. -/
def accrue (region : Region) (marks : Marks) (reading : Reading) : Region :=
  (region.accrueWall marks.wall reading.wall).accrueUsage marks.usage reading.usage

@[simp] theorem name_add (region : Region) (addition : Addition) :
    (region.add addition).name = region.name := by
  cases addition <;> rfl

@[simp] theorem name_countEntry (region : Region) (metrics : Metrics) :
    (region.countEntry metrics).name = region.name := by
  unfold countEntry; split <;> simp

@[simp] theorem name_accrue (region : Region) (marks : Marks) (reading : Reading) :
    (region.accrue marks reading).name = region.name := by
  unfold accrue accrueUsage accrueWall; split <;> split <;> simp

end Region

end Profiler
