import Profiler.Json
import Profiler.Report.Basic
import Profiler.Seconds

/-!
# Reports as JSON

Each region becomes an object with its name and count, its wall and processor time in seconds if
they are collected, and the objects of its children if it has any.
-/

namespace Profiler

namespace Region

/-- The members of a region's object that do not depend on its children. -/
def jsonMembers (region : Region) (metrics : Metrics) : List (String × Json) :=
  [("name", .string region.name), ("count", .nat region.count.val)]
    ++ (if metrics.wall then [("wall", .number region.wall.inJson)] else [])
    ++ (if metrics.cpu then [("cpu", .number region.cpu.inJson)] else [])

/-- The object of a region whose children have the given objects. -/
def toJson (region : Region) (metrics : Metrics) (children : List Json) : Json :=
  .object (region.jsonMembers metrics
    ++ if children.isEmpty then [] else [("subRegions", .array children)])

end Region

/-- The objects of the trees of a forest. -/
def Forest.toJson (metrics : Metrics) : Forest → List Json
  | nil => []
  | cons region children siblings =>
    region.toJson metrics (children.toJson metrics) :: siblings.toJson metrics

namespace Report

/-- The object of the top-level region. -/
def toJson (report : Report) : Json :=
  report.top.toJson report.metrics (report.children.toJson report.metrics)

/-- The report as JSON text. -/
def json (report : Report) : String := String.ofList report.toJson.render

end Report

end Profiler
