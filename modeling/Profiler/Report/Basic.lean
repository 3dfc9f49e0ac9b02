import Profiler.Region

/-!
# Reports

A `Report` is a copy of a tree of regions that no longer depends on any timer. Below the top-level
region the tree is a `Forest`: each region comes with the forest of its children and the forest of
its later siblings. `Report.rows` lists the regions, each before its children, with their depths.
-/

namespace Profiler

/-- Ordered trees of regions. -/
inductive Forest where
  | nil
  | cons (region : Region) (children siblings : Forest)
deriving DecidableEq

namespace Forest

/-- The regions with their depths, each before its children, when the first tree is at `depth`. -/
def rows (depth : Nat) : Forest → List (Nat × Region)
  | nil => []
  | cons region children siblings =>
    (depth, region) :: (children.rows (depth + 1) ++ siblings.rows depth)

end Forest

/-- A detached copy of the regions of a timer. -/
structure Report where
  metrics : Metrics
  top : Region
  children : Forest
deriving DecidableEq

/-- The regions of a report with their depths, each before its children. -/
def Report.rows (report : Report) : List (Nat × Region) :=
  (0, report.top) :: report.children.rows 1

end Profiler
