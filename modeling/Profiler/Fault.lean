/-!
# Faults

A `Fault` is a use of the profiler that it refuses. `Fault.message` is its one wording.
-/

namespace Profiler

/-- Why the profiler refused a request. -/
inductive Fault where
  /-- The region to exit is neither the current region nor an ancestor of it. -/
  | regionNotOpen (name current : String)
  /-- The request would leave the top-level region. -/
  | atTopLevel (name : String)
  /-- The samples of a sampler were asked for before it was stopped. -/
  | samplerRunning (name : String)
deriving DecidableEq

/-- The wording of a fault. -/
def Fault.message : Fault → String
  | .regionNotOpen name current =>
    "cannot exit region '" ++ name ++ "': it is not open (innermost open region is '" ++ current
      ++ "')"
  | .atTopLevel name => "cannot leave region '" ++ name ++ "': it is the top-level region"
  | .samplerRunning name =>
    "sampler '" ++ name ++ "' is still running, stop it before reading its samples"

end Profiler
