import Profiler.Timer.Basic

/-!
# Looking up a region by name

`Timer.region?` is the first region of a name, when each region comes before its children and
siblings come in the order of their names. The search keeps the nodes that it has yet to visit in a
list and puts the children of a visited node in front of it.
-/

namespace Profiler.Timer

/-- The first region called `name` among the pending nodes and those below them, visiting at most
`fuel` nodes. -/
def search (timer : Timer) (name : String) : Nat → List Nat → Option Region
  | 0, _ => none
  | _ + 1, [] => none
  | fuel + 1, id :: pending =>
    if timer.nameOf id = name then some (timer.node id).region
    else timer.search name fuel ((timer.node id).children ++ pending)

/-- The first region called `name`. No node is visited twice, so the search ends by itself. -/
def region? (timer : Timer) (name : String) : Option Region :=
  timer.search name timer.nodes.size [0]

end Profiler.Timer
