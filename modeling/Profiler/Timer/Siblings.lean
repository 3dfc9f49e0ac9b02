/-!
# Looking for a name among siblings

The children of a region are sorted by name. `Place.locate` looks for a name among them, starting
at the sibling that was used last and walking from there in the direction in which the name must
lie: programs enter and exit the same few regions over and over, so the first comparison is usually
the only one. The answer is a `Place`, which also says where a name that is missing belongs.
-/

namespace Profiler

/-- Where a name is among siblings, or where it belongs. -/
inductive Place where
  /-- The sibling at `position` has the name. -/
  | found (position : Nat)
  /-- No sibling has the name; it belongs before the one at `position`. -/
  | vacant (position : Nat)
deriving DecidableEq

namespace Place

/-- The walk to later siblings, of which the first is at `position`. -/
def forward (name : String) (position : Nat) : List String → Place
  | [] => vacant position
  | sibling :: later =>
    if sibling < name then forward name (position + 1) later
    else if sibling = name then found position
    else vacant position

/-- The walk to earlier siblings, given the nearest first. -/
def backward (name : String) : List String → Place
  | [] => vacant 0
  | sibling :: earlier =>
    if name < sibling then backward name earlier
    else if sibling = name then found earlier.length
    else vacant (earlier.length + 1)

/-- The place of `name` among `siblings`, looked for from `cursor`. -/
def locate (siblings : List String) (cursor : Nat) (name : String) : Place :=
  let start := min cursor (siblings.length - 1)
  match siblings.drop start with
  | [] => vacant 0
  | sibling :: later =>
    if sibling = name then found start
    else if sibling < name then forward name (start + 1) later
    else backward name (siblings.take start).reverse

end Place

end Profiler
