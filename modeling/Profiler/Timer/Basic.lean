import Profiler.Event
import Profiler.Region
import Profiler.Timer.Siblings

/-!
# The region timer

A `Timer` keeps its regions as numbered nodes. Node `0` is the top-level region, every other node
knows its parent, and each node keeps its children sorted by name together with a cursor to the
child used last. The `current` node is the innermost open region; the open regions are those on its
way up to the top (`Timer.openPath`).

This module holds the timer, its nodes and the moves of which every operation consists: finding or
creating a child (`Timer.locateChild`), opening, closing and leaving a region.
-/

namespace Profiler

/-- A region of a timer with its place in the tree. -/
structure Node where
  region : Region
  parent? : Option Nat
  children : List Nat := []
  /-- The position of the child used last, where the next search starts. -/
  cursor : Nat := 0
  marks : Marks := {}
deriving DecidableEq

namespace Node

/-- A node that nothing has been collected in. -/
def fresh (name : String) (parent? : Option Nat) : Node := { region := { name }, parent? }

instance : Inhabited Node := ⟨fresh "" none⟩

/-- The node at the start of a new span: one more entry, and marks at the reading. -/
def opened (node : Node) (metrics : Metrics) (reading : Reading) : Node :=
  { node with region := node.region.countEntry metrics, marks := node.marks.moveTo reading }

/-- The node with everything up to the reading in its totals, and marks moved up to it. Moving the
marks makes it safe to close a region that stays open. -/
def closed (node : Node) (reading : Reading) : Node :=
  { node with region := node.region.accrue node.marks reading, marks := node.marks.moveTo reading }

/-- The node with `child` at `position` among its children. -/
def adopt (node : Node) (position child : Nat) : Node :=
  { node with children := node.children.insertIdx position child }

/-- The node with its cursor at `position`. -/
def pointTo (node : Node) (position : Nat) : Node := { node with cursor := position }

end Node

/-- What a new timer is made from. -/
structure Config where
  name : String := "total"
  metrics : Metrics := {}
  scope : Scope := .thread
deriving DecidableEq

/-- A tree of named regions, one of which is the innermost open one. -/
structure Timer where
  metrics : Metrics
  scope : Scope
  nodes : Array Node
  current : Nat
deriving DecidableEq

namespace Timer

/-- The node with a number. -/
def node (timer : Timer) (id : Nat) : Node := timer.nodes.getD id default

/-- The name of a node. -/
def nameOf (timer : Timer) (id : Nat) : String := (timer.node id).region.name

/-- The name of the top-level region. -/
def topName (timer : Timer) : String := timer.nameOf 0

/-- The name of the innermost open region. -/
def currentName (timer : Timer) : String := timer.nameOf timer.current

/-- The timer with one node changed. -/
def modifyNode (timer : Timer) (id : Nat) (f : Node → Node) : Timer :=
  { timer with nodes := timer.nodes.modify id f }

/-- The timer with another innermost open region. -/
def goTo (timer : Timer) (id : Nat) : Timer := { timer with current := id }

/-- What the timer reads from the clock. -/
def reading (timer : Timer) (clock : Clock) : Reading := clock.reading timer.metrics timer.scope

/-- The timer after a span of node `id` has been opened. -/
def openNode (timer : Timer) (id : Nat) (clock : Clock) : Timer :=
  timer.modifyNode id fun node => node.opened timer.metrics (timer.reading clock)

/-- The timer after node `id` has been brought up to date. -/
def closeNode (timer : Timer) (id : Nat) (clock : Clock) : Timer :=
  timer.modifyNode id fun node => node.closed (timer.reading clock)

/-- A new timer, whose top-level region is open from now on. -/
def ofConfig (config : Config) (clock : Clock) : Timer :=
  openNode ⟨config.metrics, config.scope, #[Node.fresh config.name none], 0⟩ 0 clock

/-- The names of the children of a node, in their order. -/
def childNames (timer : Timer) (id : Nat) : List String :=
  (timer.node id).children.map timer.nameOf

/-- The child `name` of a node and the timer that has it: created, if need be, at its place in the
order of names. The cursor of the node moves to the child. -/
def locateChild (timer : Timer) (parent : Nat) (name : String) : Nat × Timer :=
  match Place.locate (timer.childNames parent) (timer.node parent).cursor name with
  | .found position =>
    ((timer.node parent).children.getD position 0, timer.modifyNode parent (·.pointTo position))
  | .vacant position =>
    let child := timer.nodes.size
    let grown := { timer with nodes := timer.nodes.push (.fresh name (some parent)) }
    (child, grown.modifyNode parent fun node => (node.adopt position child).pointTo position)

/-- The nodes from `id` up to the top-level region, at most `fuel` of them. -/
def climb (timer : Timer) : Nat → Nat → List Nat
  | 0, _ => []
  | fuel + 1, id =>
    id :: match (timer.node id).parent? with
      | none => []
      | some parent => timer.climb fuel parent

/-- The open regions, innermost first. A node has fewer ancestors than the timer has nodes, so the
walk always reaches the top. -/
def openPath (timer : Timer) : List Nat := timer.climb timer.nodes.size timer.current

/-- The timer after the current region has been closed and left. The top-level region is neither
closed nor left. -/
def leave (timer : Timer) (clock : Clock) : Timer :=
  match (timer.node timer.current).parent? with
  | none => timer
  | some parent => (timer.closeNode timer.current clock).goTo parent

/-- Whether the top-level region is the innermost open one. -/
def isAtTop (timer : Timer) : Bool := (timer.node timer.current).parent?.isNone

/-! ### What changes do to the nodes -/

@[simp] theorem node_goTo (timer : Timer) (id other : Nat) :
    (timer.goTo id).node other = timer.node other := rfl

@[simp] theorem current_goTo (timer : Timer) (id : Nat) : (timer.goTo id).current = id := rfl

@[simp] theorem size_modifyNode (timer : Timer) (id : Nat) (f : Node → Node) :
    (timer.modifyNode id f).nodes.size = timer.nodes.size := by
  simp [modifyNode]

@[simp] theorem current_modifyNode (timer : Timer) (id : Nat) (f : Node → Node) :
    (timer.modifyNode id f).current = timer.current := rfl

theorem node_modifyNode_of_ne (timer : Timer) {id other : Nat} (f : Node → Node)
    (h : other ≠ id) : (timer.modifyNode id f).node other = timer.node other := by
  simp [node, modifyNode, Array.getD_eq_getD_getElem?, Array.getElem?_modify, Ne.symm h]

theorem node_modifyNode_self (timer : Timer) {id : Nat} (f : Node → Node)
    (h : id < timer.nodes.size) : (timer.modifyNode id f).node id = f (timer.node id) := by
  simp [node, modifyNode, Array.getD_eq_getD_getElem?, Array.getElem_modify, h]

end Timer

end Profiler
