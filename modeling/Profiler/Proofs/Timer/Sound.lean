import Profiler.Proofs.Text.ByteOrder
import Profiler.Proofs.Timer.Checked

/-!
# Every state of every timer is sound

`Timer.Sound` says of a timer, in terms of its numbers only, that its nodes are one tree with sorted
siblings, that nothing that can be asked of it looks at a node or child that is not there or runs
forever, and that a report shows each node once. A timer that has been made and used in any way is
sound, and has all nodes that it ever had (`Timer.sound_after`).
-/

namespace Profiler.Timer

/-- The nodes are a tree in which nothing can go wrong. -/
structure Sound (timer : Timer) : Prop where
  current_lt : timer.current < timer.nodes.size
  parent?_eq_none_iff : ∀ id < timer.nodes.size, (timer.node id).parent? = none ↔ id = 0
  parent_lt : ∀ id < timer.nodes.size, ∀ parent, (timer.node id).parent? = some parent → parent < id
  /-- A node is once among the children of its parent, and never among those of another node. -/
  count_children : ∀ id < timer.nodes.size, ∀ parent < timer.nodes.size,
    (timer.node parent).children.count id =
      if (timer.node id).parent? = some parent then 1 else 0
  child_lt : ∀ parent < timer.nodes.size, ∀ child ∈ (timer.node parent).children,
    child < timer.nodes.size
  /-- Siblings are in the order of the bytes of their names, no two of which are the same. -/
  sorted : ∀ parent < timer.nodes.size,
    ((timer.childNames parent).map fun name => utf8 name.toList).Pairwise (· < ·)
  cursor_lt : ∀ parent < timer.nodes.size, (timer.node parent).children ≠ [] →
    (timer.node parent).cursor < (timer.node parent).children.length
  follow_eq : ∀ clock order, Checked.follow timer clock order = some (timer.follow clock order)
  region?_eq : ∀ name, Checked.region? timer name = some (timer.region? name)
  preorder_perm : timer.preorder.Perm (List.range timer.nodes.size)
  /-- The rows of a report are the nodes, each at a depth equal to its number of ancestors. -/
  rows_report : ∀ clock, (timer.report clock).1.rows = timer.preorder.map fun id =>
    ((timer.ancestors id).length, ((timer.report clock).2.node id).region)

section

variable {timer other : Timer}

theorem SameTree.below_eq (same : timer.SameTree other) (fuel : Nat) (ids : List Nat) :
    other.below fuel ids = timer.below fuel ids := by
  induction fuel generalizing ids with
  | zero => rfl
  | succ fuel ih =>
    rw [below, below]
    refine List.flatMap_congr fun id _ => ?_
    rw [ih, same.children_eq]

theorem SameTree.preorder_eq (same : timer.SameTree other) : other.preorder = timer.preorder := by
  rw [preorder, same.below_eq, same.size_eq, preorder]

variable (wf : timer.WellFormed)
include wf

theorem rows_report (clock : Clock) : (timer.report clock).1.rows = timer.preorder.map fun id =>
    ((timer.ancestors id).length, ((timer.report clock).2.node id).region) := by
  have same : timer.SameTree (timer.closeOut clock) := timer.sameTree_closeNode 0 clock
  have wf' : (timer.closeOut clock).WellFormed := wf.closeNode 0 clock
  show (timer.closeOut clock).copy.rows = timer.preorder.map fun id =>
    ((timer.ancestors id).length, ((timer.closeOut clock).node id).region)
  rw [rows_copy wf', same.preorder_eq]
  refine List.map_congr_left fun id hid => ?_
  have hlt := List.mem_range.mp ((preorder_perm wf).mem_iff.mp hid)
  rw [ancestors, same.toExtends.lineage_eq wf wf' hlt, ancestors]

theorem count_children {id parent : Nat} (hid : id < timer.nodes.size) :
    (timer.node parent).children.count id =
      if (timer.node id).parent? = some parent then 1 else 0 := by
  split_ifs with hparent
  · exact List.count_eq_one_of_mem (wf.nodup_children parent)
      ((wf.mem_children parent id).mpr ⟨hid, hparent⟩)
  · rw [List.count_eq_zero]
    intro hmem
    exact hparent ((wf.mem_children parent id).mp hmem).2

/-- The invariant is all it takes. -/
theorem WellFormed.sound : timer.Sound where
  current_lt := wf.current_lt
  parent?_eq_none_iff id hid := wf.parent?_eq_none_iff hid
  parent_lt id _ parent hparent := (wf.parent_lt hparent).1
  count_children id hid parent _ := count_children wf hid
  child_lt parent _ child hchild := (wf.lt_of_mem_children hchild).2
  sorted parent _ := by
    rw [List.pairwise_map]
    exact (wf.sorted parent).imp fun hlt => (utf8_lt_utf8_iff _ _).mpr hlt
  cursor_lt parent _ := wf.cursor_lt parent
  follow_eq := Checked.follow_eq wf
  region?_eq := Checked.region?_eq wf
  preorder_perm := preorder_perm wf
  rows_report := rows_report wf

end

/-- **Every timer is sound at any time**, and the regions that it has it keeps. -/
theorem sound_after (config : Config) (clock : Clock) (orders : List (Clock × Order)) :
    Checked.ofConfig config clock = some (ofConfig config clock) ∧
      ((ofConfig config clock).after orders).Sound ∧
      ∀ later, ((ofConfig config clock).after orders).Extends
        ((ofConfig config clock).after (orders ++ later)) := by
  have wf := wellFormed_after config clock orders
  refine ⟨Checked.modifyNode_eq Nat.zero_lt_one _, wf.sound, ?_⟩
  intro later
  rw [after_append]
  exact (after_keeps wf later).2

end Profiler.Timer
