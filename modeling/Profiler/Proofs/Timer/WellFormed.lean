import Mathlib.Order.Basic
import Profiler.Proofs.Timer.Siblings
import Profiler.Timer.Operations
import Profiler.Timer.Reporting

/-!
# The numbered nodes of a timer form a sorted tree

`Timer.WellFormed` is the invariant of the nodes: node `0` is the only one without a parent, parents
come before their children, the children of a node are exactly the nodes that name it as their
parent, and they are sorted by name. `Timer.Extends` says that no change takes nodes away or moves
them. Both are first proved of the moves of which every operation consists
(`Timer.located_locateChild` is about the one that creates nodes), then of the operations.
-/

namespace Profiler.Timer

/-! ### Nodes after a change -/

theorem node_of_size_le (timer : Timer) {id : Nat} (h : timer.nodes.size ≤ id) :
    timer.node id = default := by
  simp [node, Array.getD_eq_getD_getElem?, Array.getElem?_eq_none h]

theorem node_modifyNode (timer : Timer) (id other : Nat) (f : Node → Node) :
    (timer.modifyNode id f).node other =
      if other = id ∧ id < timer.nodes.size then f (timer.node id) else timer.node other := by
  by_cases hne : other = id
  · subst hne
    by_cases hlt : other < timer.nodes.size
    · rw [node_modifyNode_self timer f hlt, if_pos ⟨rfl, hlt⟩]
    · rw [if_neg (fun h => hlt h.2), node_of_size_le _ (by simpa using hlt),
        node_of_size_le _ (not_lt.mp hlt)]
  · rw [node_modifyNode_of_ne timer f hne, if_neg (fun h => hne h.1)]

theorem modifyNode_modifyNode (timer : Timer) (id : Nat) (f g : Node → Node) :
    (timer.modifyNode id f).modifyNode id g = timer.modifyNode id fun node => g (f node) := by
  have hnodes : (timer.nodes.modify id f).modify id g =
      timer.nodes.modify id fun node => g (f node) := by
    refine Array.ext' ?_
    rw [Array.toList_modify, Array.toList_modify, Array.toList_modify, List.modify_modify_eq]
    rfl
  rw [modifyNode, modifyNode, hnodes]
  rfl

/-- Changes of different nodes can be made in either order. -/
theorem modifyNode_comm (timer : Timer) {id other : Nat} (f g : Node → Node) (h : id ≠ other) :
    (timer.modifyNode id f).modifyNode other g = (timer.modifyNode other g).modifyNode id f := by
  have hnodes : (timer.nodes.modify id f).modify other g =
      (timer.nodes.modify other g).modify id f := by
    refine Array.ext' ?_
    simp only [Array.toList_modify]
    exact List.modify_modify_ne f g timer.nodes.toList h
  rw [modifyNode, modifyNode, hnodes]
  rfl

/-- The timer with a new node that no parent knows of yet. -/
def grow (timer : Timer) (name : String) (parent : Nat) : Timer :=
  { timer with nodes := timer.nodes.push (.fresh name (some parent)) }

theorem size_grow (timer : Timer) (name : String) (parent : Nat) :
    (timer.grow name parent).nodes.size = timer.nodes.size + 1 := by
  simp [grow]

theorem node_grow (timer : Timer) (name : String) (parent other : Nat) :
    (timer.grow name parent).node other =
      if other = timer.nodes.size then .fresh name (some parent) else timer.node other := by
  simp only [node, grow, Array.getD_eq_getD_getElem?, Array.getElem?_push]
  split_ifs <;> rfl

/-! ### The invariant -/

/-- The nodes form one tree with node `0` at its top, whose siblings are sorted by name. -/
structure WellFormed (timer : Timer) : Prop where
  current_lt : timer.current < timer.nodes.size
  top_parent : (timer.node 0).parent? = none
  exists_parent : ∀ id < timer.nodes.size, id ≠ 0 →
    ∃ parent < id, (timer.node id).parent? = some parent
  mem_children : ∀ parent child, child ∈ (timer.node parent).children ↔
    child < timer.nodes.size ∧ (timer.node child).parent? = some parent
  sorted : ∀ parent, (timer.childNames parent).Pairwise (· < ·)
  cursor_lt : ∀ parent, (timer.node parent).children ≠ [] →
    (timer.node parent).cursor < (timer.node parent).children.length

namespace WellFormed

variable {timer : Timer} (wf : timer.WellFormed)
include wf

theorem size_pos : 0 < timer.nodes.size := Nat.zero_lt_of_lt wf.current_lt

/-- Parents are nodes and come before their children. -/
theorem parent_lt {id parent : Nat} (h : (timer.node id).parent? = some parent) :
    parent < id ∧ id < timer.nodes.size := by
  have hlt : id < timer.nodes.size := by
    by_contra hge
    rw [node_of_size_le timer (not_lt.mp hge)] at h
    cases h
  have hne : id ≠ 0 := by
    rintro rfl
    rw [wf.top_parent] at h
    cases h
  obtain ⟨parent', hparent', heq⟩ := wf.exists_parent id hlt hne
  rw [heq] at h
  cases h
  exact ⟨hparent', hlt⟩

theorem parent?_eq_none_iff {id : Nat} (h : id < timer.nodes.size) :
    (timer.node id).parent? = none ↔ id = 0 := by
  constructor
  · intro hnone
    by_contra hne
    obtain ⟨parent, -, heq⟩ := wf.exists_parent id h hne
    rw [hnone] at heq
    cases heq
  · rintro rfl
    exact wf.top_parent

theorem lt_of_mem_children {parent child : Nat} (h : child ∈ (timer.node parent).children) :
    parent < child ∧ child < timer.nodes.size :=
  wf.parent_lt ((wf.mem_children parent child).mp h).2

theorem nodup_children (parent : Nat) : (timer.node parent).children.Nodup :=
  List.Nodup.of_map _ ((wf.sorted parent).imp (fun h => ne_of_lt h))

/-- Siblings have different names. -/
theorem eq_of_nameOf_eq {parent child other : Nat} (hchild : child ∈ (timer.node parent).children)
    (hother : other ∈ (timer.node parent).children) (h : timer.nameOf child = timer.nameOf other) :
    child = other := by
  have hinj := List.inj_on_of_nodup_map
    (List.Pairwise.imp (fun h => ne_of_lt h) (wf.sorted parent) : (timer.childNames parent).Nodup)
  exact hinj hchild hother h

end WellFormed

/-! ### Timers that only grow -/

/-- The later timer has all nodes of the earlier one, with their names and in their places, and
tracks the same metrics. -/
structure Extends (earlier later : Timer) : Prop where
  size_le : earlier.nodes.size ≤ later.nodes.size
  nameOf_eq : ∀ id < earlier.nodes.size, later.nameOf id = earlier.nameOf id
  parent?_eq : ∀ id < earlier.nodes.size, (later.node id).parent? = (earlier.node id).parent?
  metrics_eq : later.metrics = earlier.metrics
  scope_eq : later.scope = earlier.scope

namespace Extends

theorem refl (timer : Timer) : timer.Extends timer :=
  ⟨le_rfl, fun _ _ => rfl, fun _ _ => rfl, rfl, rfl⟩

theorem trans {a b c : Timer} (h₁ : a.Extends b) (h₂ : b.Extends c) : a.Extends c where
  size_le := h₁.size_le.trans h₂.size_le
  nameOf_eq id h := (h₂.nameOf_eq id (lt_of_lt_of_le h h₁.size_le)).trans (h₁.nameOf_eq id h)
  parent?_eq id h := (h₂.parent?_eq id (lt_of_lt_of_le h h₁.size_le)).trans (h₁.parent?_eq id h)
  metrics_eq := h₂.metrics_eq.trans h₁.metrics_eq
  scope_eq := h₂.scope_eq.trans h₁.scope_eq

end Extends

/-! ### Changes that leave the tree alone -/

/-- The timers differ only in what their nodes have collected, in cursors and in where they are. -/
structure SameTree (timer other : Timer) : Prop where
  size_eq : other.nodes.size = timer.nodes.size
  nameOf_eq : ∀ id, other.nameOf id = timer.nameOf id
  parent?_eq : ∀ id, (other.node id).parent? = (timer.node id).parent?
  children_eq : ∀ id, (other.node id).children = (timer.node id).children
  metrics_eq : other.metrics = timer.metrics
  scope_eq : other.scope = timer.scope

namespace SameTree

variable {timer other : Timer} (same : timer.SameTree other)
include same

theorem toExtends : timer.Extends other where
  size_le := same.size_eq.ge
  nameOf_eq id _ := same.nameOf_eq id
  parent?_eq id _ := same.parent?_eq id
  metrics_eq := same.metrics_eq
  scope_eq := same.scope_eq

theorem childNames_eq (id : Nat) : other.childNames id = timer.childNames id := by
  have hname : other.nameOf = timer.nameOf := funext same.nameOf_eq
  rw [childNames, childNames, same.children_eq, hname]

theorem wellFormed (wf : timer.WellFormed) (hcurrent : other.current < timer.nodes.size)
    (hcursor : ∀ id, (timer.node id).children ≠ [] →
      (other.node id).cursor < (timer.node id).children.length) : other.WellFormed where
  current_lt := by rw [same.size_eq]; exact hcurrent
  top_parent := by rw [same.parent?_eq]; exact wf.top_parent
  exists_parent := by
    intro id hid hne
    rw [same.size_eq] at hid
    rw [same.parent?_eq]
    exact wf.exists_parent id hid hne
  mem_children := by
    intro parent child
    rw [same.children_eq, same.size_eq, same.parent?_eq]
    exact wf.mem_children parent child
  sorted := by
    intro parent
    rw [same.childNames_eq]
    exact wf.sorted parent
  cursor_lt := by
    intro parent hchildren
    rw [same.children_eq] at hchildren ⊢
    exact hcursor parent hchildren

end SameTree

theorem sameTree_goTo (timer : Timer) (id : Nat) : timer.SameTree (timer.goTo id) :=
  ⟨rfl, fun _ => rfl, fun _ => rfl, fun _ => rfl, rfl, rfl⟩

theorem WellFormed.goTo {timer : Timer} (wf : timer.WellFormed) {id : Nat}
    (h : id < timer.nodes.size) : (timer.goTo id).WellFormed :=
  (timer.sameTree_goTo id).wellFormed wf h wf.cursor_lt

/-- A change of a node that keeps its name, its parent and its children. -/
structure KeepsPlace (f : Node → Node) : Prop where
  name_eq : ∀ node, (f node).region.name = node.region.name
  parent?_eq : ∀ node, (f node).parent? = node.parent?
  children_eq : ∀ node, (f node).children = node.children

theorem sameTree_modifyNode (timer : Timer) (id : Nat) {f : Node → Node} (keeps : KeepsPlace f) :
    timer.SameTree (timer.modifyNode id f) where
  size_eq := size_modifyNode timer id f
  nameOf_eq other := by
    rw [nameOf, node_modifyNode]
    split_ifs with h
    · rw [keeps.name_eq, h.1, nameOf]
    · rfl
  parent?_eq other := by
    rw [node_modifyNode]
    split_ifs with h
    · rw [keeps.parent?_eq, h.1]
    · rfl
  children_eq other := by
    rw [node_modifyNode]
    split_ifs with h
    · rw [keeps.children_eq, h.1]
    · rfl
  metrics_eq := rfl
  scope_eq := rfl

/-- A change of a node keeps the tree if it keeps the node's place and its cursor in bounds. -/
theorem WellFormed.modifyNode {timer : Timer} (wf : timer.WellFormed) (id : Nat) {f : Node → Node}
    (keeps : KeepsPlace f) (hcursor : (timer.node id).children ≠ [] →
      (f (timer.node id)).cursor < (timer.node id).children.length) :
    (timer.modifyNode id f).WellFormed := by
  refine (timer.sameTree_modifyNode id keeps).wellFormed wf wf.current_lt ?_
  intro other hchildren
  rw [node_modifyNode]
  split_ifs with h
  · rw [h.1] at hchildren ⊢
    exact hcursor hchildren
  · exact wf.cursor_lt other hchildren

theorem keepsPlace_opened (metrics : Metrics) (reading : Reading) :
    KeepsPlace fun node => node.opened metrics reading :=
  ⟨fun node => node.region.name_countEntry metrics, fun _ => rfl, fun _ => rfl⟩

theorem keepsPlace_closed (reading : Reading) : KeepsPlace fun node => node.closed reading :=
  ⟨fun node => node.region.name_accrue node.marks reading, fun _ => rfl, fun _ => rfl⟩

theorem keepsPlace_add (addition : Addition) :
    KeepsPlace fun node => { node with region := node.region.add addition } :=
  ⟨fun node => node.region.name_add addition, fun _ => rfl, fun _ => rfl⟩

theorem keepsPlace_pointTo (position : Nat) : KeepsPlace (·.pointTo position) :=
  ⟨fun _ => rfl, fun _ => rfl, fun _ => rfl⟩

theorem WellFormed.closeNode {timer : Timer} (wf : timer.WellFormed) (id : Nat) (clock : Clock) :
    (timer.closeNode id clock).WellFormed :=
  wf.modifyNode id (keepsPlace_closed _) (wf.cursor_lt id)

/-! ### Finding or creating a child -/

/-- What `locateChild` does: the child is there already and the cursor moves to it, or it is missing
and becomes the newest node, at the position that keeps its siblings sorted. -/
theorem locateChild_cases {timer : Timer} (wf : timer.WellFormed) (parent : Nat) (name : String) :
    (∃ position child, (timer.node parent).children[position]? = some child ∧
      timer.nameOf child = name ∧
      timer.locateChild parent name = (child, timer.modifyNode parent (·.pointTo position))) ∨
    ∃ position, Place.Fits (timer.childNames parent) name (.vacant position) ∧
      timer.locateChild parent name = (timer.nodes.size, (timer.grow name parent).modifyNode parent
        fun node => (node.adopt position timer.nodes.size).pointTo position) := by
  have hfits := Place.fits_locate (timer.childNames parent) (timer.node parent).cursor name
    (wf.sorted parent)
  unfold locateChild
  cases hplace : Place.locate (timer.childNames parent) (timer.node parent).cursor name with
  | found position =>
    rw [hplace] at hfits
    have hget : ((timer.node parent).children.map timer.nameOf)[position]? = some name := hfits
    rw [List.getElem?_map, Option.map_eq_some_iff] at hget
    obtain ⟨child, hchild, hname⟩ := hget
    refine .inl ⟨position, child, hchild, hname, ?_⟩
    dsimp only
    rw [List.getD_eq_getElem?_getD, hchild, Option.getD_some]
  | vacant position =>
    rw [hplace] at hfits
    exact .inr ⟨position, hfits, rfl⟩

/-- The timer after the newest node was made a child of `parent` at `position`. -/
def adopted (timer : Timer) (name : String) (parent position : Nat) : Timer :=
  (timer.grow name parent).modifyNode parent fun node =>
    (node.adopt position timer.nodes.size).pointTo position

section

variable (timer : Timer) (name : String) {parent : Nat} (position : Nat)

theorem size_adopted : (timer.adopted name parent position).nodes.size = timer.nodes.size + 1 := by
  rw [adopted, size_modifyNode, size_grow]

/-- The nodes after an adoption: the newest, its parent, and the others, which are as before. -/
theorem node_adopted (hparent : parent < timer.nodes.size) (id : Nat) :
    (timer.adopted name parent position).node id =
      if id = timer.nodes.size then .fresh name (some parent)
      else if id = parent then
        ((timer.node parent).adopt position timer.nodes.size).pointTo position
      else timer.node id := by
  rw [adopted, node_modifyNode, node_grow, node_grow, size_grow]
  have hne : parent ≠ timer.nodes.size := ne_of_lt hparent
  by_cases hid : id = parent
  · subst hid
    rw [if_pos ⟨rfl, Nat.lt_succ_of_lt hparent⟩, if_neg hne, if_neg hne, if_pos rfl]
  · rw [if_neg (fun h => hid h.1), if_neg hid]

theorem region_adopted (hparent : parent < timer.nodes.size) {id : Nat}
    (h : id ≠ timer.nodes.size) :
    ((timer.adopted name parent position).node id).region = (timer.node id).region ∧
      ((timer.adopted name parent position).node id).marks = (timer.node id).marks ∧
      ((timer.adopted name parent position).node id).parent? = (timer.node id).parent? := by
  rw [node_adopted timer name position hparent, if_neg h]
  split_ifs with hid
  · rw [hid]
    exact ⟨rfl, rfl, rfl⟩
  · exact ⟨rfl, rfl, rfl⟩

theorem extends_adopted (hparent : parent < timer.nodes.size) :
    timer.Extends (timer.adopted name parent position) where
  size_le := by rw [size_adopted]; exact Nat.le_succ _
  nameOf_eq id hid := by
    rw [nameOf, (region_adopted timer name position hparent (ne_of_lt hid)).1, nameOf]
  parent?_eq id hid := (region_adopted timer name position hparent (ne_of_lt hid)).2.2
  metrics_eq := rfl
  scope_eq := rfl

end

/-- The children after an adoption. -/
theorem mem_children_adopted {timer : Timer} {name : String} {parent position : Nat}
    (hparent : parent < timer.nodes.size)
    (hposition : position ≤ (timer.node parent).children.length) (id child : Nat) :
    child ∈ ((timer.adopted name parent position).node id).children ↔
      child ∈ (timer.node id).children ∨ id = parent ∧ child = timer.nodes.size := by
  rw [node_adopted timer name position hparent]
  split_ifs with hid hid'
  · rw [hid, node_of_size_le timer le_rfl]
    constructor
    · intro h
      cases h
    · rintro (h | ⟨h, -⟩)
      · cases h
      · exact absurd h.symm (ne_of_lt hparent)
  · subst hid'
    show child ∈ (timer.node id).children.insertIdx position timer.nodes.size ↔ _
    rw [List.mem_insertIdx hposition, or_comm, eq_self, true_and]
  · simp only [hid', false_and, or_false]

/-- The names of the children after an adoption. -/
theorem childNames_adopted {timer : Timer} (wf : timer.WellFormed) {name : String}
    {parent position : Nat} (hparent : parent < timer.nodes.size) (id : Nat) :
    (timer.adopted name parent position).childNames id =
      if id = parent then (timer.childNames parent).insertIdx position name
      else timer.childNames id := by
  have hname : ∀ child ∈ (timer.node id).children,
      (timer.adopted name parent position).nameOf child = timer.nameOf child := fun child h =>
    (timer.extends_adopted name position hparent).nameOf_eq child (wf.lt_of_mem_children h).2
  have hnew : (timer.adopted name parent position).nameOf timer.nodes.size = name := by
    rw [nameOf, node_adopted timer name position hparent, if_pos rfl]
    rfl
  rw [childNames, node_adopted timer name position hparent]
  split_ifs with hid hid' hid'
  · exact absurd (hid'.symm.trans hid) (ne_of_lt hparent)
  · rw [hid, childNames, node_of_size_le timer le_rfl]
    rfl
  · subst hid'
    show ((timer.node id).children.insertIdx position timer.nodes.size).map _ = _
    rw [List.map_insertIdx, hnew, List.map_congr_left hname]
    rfl
  · rw [List.map_congr_left hname]
    rfl

/-- An adoption at a vacant position keeps the invariant. -/
theorem WellFormed.adopted {timer : Timer} (wf : timer.WellFormed) {name : String}
    {parent position : Nat} (hparent : parent < timer.nodes.size)
    (hfits : Place.Fits (timer.childNames parent) name (.vacant position)) :
    (timer.adopted name parent position).WellFormed := by
  have hposition : position ≤ (timer.node parent).children.length := by
    have := hfits.position_le
    rwa [childNames, List.length_map] at this
  have hold := fun id (hid : id ≠ timer.nodes.size) =>
    (timer.region_adopted name position hparent hid).2.2
  have hnew : ((timer.adopted name parent position).node timer.nodes.size).parent? =
      some parent := by
    rw [node_adopted timer name position hparent, if_pos rfl]
    rfl
  refine ⟨?_, ?_, ?_, ?_, ?_, ?_⟩
  · rw [size_adopted]
    exact Nat.lt_succ_of_lt wf.current_lt
  · rw [hold 0 (ne_of_lt wf.size_pos)]
    exact wf.top_parent
  · intro id hid hne
    rw [size_adopted] at hid
    by_cases hsize : id = timer.nodes.size
    · subst hsize
      exact ⟨parent, hparent, hnew⟩
    · rw [hold id hsize]
      exact wf.exists_parent id (by omega) hne
  · -- The newest node is a child of `parent` and of no other node.
    intro id child
    rw [mem_children_adopted hparent hposition, size_adopted, wf.mem_children]
    by_cases hsize : child = timer.nodes.size
    · subst hsize
      rw [hnew]
      simp [eq_comm]
    · rw [hold child hsize]
      have : child < timer.nodes.size + 1 ↔ child < timer.nodes.size := by omega
      simp [this, hsize]
  · intro id
    rw [childNames_adopted wf hparent]
    split_ifs
    · exact hfits.pairwise_insertIdx (wf.sorted parent)
    · exact wf.sorted id
  · intro id hchildren
    rw [node_adopted timer name position hparent] at hchildren ⊢
    split_ifs at hchildren ⊢
    · exact absurd rfl hchildren
    · show position < ((timer.node parent).children.insertIdx position timer.nodes.size).length
      rw [List.length_insertIdx_of_le_length hposition]
      omega
    · exact wf.cursor_lt id hchildren

/-- What is true of the child that `locateChild` finds or creates, and of the timer that has it. -/
structure Located (timer : Timer) (parent : Nat) (name : String) (child : Nat) (located : Timer) :
    Prop where
  wellFormed : located.WellFormed
  toExtends : timer.Extends located
  current_eq : located.current = timer.current
  parent?_child : (located.node child).parent? = some parent
  nameOf_child : located.nameOf child = name
  /-- No other node is new. -/
  lt_or_eq : ∀ id < located.nodes.size, id < timer.nodes.size ∨ id = child
  region_eq : ∀ id < timer.nodes.size, (located.node id).region = (timer.node id).region
  marks_eq : ∀ id < timer.nodes.size, (located.node id).marks = (timer.node id).marks
  /-- Nothing has been collected in a new child. -/
  region_new : timer.nodes.size ≤ child → (located.node child).region = { name }

/-- **`locateChild` keeps the invariant** and changes nothing but the tree. -/
theorem located_locateChild {timer : Timer} (wf : timer.WellFormed) {parent : Nat}
    (hparent : parent < timer.nodes.size) (name : String) :
    timer.Located parent name (timer.locateChild parent name).1
      (timer.locateChild parent name).2 := by
  rcases locateChild_cases wf parent name with ⟨position, child, hget, hname, heq⟩ |
    ⟨position, hfits, heq⟩
  · -- The child is there, and nothing changes but the cursor of its parent.
    rw [heq]
    have hmem := List.mem_of_getElem? hget
    obtain ⟨hposition, -⟩ := List.getElem?_eq_some_iff.mp hget
    have hchild := (wf.mem_children parent child).mp hmem
    have hsame := timer.sameTree_modifyNode parent (keepsPlace_pointTo position)
    have hcollected : ∀ id, ((timer.modifyNode parent (·.pointTo position)).node id).region =
        (timer.node id).region ∧ ((timer.modifyNode parent (·.pointTo position)).node id).marks =
        (timer.node id).marks := by
      intro id
      rw [node_modifyNode]
      split_ifs with h
      · rw [h.1]
        exact ⟨rfl, rfl⟩
      · exact ⟨rfl, rfl⟩
    exact {
      wellFormed := wf.modifyNode parent (keepsPlace_pointTo position) fun _ => hposition
      toExtends := hsame.toExtends
      current_eq := rfl
      parent?_child := by rw [hsame.parent?_eq]; exact hchild.2
      nameOf_child := by rw [hsame.nameOf_eq]; exact hname
      lt_or_eq := fun id h => .inl (by rwa [hsame.size_eq] at h)
      region_eq := fun id _ => (hcollected id).1
      marks_eq := fun id _ => (hcollected id).2
      region_new := fun h => absurd hchild.1 (not_lt.mpr h) }
  · -- The child is missing and becomes the newest node.
    rw [heq]
    change timer.Located parent name timer.nodes.size (timer.adopted name parent position)
    have hnew : (timer.adopted name parent position).node timer.nodes.size =
        .fresh name (some parent) := by rw [node_adopted timer name position hparent, if_pos rfl]
    have hold := fun id (hid : id < timer.nodes.size) =>
      timer.region_adopted name position hparent (ne_of_lt hid)
    exact {
      wellFormed := wf.adopted hparent hfits
      toExtends := timer.extends_adopted name position hparent
      current_eq := rfl
      parent?_child := by rw [hnew]; rfl
      nameOf_child := by rw [nameOf, hnew]; rfl
      lt_or_eq := fun id h => by
        rw [size_adopted] at h
        exact Nat.lt_succ_iff_lt_or_eq.mp h
      region_eq := fun id hid => (hold id hid).1
      marks_eq := fun id hid => (hold id hid).2.1
      region_new := fun _ => by rw [hnew]; rfl }

theorem Located.child_lt {timer located : Timer} {parent child : Nat} {name : String}
    (h : timer.Located parent name child located) : child < located.nodes.size :=
  (h.wellFormed.parent_lt h.parent?_child).2

end Profiler.Timer
