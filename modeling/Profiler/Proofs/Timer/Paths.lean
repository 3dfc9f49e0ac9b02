import Mathlib.Data.List.Basic
import Profiler.Proofs.Timer.WellFormed

/-!
# The way from a node up to the top

`Timer.lineage` lists a node and its ancestors. A node has fewer ancestors than the timer has nodes,
so the walk up is never cut short (`Timer.climb_eq_lineage`): it follows the parents one by one
(`Timer.lineage_of_parent`) and ends at node `0`. `Timer.path` is the same way read downwards, as
the names below the top-level region; no two nodes have the same path (`Timer.path_injective`), and
a timer that grows keeps the paths of its nodes (`Timer.Extends.path_eq`).
-/

namespace Profiler.Timer

/-- A node and its ancestors, the top-level one last. -/
def lineage (timer : Timer) (id : Nat) : List Nat := timer.climb timer.nodes.size id

/-- The names of a node and its ancestors below the top-level region, the outermost first. -/
def path (timer : Timer) (id : Nat) : List String :=
  ((timer.lineage id).dropLast.map timer.nameOf).reverse

/-- A property of the top-level node that children inherit from their parents holds of all nodes. -/
theorem WellFormed.induction {timer : Timer} (wf : timer.WellFormed) {P : Nat → Prop} (top : P 0)
    (child : ∀ id parent, id < timer.nodes.size → (timer.node id).parent? = some parent →
      P parent → P id) {id : Nat} (h : id < timer.nodes.size) : P id := by
  induction id using Nat.strong_induction_on with
  | _ id ih =>
    by_cases hid : id = 0
    · rw [hid]; exact top
    · obtain ⟨parent, hlt, hparent⟩ := wf.exists_parent id h hid
      exact child id parent h hparent (ih parent hlt (hlt.trans h))

section

variable {timer : Timer} (wf : timer.WellFormed)
include wf

/-! ### The walk up -/

private theorem climb_eq_climb {fuel fuel' id : Nat} (h : id < fuel) (h' : id < fuel') :
    timer.climb fuel id = timer.climb fuel' id := by
  induction fuel generalizing fuel' id with
  | zero => exact absurd h (Nat.not_lt_zero id)
  | succ fuel ih =>
    cases fuel' with
    | zero => exact absurd h' (Nat.not_lt_zero id)
    | succ fuel' =>
      rw [climb, climb]
      cases hparent : (timer.node id).parent? with
      | none => rfl
      | some parent =>
        have hlt := (wf.parent_lt hparent).1
        dsimp only
        rw [ih (by omega) (by omega : parent < fuel')]

/-- **The walk up is never cut short**: with more than `id` steps to spare it is complete. -/
theorem climb_eq_lineage {fuel id : Nat} (h : id < fuel) (hid : id < timer.nodes.size) :
    timer.climb fuel id = timer.lineage id :=
  climb_eq_climb wf h hid

@[simp] theorem lineage_zero : timer.lineage 0 = [0] := by
  obtain ⟨size, hsize⟩ := Nat.exists_eq_succ_of_ne_zero wf.size_pos.ne'
  rw [lineage, hsize, climb, wf.top_parent]

theorem lineage_of_parent {id parent : Nat} (h : (timer.node id).parent? = some parent) :
    timer.lineage id = id :: timer.lineage parent := by
  obtain ⟨hlt, hid⟩ := wf.parent_lt h
  obtain ⟨size, hsize⟩ := Nat.exists_eq_succ_of_ne_zero wf.size_pos.ne'
  rw [lineage, hsize, climb, h]
  dsimp only
  rw [climb_eq_lineage wf (by omega) (hlt.trans hid)]

theorem lineage_ne_nil {id : Nat} (h : id < timer.nodes.size) : timer.lineage id ≠ [] := by
  refine wf.induction (P := fun id => timer.lineage id ≠ []) ?_ ?_ h
  · rw [lineage_zero wf]; exact List.cons_ne_nil 0 []
  · intro id parent _ hparent _
    rw [lineage_of_parent wf hparent]
    exact List.cons_ne_nil _ _

/-- The walk starts at the node itself. -/
theorem head?_lineage {id : Nat} (h : id < timer.nodes.size) :
    (timer.lineage id).head? = some id := by
  refine wf.induction (P := fun id => (timer.lineage id).head? = some id) ?_ ?_ h
  · rw [lineage_zero wf]; rfl
  · intro id parent _ hparent _
    rw [lineage_of_parent wf hparent, List.head?_cons]

/-- The walk ends at the top-level node. -/
theorem getLast?_lineage {id : Nat} (h : id < timer.nodes.size) :
    (timer.lineage id).getLast? = some 0 := by
  refine wf.induction (P := fun id => (timer.lineage id).getLast? = some 0) ?_ ?_ h
  · rw [lineage_zero wf]; rfl
  · intro id parent hid hparent ih
    have hne := lineage_ne_nil wf ((wf.parent_lt hparent).1.trans hid)
    rw [lineage_of_parent wf hparent, List.getLast?_cons, ih]
    rfl

/-- The walk only meets smaller numbers. -/
theorem pairwise_lineage {id : Nat} (h : id < timer.nodes.size) :
    (timer.lineage id).Pairwise (· > ·) ∧ ∀ other ∈ timer.lineage id, other ≤ id := by
  refine wf.induction (P := fun id => (timer.lineage id).Pairwise (· > ·) ∧
    ∀ other ∈ timer.lineage id, other ≤ id) ?_ ?_ h
  · rw [lineage_zero wf]
    exact ⟨List.pairwise_singleton _ _, by simp⟩
  · intro id parent _ hparent ⟨hpairwise, hle⟩
    have hlt := (wf.parent_lt hparent).1
    rw [lineage_of_parent wf hparent]
    refine ⟨List.pairwise_cons.mpr ⟨fun other hother => lt_of_le_of_lt (hle other hother) hlt,
      hpairwise⟩, ?_⟩
    intro other hother
    rcases List.mem_cons.mp hother with rfl | hmem
    · exact le_rfl
    · exact (hle other hmem).trans hlt.le

theorem le_of_mem_lineage {id other : Nat} (h : id < timer.nodes.size)
    (hother : other ∈ timer.lineage id) : other ≤ id :=
  (pairwise_lineage wf h).2 other hother

theorem nodup_lineage {id : Nat} (h : id < timer.nodes.size) : (timer.lineage id).Nodup :=
  (pairwise_lineage wf h).1.imp fun hlt => ne_of_gt hlt

/-- There are at least as many nodes as on the way up. -/
theorem length_lineage_le {id : Nat} (h : id < timer.nodes.size) :
    (timer.lineage id).length ≤ id + 1 := by
  refine wf.induction (P := fun id => (timer.lineage id).length ≤ id + 1) ?_ ?_ h
  · rw [lineage_zero wf]
    rfl
  · intro id parent _ hparent ih
    have hlt := (wf.parent_lt hparent).1
    rw [lineage_of_parent wf hparent, List.length_cons]
    omega

/-! ### Paths -/

@[simp] theorem path_zero : timer.path 0 = [] := by
  rw [path, lineage_zero wf]; rfl

theorem path_of_parent {id parent : Nat} (h : (timer.node id).parent? = some parent) :
    timer.path id = timer.path parent ++ [timer.nameOf id] := by
  obtain ⟨hlt, hid⟩ := wf.parent_lt h
  rw [path, lineage_of_parent wf h, List.dropLast_cons_of_ne_nil (lineage_ne_nil wf (hlt.trans hid)),
    List.map_cons, List.reverse_cons, path]

theorem path_eq_nil_iff {id : Nat} (h : id < timer.nodes.size) : timer.path id = [] ↔ id = 0 := by
  constructor
  · intro hnil
    by_contra hne
    obtain ⟨parent, -, hparent⟩ := wf.exists_parent id h hne
    rw [path_of_parent wf hparent] at hnil
    exact List.append_ne_nil_of_right_ne_nil _ (List.cons_ne_nil _ _) hnil
  · rintro rfl
    exact path_zero wf

/-- **A region is known by its path**: no two nodes have the same one. -/
theorem path_injective {id other : Nat} (h : id < timer.nodes.size)
    (hother : other < timer.nodes.size) (heq : timer.path id = timer.path other) : id = other := by
  induction id using Nat.strong_induction_on generalizing other with
  | _ id ih =>
    by_cases hid : id = 0
    · rw [hid, path_zero wf] at heq
      rw [hid, (path_eq_nil_iff wf hother).mp heq.symm]
    · obtain ⟨parent, hlt, hparent⟩ := wf.exists_parent id h hid
      have hne : other ≠ 0 := by
        intro hzero
        rw [hzero, path_zero wf] at heq
        exact hid ((path_eq_nil_iff wf h).mp heq)
      obtain ⟨parent', hlt', hparent'⟩ := wf.exists_parent other hother hne
      rw [path_of_parent wf hparent, path_of_parent wf hparent'] at heq
      obtain ⟨hpath, hname⟩ := List.append_inj' heq rfl
      -- The parents have the same path, and no two of their children have the same name.
      have hsame := ih parent hlt (hlt.trans h) (hlt'.trans hother) hpath
      subst hsame
      exact wf.eq_of_nameOf_eq ((wf.mem_children parent id).mpr ⟨h, hparent⟩)
        ((wf.mem_children parent other).mpr ⟨hother, hparent'⟩) (List.cons.inj hname).1

/-- A child of a node is reached from it by one more name. -/
theorem path_of_mem_children {id child : Nat} (h : child ∈ (timer.node id).children) :
    timer.path child = timer.path id ++ [timer.nameOf child] :=
  path_of_parent wf ((wf.mem_children id child).mp h).2

/-- What is reached from a node by one more name is the child of that name. -/
theorem mem_children_of_path {id child : Nat} {name : String} (hid : id < timer.nodes.size)
    (hchild : child < timer.nodes.size) (h : timer.path child = timer.path id ++ [name]) :
    child ∈ (timer.node id).children ∧ timer.nameOf child = name := by
  have hne : child ≠ 0 := by
    rintro rfl
    rw [path_zero wf] at h
    exact List.append_ne_nil_of_right_ne_nil _ (List.cons_ne_nil _ _) h.symm
  obtain ⟨parent, hlt, hparent⟩ := wf.exists_parent child hchild hne
  rw [path_of_parent wf hparent] at h
  obtain ⟨hpath, hname⟩ := List.append_inj' h rfl
  -- The parent has the path of the node, so it is the node.
  have hsame := path_injective wf (hlt.trans hchild) hid hpath
  exact ⟨(wf.mem_children id child).mpr ⟨hchild, hsame ▸ hparent⟩, (List.cons.inj hname).1⟩

end

/-! ### Changes of the timer -/

section

variable {timer later : Timer} (wf : timer.WellFormed) (wf' : later.WellFormed)
  (h : timer.Extends later)
include wf wf' h

/-- A timer that grows keeps the ways up. -/
theorem Extends.lineage_eq {id : Nat} (hid : id < timer.nodes.size) :
    later.lineage id = timer.lineage id := by
  refine wf.induction (P := fun id => later.lineage id = timer.lineage id) ?_ ?_ hid
  · rw [lineage_zero wf, lineage_zero wf']
  · intro id parent hid hparent ih
    rw [lineage_of_parent wf hparent,
      lineage_of_parent wf' ((h.parent?_eq id hid).trans hparent), ih]

theorem Extends.path_eq {id : Nat} (hid : id < timer.nodes.size) :
    later.path id = timer.path id := by
  rw [path, path, h.lineage_eq wf wf' hid]
  congr 1
  refine List.map_congr_left fun other hother => h.nameOf_eq other ?_
  exact lt_of_le_of_lt (le_of_mem_lineage wf hid (List.dropLast_subset _ hother)) hid

end

end Profiler.Timer
