import Profiler.Proofs.Timer.Unwinding
import Profiler.Proofs.Totals

/-!
# The four moves of a timer

Everything that a timer does comes down to four moves: a child of the current region is entered, the
current region is left, an addition is made to a child, or the top-level region is brought up to
date. Each move changes the totals and the marks of a single node (`Timer.Touches`), and each is
described here once: `Timer.entered_enter`, `Timer.touches_leave`, `Timer.added_add` and
`Timer.touches_closeOut`.
-/

namespace Profiler.Timer

/-- The later timer has the same nodes and at most `target` besides. Nothing was collected or marked
but in `target`, whose totals have been changed by `f`. -/
structure Touches (timer later : Timer) (target : Nat) (f : Totals → Totals) : Prop where
  wellFormed : later.WellFormed
  toExtends : timer.Extends later
  target_lt : target < later.nodes.size
  lt_or_eq : ∀ id < later.nodes.size, id < timer.nodes.size ∨ id = target
  totals_target : (later.node target).region.totals = f (timer.node target).region.totals
  totals_eq : ∀ id < timer.nodes.size, id ≠ target →
    (later.node id).region.totals = (timer.node id).region.totals
  marks_eq : ∀ id < timer.nodes.size, id ≠ target →
    (later.node id).marks = (timer.node id).marks

namespace Touches

variable {timer later : Timer} {target : Nat} {f : Totals → Totals}
  (h : timer.Touches later target f) {id : Nat} (hne : id ≠ target)
include h hne

theorem node_eq_of_size_le (hid : timer.nodes.size ≤ id) : later.node id = timer.node id := by
  have hlater : later.nodes.size ≤ id := by
    by_contra hlt
    rcases h.lt_or_eq id (not_le.mp hlt) with hlt' | heq
    · exact absurd hid (not_le.mpr hlt')
    · exact hne heq
  rw [node_of_size_le later hlater, node_of_size_le timer hid]

theorem collected_eq : (later.node id).region.totals = (timer.node id).region.totals ∧
    (later.node id).marks = (timer.node id).marks := by
  by_cases hid : id < timer.nodes.size
  · exact ⟨h.totals_eq id hid hne, h.marks_eq id hid hne⟩
  · rw [h.node_eq_of_size_le hne (not_lt.mp hid)]
    exact ⟨rfl, rfl⟩

/-- What is not touched keeps its region. -/
theorem region_eq : (later.node id).region = (timer.node id).region := by
  by_cases hid : id < timer.nodes.size
  · have hname : (later.node id).region.name = (timer.node id).region.name :=
      h.toExtends.nameOf_eq id hid
    -- A region is its totals and its name.
    exact congrArg₂ Totals.region (h.totals_eq id hid hne) hname
  · rw [h.node_eq_of_size_le hne (not_lt.mp hid)]

end Touches

section

variable {timer : Timer}

theorem reading_eq_reading {later : Timer} (h : timer.Extends later) (clock : Clock) :
    later.reading clock = timer.reading clock := by
  rw [reading, reading, h.metrics_eq, h.scope_eq]

/-- A change of a node that keeps its place touches that node only. -/
theorem WellFormed.touches (wf : timer.WellFormed) {id : Nat} (hid : id < timer.nodes.size)
    {f : Node → Node} (keeps : KeepsPlace f)
    (hcursor : (f (timer.node id)).cursor = (timer.node id).cursor) {g : Totals → Totals}
    (htotals : (f (timer.node id)).region.totals = g (timer.node id).region.totals) :
    timer.Touches (timer.modifyNode id f) id g where
  wellFormed := wf.modifyNode id keeps fun h => by rw [hcursor]; exact wf.cursor_lt id h
  toExtends := (timer.sameTree_modifyNode id keeps).toExtends
  target_lt := by rwa [size_modifyNode]
  lt_or_eq other hother := .inl (by rwa [size_modifyNode] at hother)
  totals_target := by rw [node_modifyNode_self timer f hid, htotals]
  totals_eq other _ hne := by rw [node_modifyNode_of_ne timer f hne]
  marks_eq other _ hne := by rw [node_modifyNode_of_ne timer f hne]

theorem WellFormed.touches_openNode (wf : timer.WellFormed) {id : Nat}
    (hid : id < timer.nodes.size) (clock : Clock) :
    timer.Touches (timer.openNode id clock) id (·.countEntry timer.metrics) :=
  wf.touches hid (keepsPlace_opened timer.metrics (timer.reading clock)) rfl
    (Region.totals_countEntry _ _)

theorem WellFormed.touches_closeNode (wf : timer.WellFormed) {id : Nat}
    (hid : id < timer.nodes.size) (clock : Clock) :
    timer.Touches (timer.closeNode id clock) id
      (·.elapse ((timer.node id).marks.tracked timer.metrics) (timer.reading clock)) :=
  wf.touches hid (keepsPlace_closed (timer.reading clock)) rfl (Region.totals_accrue _ _ clock _ _)

theorem Touches.goTo {later : Timer} {target id : Nat} {f : Totals → Totals}
    (h : timer.Touches later target f) (hid : id < later.nodes.size) :
    timer.Touches (later.goTo id) target f where
  wellFormed := h.wellFormed.goTo hid
  toExtends := h.toExtends.trans (later.sameTree_goTo id).toExtends
  target_lt := h.target_lt
  lt_or_eq := h.lt_or_eq
  totals_target := h.totals_target
  totals_eq := h.totals_eq
  marks_eq := h.marks_eq

/-- Locating a child touches nothing but a new child, and then the child can be touched. -/
theorem Located.touches {located later : Timer} {parent child : Nat} {name : String}
    {f : Totals → Totals} (h : timer.Located parent name child located)
    (htouches : located.Touches later child f) : timer.Touches later child f where
  wellFormed := htouches.wellFormed
  toExtends := h.toExtends.trans htouches.toExtends
  target_lt := htouches.target_lt
  lt_or_eq id hid := by
    rcases htouches.lt_or_eq id hid with hlt | heq
    · exact h.lt_or_eq id hlt
    · exact .inr heq
  totals_target := by
    rw [htouches.totals_target]
    by_cases hchild : child < timer.nodes.size
    · rw [h.region_eq child hchild]
    · -- A node that is not there has no totals either.
      rw [h.region_new (not_lt.mp hchild), node_of_size_le timer (not_lt.mp hchild)]
      rfl
  totals_eq id hid hne := by
    rw [htouches.totals_eq id (lt_of_lt_of_le hid h.toExtends.size_le) hne, h.region_eq id hid]
  marks_eq id hid hne := by
    rw [htouches.marks_eq id (lt_of_lt_of_le hid h.toExtends.size_le) hne, h.marks_eq id hid]

/-- The way up from a child that was located. -/
theorem Located.lineage_child {located : Timer} {parent child : Nat} {name : String}
    (wf : timer.WellFormed) (hparent : parent < timer.nodes.size)
    (h : timer.Located parent name child located) :
    located.lineage child = child :: timer.lineage parent := by
  rw [lineage_of_parent h.wellFormed h.parent?_child,
    h.toExtends.lineage_eq wf h.wellFormed hparent]

theorem Located.path_child {located : Timer} {parent child : Nat} {name : String}
    (wf : timer.WellFormed) (hparent : parent < timer.nodes.size)
    (h : timer.Located parent name child located) :
    located.path child = timer.path parent ++ [name] := by
  rw [path_of_parent h.wellFormed h.parent?_child, h.nameOf_child,
    h.toExtends.path_eq wf h.wellFormed hparent]

/-- A child of the current region is not open. -/
theorem Located.not_mem_openPath {located : Timer} {child : Nat} {name : String}
    (wf : timer.WellFormed) (h : timer.Located timer.current name child located) :
    child ∉ timer.openPath := fun hmem =>
  absurd (le_of_mem_lineage wf wf.current_lt hmem)
    (not_le.mpr (h.wellFormed.parent_lt h.parent?_child).1)

end

/-! ### Entering a region -/

/-- What entering a region comes to: the child becomes the innermost open region, has one more
entry, and is marked with the reading. -/
structure Entered (timer : Timer) (name : String) (clock : Clock) (child : Nat) : Prop where
  touches : timer.Touches (timer.enter name clock) child (·.countEntry timer.metrics)
  openPath_eq : (timer.enter name clock).openPath = child :: timer.openPath
  not_mem : child ∉ timer.openPath
  path_eq : (timer.enter name clock).path child = timer.path timer.current ++ [name]
  tracked_eq : ((timer.enter name clock).node child).marks.tracked timer.metrics =
    timer.reading clock

theorem entered_enter {timer : Timer} (wf : timer.WellFormed) (name : String) (clock : Clock) :
    timer.Entered name clock (timer.locateChild timer.current name).1 := by
  have h := located_locateChild wf wf.current_lt name
  set child := (timer.locateChild timer.current name).1
  set located := (timer.locateChild timer.current name).2
  have heq : timer.enter name clock = (located.goTo child).openNode child clock := rfl
  clear_value located child
  have hmetrics : (located.goTo child).metrics = timer.metrics := h.toExtends.metrics_eq
  have hreading : (located.goTo child).reading clock = timer.reading clock :=
    reading_eq_reading h.toExtends clock
  have hopened := (h.wellFormed.goTo h.child_lt).touches_openNode h.child_lt clock
  rw [hmetrics, ← heq] at hopened
  have htouches : located.Touches (timer.enter name clock) child (·.countEntry timer.metrics) :=
    ⟨hopened.wellFormed, (located.sameTree_goTo child).toExtends.trans hopened.toExtends,
      hopened.target_lt, hopened.lt_or_eq, hopened.totals_target, hopened.totals_eq,
      hopened.marks_eq⟩
  have hlineage : (timer.enter name clock).lineage child = located.lineage child :=
    htouches.toExtends.lineage_eq h.wellFormed htouches.wellFormed h.child_lt
  have hcurrent : (timer.enter name clock).current = child := by rw [heq]; rfl
  refine ⟨h.touches htouches, ?_, h.not_mem_openPath wf, ?_, ?_⟩
  · rw [openPath_eq_lineage, hcurrent, hlineage]
    exact h.lineage_child wf wf.current_lt
  · rw [htouches.toExtends.path_eq h.wellFormed htouches.wellFormed h.child_lt,
      h.path_child wf wf.current_lt]
  · rw [heq, openNode, node_modifyNode_self (located.goTo child) _ h.child_lt, hreading]
    exact Marks.tracked_moveTo _ clock _ _

theorem openPath_enter {timer : Timer} (wf : timer.WellFormed) (name : String) (clock : Clock) :
    (timer.enter name clock).openPath = (timer.enter name clock).current :: timer.openPath := by
  have entered := entered_enter wf name clock
  rw [current_eq_of_cons entered.touches.wellFormed entered.openPath_eq]
  exact entered.openPath_eq

theorem nameOf_enter {timer : Timer} (wf : timer.WellFormed) (name : String) (clock : Clock) :
    (timer.enter name clock).nameOf (timer.locateChild timer.current name).1 = name := by
  have h := located_locateChild wf wf.current_lt name
  -- Opening a node does not rename it.
  have same := ((timer.locateChild timer.current name).2.goTo
    (timer.locateChild timer.current name).1).sameTree_openNode
      (timer.locateChild timer.current name).1 clock
  exact (same.nameOf_eq _).trans h.nameOf_child

/-- What has just been entered is the current region, and not the top-level one. -/
theorem currentName_enter {timer : Timer} (wf : timer.WellFormed) (name : String) (clock : Clock) :
    (timer.enter name clock).current ≠ 0 ∧ (timer.enter name clock).currentName = name := by
  have entered := entered_enter wf name clock
  have hcurrent := current_eq_of_cons entered.touches.wellFormed entered.openPath_eq
  refine ⟨fun hzero => entered.not_mem ?_, ?_⟩
  · rw [← hcurrent, hzero]
    exact zero_mem_openPath wf
  · rw [currentName, hcurrent, nameOf_enter wf name clock]

/-! ### Leaving a region -/

theorem touches_leave {timer : Timer} (wf : timer.WellFormed) (clock : Clock)
    (h : timer.current ≠ 0) : timer.Touches (timer.leave clock) timer.current
      (·.elapse ((timer.node timer.current).marks.tracked timer.metrics) (timer.reading clock)) := by
  obtain ⟨parent, hlt, hparent⟩ := wf.exists_parent _ wf.current_lt h
  have htouches := wf.touches_closeNode wf.current_lt clock
  rw [leave_of_parent timer clock hparent]
  apply htouches.goTo
  rw [closeNode, size_modifyNode]
  exact hlt.trans wf.current_lt

/-! ### Adding to a region -/

/-- What an addition comes to: the total of the child grows, and nothing is opened or closed. -/
structure Added (timer : Timer) (name : String) (addition : Addition) (child : Nat) : Prop where
  touches : timer.Touches (timer.add name addition) child (·.add addition)
  openPath_eq : (timer.add name addition).openPath = timer.openPath
  not_mem : child ∉ timer.openPath
  path_eq : (timer.add name addition).path child = timer.path timer.current ++ [name]

theorem added_add {timer : Timer} (wf : timer.WellFormed) (name : String) {addition : Addition}
    (haccepts : timer.metrics.accepts addition = true) :
    timer.Added name addition (timer.locateChild timer.current name).1 := by
  have h := located_locateChild wf wf.current_lt name
  have heq : timer.add name addition = (timer.locateChild timer.current name).2.modifyNode
      (timer.locateChild timer.current name).1
      fun node => { node with region := node.region.add addition } := by
    rw [add, if_pos haccepts]
  set child := (timer.locateChild timer.current name).1
  set located := (timer.locateChild timer.current name).2
  have htouches : located.Touches (timer.add name addition) child (·.add addition) := by
    rw [heq]
    exact h.wellFormed.touches h.child_lt (keepsPlace_add addition) rfl
      (Region.totals_add _ addition)
  have hcurrent : (timer.add name addition).current = timer.current := by
    rw [heq, current_modifyNode, h.current_eq]
  refine ⟨h.touches htouches, ?_, h.not_mem_openPath wf, ?_⟩
  · exact (h.toExtends.trans htouches.toExtends).openPath_eq wf htouches.wellFormed hcurrent
  · rw [htouches.toExtends.path_eq h.wellFormed htouches.wellFormed h.child_lt,
      h.path_child wf wf.current_lt]

theorem add_of_not_accepts (timer : Timer) (name : String) {addition : Addition}
    (h : ¬ timer.metrics.accepts addition = true) : timer.add name addition = timer := by
  rw [add, if_neg h]

/-! ### Bringing the top-level region up to date -/

theorem touches_closeOut {timer : Timer} (wf : timer.WellFormed) (clock : Clock) :
    timer.Touches (timer.closeOut clock) 0
      (·.elapse ((timer.node 0).marks.tracked timer.metrics) (timer.reading clock)) :=
  wf.touches_closeNode wf.size_pos clock

theorem openPath_closeOut {timer : Timer} (wf : timer.WellFormed) (clock : Clock) :
    (timer.closeOut clock).openPath = timer.openPath :=
  have h := touches_closeOut wf clock
  h.toExtends.openPath_eq wf h.wellFormed rfl

theorem tracked_closeOut {timer : Timer} (wf : timer.WellFormed) (clock : Clock) :
    ((timer.closeOut clock).node 0).marks.tracked timer.metrics = timer.reading clock := by
  rw [closeOut, closeNode, node_modifyNode_self timer _ wf.size_pos]
  exact Marks.tracked_moveTo _ clock _ _

/-! ### A change is two moves -/

/-- Moving about first makes no difference to where a child is found or created. -/
theorem locateChild_goTo (timer : Timer) (id parent : Nat) (name : String) :
    (timer.goTo id).locateChild parent name =
      ((timer.locateChild parent name).1, (timer.locateChild parent name).2.goTo id) := by
  have hnames : (timer.goTo id).childNames parent = timer.childNames parent := rfl
  unfold locateChild
  rw [hnames, node_goTo]
  cases Place.locate (timer.childNames parent) (timer.node parent).cursor name <;> rfl

theorem goTo_goTo (timer : Timer) (id other : Nat) :
    (timer.goTo id).goTo other = timer.goTo other := rfl

/-- **A change is an exit and an entry** at the same reading. -/
theorem tryChange_of_parent (timer : Timer) (name : String) (clock : Clock) {parent : Nat}
    (h : (timer.node timer.current).parent? = some parent) :
    timer.tryChange name clock = ⟨.ok (), [], (timer.leave clock).enter name clock⟩ := by
  rw [tryChange, h, leave_of_parent timer clock h, enter, current_goTo, locateChild_goTo]
  dsimp only
  rw [goTo_goTo]

theorem tryChange_of_top {timer : Timer} (wf : timer.WellFormed) (name : String) (clock : Clock)
    (h : timer.current = 0) :
    timer.tryChange name clock = ⟨.error (.atTopLevel timer.currentName), [], timer⟩ := by
  have hnone : (timer.node timer.current).parent? = none := by rw [h]; exact wf.top_parent
  rw [tryChange, hnone]

end Profiler.Timer
