import Profiler.Proofs.Gauges
import Profiler.Proofs.Timer.Orders
import Profiler.Proofs.Timer.Preorder

/-!
# Bringing a timer up to date early

A report brings the top-level region up to date and leaves everything else alone. This can be done
early without a trace: doing it twice is doing it the second time only, as long as what is read does
not fall (`Timer.closeOut_closeOut`), and every other order has the same answer before and after it,
and the same effect (`Timer.follow_closeOut`). `Timer.Ahead` is what remains of reports that were
taken early: one timer is the other one, brought up to date at some earlier time.
-/

namespace Profiler

/-! ### Closing twice -/

/-- No gauge that is tracked reads less at the later of two clocks. -/
def Clock.Precedes (metrics : Metrics) (scope : Scope) (earlier later : Clock) : Prop :=
  ∀ gauge : Gauge, gauge.tracked metrics = true →
    gauge.read scope earlier ≤ gauge.read scope later

instance (metrics : Metrics) (scope : Scope) (earlier later : Clock) :
    Decidable (earlier.Precedes metrics scope later) :=
  decidable_of_iff (∀ gauge ∈ [Gauge.wall, .cpu, .reads, .writes],
      gauge.tracked metrics = true → gauge.read scope earlier ≤ gauge.read scope later)
    ⟨fun h gauge => h gauge (by cases gauge <;> simp), fun h gauge _ => h gauge⟩

/-- No gauge that is tracked reads less than its mark. -/
def Marks.Precede (marks : Marks) (metrics : Metrics) (scope : Scope) (clock : Clock) : Prop :=
  ∀ gauge : Gauge, gauge.tracked metrics = true → gauge.mark marks ≤ gauge.read scope clock

theorem Marks.Precede.trans {marks : Marks} {metrics : Metrics} {scope : Scope}
    {earlier later : Clock} (hmarks : marks.Precede metrics scope earlier)
    (hclocks : earlier.Precedes metrics scope later) : marks.Precede metrics scope later :=
  fun gauge htracked => (hmarks gauge htracked).trans (hclocks gauge htracked)

namespace Node

/-- What goes by in two parts adds up to the whole, even where a total reaches its limit. -/
theorem closed_closed (node : Node) {metrics : Metrics} {scope : Scope} {first second : Clock}
    (hmarks : node.marks.Precede metrics scope first)
    (hclocks : first.Precedes metrics scope second) :
    (node.closed (first.reading metrics scope)).closed (second.reading metrics scope) =
      node.closed (second.reading metrics scope) := by
  have hsum := fun gauge htracked => And.intro (hmarks gauge htracked) (hclocks gauge htracked)
  have hwall := fun h => Capped.add_sub_add_sub node.region.wall (hsum .wall h).1 (hsum .wall h).2
  have hcpu := fun h => Capped.add_sub_add_sub node.region.cpu (hsum .cpu h).1 (hsum .cpu h).2
  have hreads := fun h =>
    Capped.add_sub_add_sub node.region.reads (hsum .reads h).1 (hsum .reads h).2
  have hwrites := fun h =>
    Capped.add_sub_add_sub node.region.writes (hsum .writes h).1 (hsum .writes h).2
  simp only [Gauge.tracked] at hwall hcpu hreads hwrites
  cases hmwall : metrics.wall <;> cases hmcpu : metrics.cpu <;>
    simp_all [closed, Clock.reading, Region.accrue, Region.accrueWall, Region.accrueUsage,
      Region.add, Marks.moveTo]

/-- Closing again at the same reading adds nothing. -/
theorem closed_closed_self (node : Node) (reading : Reading) :
    (node.closed reading).closed reading = node.closed reading := by
  obtain ⟨wall, usage⟩ := reading
  cases wall <;> cases usage <;>
    simp [closed, Region.accrue, Region.accrueWall, Region.accrueUsage, Region.add, Marks.moveTo]

end Node

namespace Timer

/-- A change of a node matters only for the node as it is. -/
theorem modifyNode_congr (timer : Timer) (id : Nat) {f g : Node → Node}
    (h : f (timer.node id) = g (timer.node id)) : timer.modifyNode id f = timer.modifyNode id g := by
  have hnodes : timer.nodes.modify id f = timer.nodes.modify id g := by
    refine Array.ext (by simp) fun other hother _ => ?_
    rw [Array.size_modify] at hother
    rw [Array.getElem_modify, Array.getElem_modify]
    split_ifs with hid
    · subst hid
      simpa [node, Array.getD_eq_getD_getElem?, hother] using h
    · rfl
  rw [modifyNode, hnodes]
  rfl

section

variable {timer : Timer} {clock later : Clock}

/-- **Bringing a timer up to date early makes no difference later.** -/
theorem closeOut_closeOut (hmarks : (timer.node 0).marks.Precede timer.metrics timer.scope clock)
    (hclocks : clock.Precedes timer.metrics timer.scope later) :
    (timer.closeOut clock).closeOut later = timer.closeOut later := by
  have hreading : (timer.closeOut clock).reading later = timer.reading later := rfl
  rw [closeOut, closeNode, hreading, closeOut, closeNode, modifyNode_modifyNode]
  exact modifyNode_congr timer 0 (Node.closed_closed _ hmarks hclocks)

theorem closeOut_closeOut_self (h : timer.reading later = timer.reading clock) :
    (timer.closeOut clock).closeOut later = timer.closeOut clock := by
  have hreading : (timer.closeOut clock).reading later = timer.reading clock := h
  rw [closeOut, closeNode, hreading, closeOut, closeNode, modifyNode_modifyNode]
  simp only [Node.closed_closed_self]

/-- A second report at the same reading is the first one again. -/
theorem report_report (h : timer.reading later = timer.reading clock) :
    (timer.report clock).2.report later = timer.report clock := by
  show (timer.closeOut clock).report later = _
  rw [report, closeOut_closeOut_self h]
  rfl

/-! ### What a report changes -/

variable (timer clock)

theorem node_closeOut_of_ne {id : Nat} (h : id ≠ 0) :
    (timer.closeOut clock).node id = timer.node id :=
  node_modifyNode_of_ne timer _ h

theorem sameTree_closeOut : timer.SameTree (timer.closeOut clock) := timer.sameTree_closeNode 0 clock

theorem cursor_closeOut (id : Nat) :
    ((timer.closeOut clock).node id).cursor = (timer.node id).cursor := by
  rw [closeOut, closeNode, node_modifyNode]
  split_ifs with h
  · rw [h.1]
    rfl
  · rfl

theorem nameOf_closeOut (id : Nat) : (timer.closeOut clock).nameOf id = timer.nameOf id :=
  (timer.sameTree_closeOut clock).nameOf_eq id

theorem currentName_closeOut : (timer.closeOut clock).currentName = timer.currentName :=
  timer.nameOf_closeOut clock timer.current

/-! ### Moves before and after it -/

theorem modifyNode_closeOut_of_ne {id : Nat} (f : Node → Node) (h : id ≠ 0) :
    (timer.closeOut clock).modifyNode id f = (timer.modifyNode id f).closeOut clock :=
  timer.modifyNode_comm _ f h.symm

/-- A change that has nothing to do with totals and marks can be made to any node. -/
theorem modifyNode_closeOut (id : Nat) {f : Node → Node}
    (h : ∀ node reading, f (node.closed reading) = (f node).closed reading) :
    (timer.closeOut clock).modifyNode id f = (timer.modifyNode id f).closeOut clock := by
  by_cases hid : id = 0
  · have hreading : (timer.modifyNode id f).reading clock = timer.reading clock := rfl
    rw [closeOut, closeNode, closeOut, closeNode, hreading, hid, modifyNode_modifyNode,
      modifyNode_modifyNode]
    simp only [h]
  · exact timer.modifyNode_closeOut_of_ne clock f hid

theorem grow_closeOut (name : String) (parent : Nat) (hsize : 0 < timer.nodes.size) :
    (timer.closeOut clock).grow name parent = (timer.grow name parent).closeOut clock := by
  have hnodes : ∀ f : Node → Node, (timer.nodes.modify 0 f).push (.fresh name (some parent)) =
      (timer.nodes.push (.fresh name (some parent))).modify 0 f := by
    intro f
    refine Array.ext (by simp) fun id _ _ => ?_
    simp only [Array.getElem_modify, Array.getElem_push, Array.size_modify]
    split_ifs with hid hzero <;> first | rfl | omega
  rw [closeOut, closeNode, grow, modifyNode, closeOut, closeNode, grow, modifyNode]
  exact congrArg (Timer.mk timer.metrics timer.scope · timer.current) (hnodes _)

theorem locateChild_closeOut (parent : Nat) (name : String) (hsize : 0 < timer.nodes.size) :
    (timer.closeOut clock).locateChild parent name =
      ((timer.locateChild parent name).1, (timer.locateChild parent name).2.closeOut clock) := by
  have same := timer.sameTree_closeOut clock
  unfold locateChild
  rw [same.childNames_eq, timer.cursor_closeOut, same.children_eq, same.size_eq]
  cases Place.locate (timer.childNames parent) (timer.node parent).cursor name with
  | found position =>
    exact Prod.ext rfl (timer.modifyNode_closeOut clock parent fun _ _ => rfl)
  | vacant position =>
    refine Prod.ext rfl ?_
    show ((timer.closeOut clock).grow name parent).modifyNode parent _ = _
    rw [timer.grow_closeOut clock name parent hsize, modifyNode_closeOut _ _ _ fun _ _ => rfl]
    rfl

theorem openNode_closeOut (later : Clock) {id : Nat} (h : id ≠ 0) :
    ((timer.closeOut clock).goTo id).openNode id later =
      ((timer.goTo id).openNode id later).closeOut clock :=
  (timer.goTo id).modifyNode_closeOut_of_ne clock _ h

end

section

variable {timer : Timer} (wf : timer.WellFormed) (clock later : Clock) (name : String)
include wf

theorem enter_closeOut : (timer.closeOut clock).enter name later =
    (timer.enter name later).closeOut clock := by
  have h := located_locateChild wf wf.current_lt name
  have hchild := Nat.ne_zero_of_lt (h.wellFormed.parent_lt h.parent?_child).1
  have hcurrent : (timer.closeOut clock).current = timer.current := rfl
  rw [enter, hcurrent, timer.locateChild_closeOut clock _ name wf.size_pos, enter]
  exact openNode_closeOut _ clock later hchild

theorem leave_closeOut : (timer.closeOut clock).leave later = (timer.leave later).closeOut clock := by
  have hparent? := (timer.sameTree_closeOut clock).parent?_eq timer.current
  cases hparent : (timer.node timer.current).parent? with
  | none =>
    have hparent' : ((timer.closeOut clock).node (timer.closeOut clock).current).parent? = none :=
      hparent?.trans hparent
    rw [leave, hparent', leave, hparent]
  | some parent =>
    have hcurrent := Nat.ne_zero_of_lt (wf.parent_lt hparent).1
    rw [leave_of_parent timer later hparent, leave_of_parent _ later (hparent?.trans hparent)]
    exact congrArg (Timer.goTo · parent) (timer.modifyNode_closeOut_of_ne clock _ hcurrent)

theorem unwind_closeOut (count : Nat) :
    (timer.closeOut clock).unwind later count = (timer.unwind later count).closeOut clock := by
  induction count generalizing timer with
  | zero => rfl
  | succ count ih =>
    rw [unwind, leave_closeOut wf]
    exact ih (wf.leave later)

theorem tryExit_closeOut : (timer.closeOut clock).tryExit name later =
    { timer.tryExit name later with timer := (timer.tryExit name later).timer.closeOut clock } := by
  have hname : (timer.closeOut clock).nameOf = timer.nameOf := funext (timer.nameOf_closeOut clock)
  unfold tryExit nestedIn
  rw [openPath_closeOut wf, hname, currentName_closeOut]
  split
  · dsimp only
    rw [foldl_leave, foldl_leave, unwind_closeOut wf]
    set count := (timer.openPath.takeWhile fun id => timer.nameOf id ≠ name).length
    have wf' : (timer.unwind later count).WellFormed := wf.unwind later count
    set unwound := timer.unwind later count
    have htop : (unwound.closeOut clock).isAtTop = unwound.isAtTop :=
      congrArg Option.isNone ((unwound.sameTree_closeOut clock).parent?_eq unwound.current)
    rw [htop, currentName_closeOut, leave_closeOut wf']
    split <;> rfl
  · rfl

theorem tryChange_closeOut : (timer.closeOut clock).tryChange name later =
    { timer.tryChange name later with
      timer := (timer.tryChange name later).timer.closeOut clock } := by
  have hparent? := (timer.sameTree_closeOut clock).parent?_eq timer.current
  by_cases hzero : timer.current = 0
  · have wf' := (touches_closeOut wf clock).wellFormed
    rw [tryChange_of_top wf name later hzero, tryChange_of_top wf' name later hzero,
      currentName_closeOut]
  · obtain ⟨parent, -, hparent⟩ := wf.exists_parent _ wf.current_lt hzero
    rw [hparent] at hparent?
    rw [tryChange_of_parent timer name later hparent, tryChange_of_parent _ name later hparent?,
      leave_closeOut wf, enter_closeOut (wf.leave later)]

theorem add_closeOut (addition : Addition) :
    (timer.closeOut clock).add name addition = (timer.add name addition).closeOut clock := by
  have h := located_locateChild wf wf.current_lt name
  have hchild := (h.wellFormed.parent_lt h.parent?_child).1
  have hmetrics : (timer.closeOut clock).metrics = timer.metrics := rfl
  have hcurrent : (timer.closeOut clock).current = timer.current := rfl
  unfold add
  rw [hmetrics, hcurrent]
  split
  · rw [timer.locateChild_closeOut clock _ name wf.size_pos]
    exact modifyNode_closeOut_of_ne _ clock _ (Nat.ne_zero_of_lt hchild)
  · rfl

/-- **Every order but a report has the same answer before and after**, and the same effect. -/
theorem follow_closeOut {order : Order} (h : order ≠ .report) :
    (timer.closeOut clock).follow later order =
      ((timer.follow later order).1, (timer.follow later order).2.closeOut clock) := by
  cases order with
  | enter name => exact Prod.ext rfl (enter_closeOut wf clock later name)
  | exit name =>
    simp only [follow, exit, tryExit_closeOut wf]
    cases (timer.tryExit name later).result <;> rfl
  | tryExit name => simp only [follow, tryExit_closeOut wf]
  | change name =>
    simp only [follow, change, tryChange_closeOut wf]
    cases (timer.tryChange name later).result <;> rfl
  | tryChange name => simp only [follow, tryChange_closeOut wf]
  | add name addition => exact Prod.ext rfl (add_closeOut wf clock name addition)
  | report => exact absurd rfl h

/-! ### What lookups find -/

theorem forest_closeOut (fuel : Nat) {ids : List Nat} (h : ∀ id ∈ ids, id ≠ 0) :
    (timer.closeOut clock).forest fuel ids = timer.forest fuel ids := by
  induction fuel generalizing ids with
  | zero => rfl
  | succ fuel ih =>
    rw [forest, forest]
    refine List.foldr_ext _ _ _ fun id hid rest => ?_
    rw [timer.node_closeOut_of_ne clock (h id hid),
      ih fun child hchild => Nat.ne_zero_of_lt (wf.lt_of_mem_children hchild).1]

theorem copy_closeOut : (timer.closeOut clock).copy =
    { timer.copy with top := ((timer.closeOut clock).node 0).region } := by
  have same := timer.sameTree_closeOut clock
  have hne : ∀ child ∈ (timer.node 0).children, child ≠ 0 := fun child hchild =>
    Nat.ne_zero_of_lt (wf.lt_of_mem_children hchild).1
  rw [copy, same.children_eq, same.size_eq, forest_closeOut wf clock _ hne]
  rfl

/-- **A lookup finds the same as before**, unless it is for the top-level region. -/
theorem region?_closeOut : (timer.closeOut clock).region? name =
    if timer.topName = name then some ((timer.closeOut clock).node 0).region
    else timer.region? name := by
  have wf' := (touches_closeOut wf clock).wellFormed
  have htop : ((timer.closeOut clock).node 0).region.name = timer.topName :=
    timer.nameOf_closeOut clock 0
  have htop' : timer.copy.top.name = timer.topName := rfl
  rw [region?_eq_find?_rows wf', region?_eq_find?_rows wf, copy_closeOut wf, Report.rows,
    Report.rows, List.find?_cons, List.find?_cons]
  dsimp only
  rw [htop, htop']
  split_ifs with hname
  · rw [decide_eq_true hname]
    rfl
  · rw [decide_eq_false hname]

omit wf in
theorem topName_follow (wf : timer.WellFormed) (order : Order) :
    (timer.follow clock order).2.topName = timer.topName :=
  (follow_keeps wf clock order).2.nameOf_eq 0 wf.size_pos

theorem region?_topName : timer.region? timer.topName = some (timer.node 0).region := by
  obtain ⟨fuel, hfuel⟩ := Nat.exists_eq_succ_of_ne_zero wf.size_pos.ne'
  rw [region?, hfuel, search]
  exact if_pos rfl

/-- Orders other than reports leave the marks of the top-level region alone. -/
theorem marks_follow {order : Order} (h : order ≠ .report) :
    ((timer.follow clock order).2.node 0).marks = (timer.node 0).marks := by
  refine follow_induction wf clock order
    (P := fun later => (later.node 0).marks = (timer.node 0).marks) rfl ?_ ?_ ?_ ?_
  · intro later name wf' heq
    have entered := entered_enter wf' name clock
    have hne : 0 ≠ (later.locateChild later.current name).1 := fun hzero =>
      entered.not_mem (hzero ▸ zero_mem_openPath wf')
    exact (entered.touches.marks_eq 0 wf'.size_pos hne).trans heq
  · intro later wf' hcurrent heq
    exact ((touches_leave wf' clock hcurrent).marks_eq 0 wf'.size_pos hcurrent.symm).trans heq
  · intro name addition _ haccepts
    have added := added_add wf name haccepts
    have hne : 0 ≠ (timer.locateChild timer.current name).1 := fun hzero =>
      added.not_mem (hzero ▸ zero_mem_openPath wf)
    exact added.touches.marks_eq 0 wf.size_pos hne
  · exact fun hreport => absurd hreport h

end

/-! ### Reports that were taken early -/

/-- The early timer is the other one, or what that one is when it is brought up to date at some time
between the marks of its top-level region and now. -/
structure Ahead (timer early : Timer) (now : Clock) : Prop where
  wellFormed : timer.WellFormed
  marks : (timer.node 0).marks.Precede timer.metrics timer.scope now
  early_eq : early = timer ∨ ∃ clock,
    (timer.node 0).marks.Precede timer.metrics timer.scope clock ∧
      clock.Precedes timer.metrics timer.scope now ∧ early = timer.closeOut clock

/-- A timer that has just been brought up to date. -/
theorem ahead_of_tracked {timer : Timer} (wf : timer.WellFormed) {clock : Clock}
    (h : (timer.node 0).marks.tracked timer.metrics = timer.reading clock) :
    timer.Ahead timer clock :=
  ⟨wf, fun gauge htracked => (gauge.mark_of_tracked htracked h).le, .inl rfl⟩

theorem ahead_closeOut {timer : Timer} (wf : timer.WellFormed) (clock : Clock) :
    (timer.closeOut clock).Ahead (timer.closeOut clock) clock :=
  ahead_of_tracked (touches_closeOut wf clock).wellFormed (tracked_closeOut wf clock)

theorem ahead_ofConfig (config : Config) (clock : Clock) :
    (ofConfig config clock).Ahead (ofConfig config clock) clock := by
  refine ahead_of_tracked (wellFormed_ofConfig config clock) ?_
  rw [node_ofConfig]
  exact Marks.tracked_moveTo _ clock _ _

namespace Ahead

variable {timer early : Timer} {now later : Clock} (h : timer.Ahead early now)
include h

/-- Brought up to date, the two are the same. -/
theorem closeOut_eq (hnow : now.Precedes timer.metrics timer.scope later) :
    early.closeOut later = timer.closeOut later := by
  rcases h.early_eq with rfl | ⟨clock, hmarks, hclock, rfl⟩
  · rfl
  · exact closeOut_closeOut hmarks fun gauge htracked =>
      (hclock gauge htracked).trans (hnow gauge htracked)

/-- One more report that is taken early. -/
theorem closeOut (hnow : now.Precedes timer.metrics timer.scope later) :
    timer.Ahead (early.closeOut later) later :=
  ⟨h.wellFormed, h.marks.trans hnow,
    .inr ⟨later, h.marks.trans hnow, fun _ _ => le_rfl, h.closeOut_eq hnow⟩⟩

/-- **The two answer every order alike and stay together.** -/
theorem follow {order : Order} (horder : order ≠ .report) (clock : Clock) :
    (early.follow clock order).1 = (timer.follow clock order).1 ∧
      (timer.follow clock order).2.Ahead (early.follow clock order).2 now := by
  have hkeeps := follow_keeps h.wellFormed clock order
  have hmarks := marks_follow h.wellFormed clock horder
  have hsplit : (timer.follow clock order).2.Ahead (timer.follow clock order).2 now := by
    refine ⟨hkeeps.1, ?_, .inl rfl⟩
    rw [hmarks, hkeeps.2.metrics_eq, hkeeps.2.scope_eq]
    exact h.marks
  rcases h.early_eq with rfl | ⟨first, hfirst, hclock, rfl⟩
  · exact ⟨rfl, hsplit⟩
  · rw [follow_closeOut h.wellFormed first clock horder]
    refine ⟨rfl, hsplit.wellFormed, hsplit.marks, .inr ⟨first, ?_, ?_, rfl⟩⟩
    · rw [hmarks, hkeeps.2.metrics_eq, hkeeps.2.scope_eq]
      exact hfirst
    · rw [hkeeps.2.metrics_eq, hkeeps.2.scope_eq]
      exact hclock

theorem currentName_eq : early.currentName = timer.currentName := by
  rcases h.early_eq with rfl | ⟨clock, -, -, rfl⟩
  · rfl
  · exact timer.currentName_closeOut clock

end Ahead

end Timer

end Profiler
