import Mathlib.Data.List.Sort
import Profiler.Proofs.Report.Embedding
import Profiler.Proofs.Timer.Orders
import Profiler.Proofs.Timer.Preorder

/-!
# Timers only grow

No order takes a region away, moves it or lowers one of its totals, whatever the clock does: marks
that lie in the future are a difference of zero, and sums stay at their limits. `Timer.GrowsTo` says
so of two states of a timer, and `Timer.growsTo_follow` proves it of every order. Siblings stay in
the order of their names when others come between them (`Timer.GrowsTo.children_sublist`), so each
report embeds in all later ones (`Timer.reports_embed`).
-/

namespace Profiler.Timer

/-- The later timer has all nodes of the earlier one in their places, and no total of theirs is
smaller. -/
structure GrowsTo (timer later : Timer) : Prop where
  toExtends : timer.Extends later
  field_le : ∀ id < timer.nodes.size, ∀ field : Field,
    field.of (timer.node id).region.totals ≤ field.of (later.node id).region.totals

/-- The reports that a run asks for, in their order. -/
def reports (timer : Timer) (orders : List (Clock × Order)) : List Report :=
  (timer.replies orders).filterMap fun reply => reply.1.report?

section

variable {timer later last : Timer}

theorem GrowsTo.refl (timer : Timer) : timer.GrowsTo timer :=
  ⟨Extends.refl timer, fun _ _ _ => le_rfl⟩

theorem GrowsTo.trans (h : timer.GrowsTo later) (h' : later.GrowsTo last) :
    timer.GrowsTo last where
  toExtends := h.toExtends.trans h'.toExtends
  field_le id hid field := (h.field_le id hid field).trans
    (h'.field_le id (lt_of_lt_of_le hid h.toExtends.size_le) field)

/-- A timer has grown if the totals of the one node that was touched have. -/
theorem Touches.growsTo {target : Nat} {f : Totals → Totals} (h : timer.Touches later target f)
    (hf : ∀ (field : Field) (totals : Totals), field.of totals ≤ field.of (f totals)) :
    timer.GrowsTo later where
  toExtends := h.toExtends
  field_le id hid field := by
    by_cases htarget : id = target
    · rw [htarget, h.totals_target]
      exact hf field _
    · rw [h.totals_eq id hid htarget]

/-- An amount that is added up to a limit never lowers what is within the limit. -/
theorem le_min_add {field : Field} {totals : Totals} {amount total : Nat}
    (h : total = min (field.of totals + amount) field.limit) : field.of totals ≤ total := by
  have hle := field.of_le_limit totals
  omega

/-! ### Orders -/

/-- **Every order lets the timer grow**, at any clock. -/
theorem growsTo_follow (wf : timer.WellFormed) (clock : Clock) (order : Order) :
    timer.GrowsTo (timer.follow clock order).2 := by
  refine follow_induction wf clock order (P := fun later => timer.GrowsTo later)
    (GrowsTo.refl timer) ?_ ?_ ?_ ?_
  · intro later name hwf h
    refine h.trans ((entered_enter hwf name clock).touches.growsTo fun field totals => ?_)
    exact le_min_add (field.of_countEntry totals later.metrics)
  · intro later hwf hcurrent h
    refine h.trans ((touches_leave hwf clock hcurrent).growsTo fun field totals => ?_)
    exact le_min_add (field.of_elapse totals _ _)
  · intro name addition _ haccepts
    refine (added_add wf name haccepts).touches.growsTo fun field totals => ?_
    exact le_min_add (field.of_add totals addition)
  · intro _
    refine (touches_closeOut wf clock).growsTo fun field totals => ?_
    exact le_min_add (field.of_elapse totals _ _)

/-- An order that asks for a report gets a copy of the timer as it is then. -/
theorem report?_follow {clock : Clock} {order : Order} {report : Report}
    (h : (timer.follow clock order).1.report? = some report) :
    report = (timer.follow clock order).2.copy := by
  cases order with
  | report => exact (Option.some.inj h).symm
  | _ => cases h

/-- The reports of a run are copies of timers that grow from one to the next. -/
theorem exists_of_mem_reports (wf : timer.WellFormed) {orders : List (Clock × Order)}
    {report : Report} (h : report ∈ timer.reports orders) :
    ∃ later : Timer, later.WellFormed ∧ timer.GrowsTo later ∧ report = later.copy := by
  induction orders generalizing timer with
  | nil => cases h
  | cons step orders ih =>
    obtain ⟨clock, order⟩ := step
    have hwf := (follow_keeps wf clock order).1
    have hgrows := growsTo_follow wf clock order
    rw [reports, replies, List.filterMap_cons] at h
    split at h
    · obtain ⟨last, hlast, hgrows', heq⟩ := ih hwf h
      exact ⟨last, hlast, hgrows.trans hgrows', heq⟩
    · next report' hreport =>
      rcases List.mem_cons.mp h with rfl | hmem
      · exact ⟨_, hwf, hgrows, report?_follow hreport⟩
      · obtain ⟨last, hlast, hgrows', heq⟩ := ih hwf hmem
        exact ⟨last, hlast, hgrows.trans hgrows', heq⟩

/-! ### Copies -/

section

variable (wf : timer.WellFormed) (wf' : later.WellFormed)
include wf wf'

/-- **Siblings keep their order** when new ones come between them. -/
theorem Extends.children_sublist (h : timer.Extends later) (id : Nat) :
    (timer.node id).children.Sublist (later.node id).children := by
  have hsubset : (timer.node id).children ⊆ (later.node id).children := by
    intro child hchild
    obtain ⟨hlt, hparent⟩ := (wf.mem_children id child).mp hchild
    exact (wf'.mem_children id child).mpr
      ⟨lt_of_lt_of_le hlt h.size_le, (h.parent?_eq child hlt).trans hparent⟩
  -- Both lists are sorted by the names that the nodes have in the later timer.
  have hsorted : (timer.node id).children.Pairwise
      fun a b => later.nameOf a < later.nameOf b := by
    refine List.Pairwise.imp_of_mem ?_ (List.pairwise_map.mp (wf.sorted id))
    intro a b ha hb hlt
    rwa [h.nameOf_eq a (wf.lt_of_mem_children ha).2, h.nameOf_eq b (wf.lt_of_mem_children hb).2]
  have hsorted' := List.pairwise_map.mp (wf'.sorted id)
  have : Std.Antisymm fun a b => later.nameOf a < later.nameOf b :=
    ⟨fun a b hab hba => absurd hab (lt_asymm hba)⟩
  exact List.sublist_of_subperm_of_pairwise
    (List.subperm_of_subset (wf.nodup_children id) hsubset) hsorted hsorted'

omit wf wf' in
theorem GrowsTo.region (h : timer.GrowsTo later) {id : Nat} (hid : id < timer.nodes.size) :
    (timer.node id).region.GrowsTo (later.node id).region :=
  Region.growsTo_of_fields (h.toExtends.nameOf_eq id hid) (h.field_le id hid)

/-- The trees below some nodes embed in those below more nodes of a timer that has grown. -/
theorem GrowsTo.embeds_forest (h : timer.GrowsTo later) {fuel fuel' : Nat} {ids ids' : List Nat}
    (hfuel : fuel ≤ fuel') (hids : ∀ id ∈ ids, id < timer.nodes.size) (hsub : ids.Sublist ids') :
    (timer.forest fuel ids).Embeds (later.forest fuel' ids') := by
  induction fuel generalizing fuel' ids ids' with
  | zero => exact .nil _
  | succ fuel ih =>
    obtain ⟨fuel', rfl⟩ := Nat.exists_eq_add_of_lt (Nat.lt_of_succ_le hfuel)
    induction hsub with
    | slnil => exact .nil _
    | cons id _ ihsub => exact .new _ _ (ihsub hids)
    | cons_cons id _ ihsub =>
      obtain ⟨hid, hrest⟩ := List.forall_mem_cons.mp hids
      refine .kept (h.region hid) (ih (Nat.le_add_right _ _) ?_ ?_) (ihsub hrest)
      · intro child hchild
        exact (wf.lt_of_mem_children hchild).2
      · exact h.toExtends.children_sublist wf wf' id

/-- **A copy of a timer embeds in every copy of what it grows to.** -/
theorem GrowsTo.embeds_copy (h : timer.GrowsTo later) : timer.copy.Embeds later.copy where
  top := h.region wf.size_pos
  children := h.embeds_forest wf wf' h.toExtends.size_le
    (fun _ hchild => (wf.lt_of_mem_children hchild).2)
    (h.toExtends.children_sublist wf wf' 0)

end

/-- The regions of the trees that are copied are the nodes below, each with its path. -/
theorem byPath_forest (wf : timer.WellFormed) (fuel : Nat) (path : List String) (ids : List Nat)
    (h : ∀ id ∈ ids, timer.path id = path ++ [timer.nameOf id]) :
    (timer.forest fuel ids).byPath path =
      (timer.below fuel ids).map fun id => (timer.path id, (timer.node id).region) := by
  induction fuel generalizing path ids with
  | zero => rfl
  | succ fuel ih =>
    induction ids with
    | nil => rfl
    | cons id ids ihids =>
      obtain ⟨hid, hrest⟩ := List.forall_mem_cons.mp h
      have hids := ihids hrest
      have hchildren := ih (timer.path id) (timer.node id).children fun child hchild =>
        path_of_mem_children wf hchild
      have hpath : path ++ [(timer.node id).region.name] = timer.path id := hid.symm
      rw [forest] at hids ⊢
      rw [below] at hids ⊢
      rw [List.foldr_cons, Forest.byPath, hpath, hchildren, hids, List.flatMap_cons,
        List.map_append, List.map_cons, List.cons_append]

theorem byPath_copy (wf : timer.WellFormed) : timer.copy.byPath =
    timer.preorder.map fun id => (timer.path id, (timer.node id).region) := by
  have hchildren := byPath_forest wf timer.nodes.size [] (timer.node 0).children
    fun child hchild => by rw [path_of_mem_children wf hchild, path_zero wf]
  rw [preorder, below_cons wf wf.size_pos, List.append_nil, List.map_cons, path_zero wf,
    ← hchildren]
  rfl

/-- No path is listed twice. -/
theorem nodup_byPath_copy (wf : timer.WellFormed) : (timer.copy.byPath.map Prod.fst).Nodup := by
  have hperm := preorder_perm wf
  rw [byPath_copy wf, List.map_map]
  refine List.Nodup.map_on ?_ (hperm.nodup_iff.mpr List.nodup_range)
  intro id hid other hother heq
  exact path_injective wf (List.mem_range.mp (hperm.mem_iff.mp hid))
    (List.mem_range.mp (hperm.mem_iff.mp hother)) heq

/-- Each report of a run embeds in all later ones. -/
theorem pairwise_reports (wf : timer.WellFormed) (orders : List (Clock × Order)) :
    (timer.reports orders).Pairwise Report.Embeds := by
  induction orders generalizing timer with
  | nil => exact List.Pairwise.nil
  | cons step orders ih =>
    obtain ⟨clock, order⟩ := step
    have hwf := (follow_keeps wf clock order).1
    rw [reports, replies, List.filterMap_cons]
    split
    · exact ih hwf
    · next report hreport =>
      refine List.pairwise_cons.mpr ⟨fun later hlater => ?_, ih hwf⟩
      obtain ⟨last, hlast, hgrows, rfl⟩ := exists_of_mem_reports hwf hlater
      rw [report?_follow hreport]
      exact hgrows.embeds_copy hwf hlast

end

/-- **Reports only grow.** Of any two reports that a timer gives in a run, whatever the orders and
the clocks, the earlier one embeds in the later one: every path that it shows is shown again, in the
same order, by a region of which no total is smaller. No report shows a path twice or a value that
is beyond its limit. -/
theorem reports_embed (config : Config) (clock : Clock) (orders : List (Clock × Order)) :
    let reports := (ofConfig config clock).reports orders
    reports.Pairwise (fun earlier later => earlier.Embeds later ∧
        List.SublistForall₂ Continues earlier.byPath later.byPath) ∧
      ∀ report ∈ reports, (report.byPath.map Prod.fst).Nodup ∧
        ∀ row ∈ report.byPath, ∀ field : Field, field.of row.2.totals ≤ field.limit := by
  intro reports
  have wf := wellFormed_ofConfig config clock
  refine ⟨(pairwise_reports wf orders).imp fun h => ⟨h, h.byPath⟩, fun report hreport => ?_⟩
  obtain ⟨later, hlater, -, rfl⟩ := exists_of_mem_reports wf hreport
  exact ⟨nodup_byPath_copy hlater, fun row _ field => field.of_le_limit _⟩

end Profiler.Timer
