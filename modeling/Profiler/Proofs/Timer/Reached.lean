import Profiler.Proofs.Fields
import Profiler.Proofs.Timer.Orders

/-!
# Which regions a run creates, and what they collect

A region comes to be when it is first reached: when it is entered, changed to, or added to while the
total is collected (`Timer.reaches?`). Nothing else creates one, and none is ever given up, so the
paths of a timer are those that its run has reached (`Timer.hasPath_after`). What is not tracked is
zero in all of them (`Timer.lacks_after`).
-/

namespace Profiler.Timer

/-- There is a region with the path. -/
def HasPath (timer : Timer) (path : List String) : Prop :=
  ∃ id < timer.nodes.size, timer.path id = path

/-- The path of the region that an order enters or adds to, if it does. A change goes to a sibling
of the current region, unless it is refused; an addition that is not accepted goes nowhere. -/
def reaches? (timer : Timer) (clock : Clock) : Order → Option (List String)
  | .enter name => some (timer.path timer.current ++ [name])
  | .change name | .tryChange name =>
    match (timer.tryChange name clock).result with
    | .ok () => some ((timer.path timer.current).dropLast ++ [name])
    | .error _ => none
  | .add name addition =>
    if timer.metrics.accepts addition then some (timer.path timer.current ++ [name]) else none
  | .exit _ | .tryExit _ | .report => none

/-- The paths that a run reaches. -/
def reached (timer : Timer) : List (Clock × Order) → List (List String)
  | [] => []
  | (clock, order) :: rest =>
    (timer.reaches? clock order).toList ++ (timer.follow clock order).2.reached rest

/-- Nothing is collected in the field. -/
def Lacks (timer : Timer) (field : Field) : Prop :=
  ∀ id, field.of (timer.node id).region.totals = 0

section

variable {timer later : Timer} {target : Nat} {f : Totals → Totals}

/-! ### Amounts -/

/-- What is added to a field of a node that is touched, no other node gets. -/
theorem Touches.of_totals (h : timer.Touches later target f) {field : Field} {amount : Nat}
    (hf : ∀ totals, field.of (f totals) = min (field.of totals + amount) field.limit) (id : Nat) :
    field.of (later.node id).region.totals =
      min (field.of (timer.node id).region.totals + if id = target then amount else 0)
        field.limit := by
  split_ifs with htarget
  · rw [htarget, h.totals_target, hf]
  · rw [(h.collected_eq htarget).1, Nat.add_zero, Nat.min_eq_left (field.of_le_limit _)]

/-! ### Paths -/

theorem hasPath_path {id : Nat} (hid : id < timer.nodes.size) : timer.HasPath (timer.path id) :=
  ⟨id, hid, rfl⟩

/-- The one path that touching a node may add is that of the node. -/
theorem Touches.hasPath_iff (wf : timer.WellFormed) (h : timer.Touches later target f)
    (path : List String) :
    later.HasPath path ↔ timer.HasPath path ∨ later.path target = path := by
  have hpath := fun id (hid : id < timer.nodes.size) =>
    h.toExtends.path_eq wf h.wellFormed hid
  constructor
  · rintro ⟨id, hid, heq⟩
    rcases h.lt_or_eq id hid with hlt | rfl
    · exact .inl ⟨id, hlt, (hpath id hlt).symm.trans heq⟩
    · exact .inr heq
  · rintro (⟨id, hid, heq⟩ | heq)
    · exact ⟨id, lt_of_lt_of_le hid h.toExtends.size_le, (hpath id hid).trans heq⟩
    · exact ⟨target, h.target_lt, heq⟩

/-- Touching a node that is there already adds no path. -/
theorem Touches.hasPath_iff_of_lt (wf : timer.WellFormed) (h : timer.Touches later target f)
    (htarget : target < timer.nodes.size) (path : List String) :
    later.HasPath path ↔ timer.HasPath path := by
  rw [h.hasPath_iff wf, h.toExtends.path_eq wf h.wellFormed htarget, or_iff_left_iff_imp]
  rintro rfl
  exact hasPath_path htarget

variable (wf : timer.WellFormed)
include wf

theorem hasPath_enter (name : String) (clock : Clock) (path : List String) :
    (timer.enter name clock).HasPath path ↔
      timer.HasPath path ∨ timer.path timer.current ++ [name] = path := by
  have entered := entered_enter wf name clock
  rw [entered.touches.hasPath_iff wf, entered.path_eq]

theorem hasPath_leave (clock : Clock) (h : timer.current ≠ 0) (path : List String) :
    (timer.leave clock).HasPath path ↔ timer.HasPath path :=
  (touches_leave wf clock h).hasPath_iff_of_lt wf wf.current_lt path

/-- The path of the region that is left to is that of the one that was left, without its name. -/
theorem path_current_leave (clock : Clock) (h : timer.current ≠ 0) :
    (timer.leave clock).path (timer.leave clock).current =
      (timer.path timer.current).dropLast := by
  obtain ⟨parent, hlt, hparent⟩ := wf.exists_parent _ wf.current_lt h
  have htouches := touches_leave wf clock h
  have hcurrent : (timer.leave clock).current = parent := by
    rw [leave_of_parent timer clock hparent]
    rfl
  rw [hcurrent, htouches.toExtends.path_eq wf htouches.wellFormed (hlt.trans wf.current_lt),
    path_of_parent wf hparent, List.dropLast_concat]

theorem hasPath_tryExit (name : String) (clock : Clock) (path : List String) :
    (timer.tryExit name clock).timer.HasPath path ↔ timer.HasPath path := by
  obtain ⟨count, hcount, heq⟩ := tryExit_timer wf clock name
  rw [heq]
  refine unwind_induction wf clock (P := fun later => later.HasPath path ↔ timer.HasPath path)
    Iff.rfl ?_ hcount
  intro later hwf hcurrent hlater
  exact (hasPath_leave hwf clock hcurrent path).trans hlater

theorem hasPath_tryChange (name : String) (clock : Clock) (path : List String) :
    (timer.tryChange name clock).timer.HasPath path ↔
      timer.HasPath path ∨ timer.reaches? clock (.tryChange name) = some path := by
  by_cases hzero : timer.current = 0
  · simp [reaches?, tryChange_of_top wf name clock hzero]
  · -- A change leaves the current region and enters a child of the one around it.
    obtain ⟨parent, -, hparent⟩ := wf.exists_parent _ wf.current_lt hzero
    rw [reaches?, tryChange_of_parent timer name clock hparent]
    dsimp only
    rw [hasPath_enter (wf.leave clock), hasPath_leave wf clock hzero,
      path_current_leave wf clock hzero, Option.some.injEq]

theorem hasPath_add (name : String) (addition : Addition) (clock : Clock) (path : List String) :
    (timer.add name addition).HasPath path ↔
      timer.HasPath path ∨ timer.reaches? clock (.add name addition) = some path := by
  by_cases haccepts : timer.metrics.accepts addition = true
  · have hadded := added_add wf name haccepts
    rw [hadded.touches.hasPath_iff wf, hadded.path_eq, reaches?, if_pos haccepts,
      Option.some.injEq]
  · simp [reaches?, add_of_not_accepts timer name haccepts, haccepts]

/-- **An order creates the region that it reaches**, if it is not there, and no other. -/
theorem hasPath_follow (clock : Clock) (order : Order) (path : List String) :
    (timer.follow clock order).2.HasPath path ↔
      timer.HasPath path ∨ timer.reaches? clock order = some path := by
  cases order with
  | enter name =>
    rw [reaches?, Option.some.injEq]
    exact hasPath_enter wf name clock path
  | exit name =>
    show (timer.exit name clock).2.HasPath path ↔ _
    rw [exit_timer, hasPath_tryExit wf]
    simp [reaches?]
  | tryExit name =>
    show (timer.tryExit name clock).timer.HasPath path ↔ _
    rw [hasPath_tryExit wf]
    simp [reaches?]
  | change name =>
    show (timer.change name clock).2.HasPath path ↔ _
    rw [change_timer]
    exact hasPath_tryChange wf name clock path
  | tryChange name => exact hasPath_tryChange wf name clock path
  | add name addition => exact hasPath_add wf name addition clock path
  | report =>
    show (timer.closeOut clock).HasPath path ↔ _
    rw [(touches_closeOut wf clock).hasPath_iff_of_lt wf wf.size_pos]
    simp [reaches?]

/-- **The regions after a run** are those before it and those that it has reached. -/
theorem hasPath_after (orders : List (Clock × Order)) (path : List String) :
    (timer.after orders).HasPath path ↔ timer.HasPath path ∨ path ∈ timer.reached orders := by
  induction orders generalizing timer with
  | nil => simp [after, reached]
  | cons step orders ih =>
    obtain ⟨clock, order⟩ := step
    rw [after, ih (follow_keeps wf clock order).1, hasPath_follow wf, reached, List.mem_append,
      Option.mem_toList, or_assoc]

/-! ### Fields that are not tracked -/

omit wf in
/-- A field stays empty if the one node that was touched adds nothing to it. -/
theorem Touches.lacks {field : Field} (h : timer.Touches later target f)
    (hf : ∀ totals, field.of totals = 0 → field.of (f totals) = 0) (hlacks : timer.Lacks field) :
    later.Lacks field := by
  intro id
  by_cases htarget : id = target
  · rw [htarget, h.totals_target]
    exact hf _ (hlacks target)
  · rw [(h.collected_eq htarget).1]
    exact hlacks id

theorem lacks_follow {field : Field} (hfield : field.tracked timer.metrics = false)
    (hlacks : timer.Lacks field) (clock : Clock) (order : Order) :
    (timer.follow clock order).2.Lacks field := by
  have hkeeps := follow_induction wf clock order
    (P := fun later => later.metrics = timer.metrics ∧ later.Lacks field) ⟨rfl, hlacks⟩ ?_ ?_ ?_ ?_
  · exact hkeeps.2
  · rintro later name hwf ⟨hmetrics, hlater⟩
    have htouches := (entered_enter hwf name clock).touches
    refine ⟨htouches.toExtends.metrics_eq.trans hmetrics, htouches.lacks (fun totals hzero => ?_)
      hlater⟩
    rw [hmetrics, field.of_countEntry, Field.perEntry_of_not_tracked hfield, hzero]
    exact Nat.zero_min _
  · rintro later hwf hcurrent ⟨hmetrics, hlater⟩
    have htouches := touches_leave hwf clock hcurrent
    refine ⟨htouches.toExtends.metrics_eq.trans hmetrics, htouches.lacks (fun totals hzero => ?_)
      hlater⟩
    rw [field.of_elapse, reading, hmetrics, Field.elapsed_of_not_tracked hfield, hzero]
    exact Nat.zero_min _
  · intro name addition _ haccepts
    have htouches := (added_add wf name haccepts).touches
    refine ⟨htouches.toExtends.metrics_eq, htouches.lacks (fun totals hzero => ?_) hlacks⟩
    rw [field.of_add, Field.amount_of_not_tracked hfield haccepts, hzero]
    exact Nat.zero_min _
  · intro _
    have htouches := touches_closeOut wf clock
    refine ⟨htouches.toExtends.metrics_eq, htouches.lacks (fun totals hzero => ?_) hlacks⟩
    rw [field.of_elapse, reading, Field.elapsed_of_not_tracked hfield, hzero]
    exact Nat.zero_min _

/-- **What is not tracked is never collected.** -/
theorem lacks_after {field : Field} (hfield : field.tracked timer.metrics = false)
    (hlacks : timer.Lacks field) (orders : List (Clock × Order)) :
    (timer.after orders).Lacks field := by
  induction orders generalizing timer with
  | nil => exact hlacks
  | cons step orders ih =>
    obtain ⟨clock, order⟩ := step
    obtain ⟨hwf, hextends⟩ := follow_keeps wf clock order
    refine ih hwf ?_ (lacks_follow wf hfield hlacks clock order)
    rwa [hextends.metrics_eq]

end

/-! ### New timers -/

theorem hasPath_ofConfig (config : Config) (clock : Clock) (path : List String) :
    (ofConfig config clock).HasPath path ↔ path = [] := by
  have hzero := path_zero (wellFormed_ofConfig config clock)
  rw [HasPath, size_ofConfig]
  constructor
  · rintro ⟨id, hid, rfl⟩
    rw [Nat.lt_one_iff.mp hid, hzero]
  · rintro rfl
    exact ⟨0, Nat.zero_lt_one, hzero⟩

theorem lacks_ofConfig {config : Config} (clock : Clock) {field : Field}
    (hfield : field.tracked config.metrics = false) : (ofConfig config clock).Lacks field := by
  intro id
  by_cases hid : id = 0
  · rw [hid, node_ofConfig]
    show field.of ((Node.fresh config.name none).region.countEntry config.metrics).totals = 0
    rw [Region.totals_countEntry, field.of_countEntry, Field.perEntry_of_not_tracked hfield]
    exact (congrArg (min · _) field.of_default).trans (Nat.zero_min _)
  · have hsize : (ofConfig config clock).nodes.size ≤ id := by
      rw [size_ofConfig]
      exact Nat.one_le_iff_ne_zero.mpr hid
    rw [node_of_size_le _ hsize]
    exact field.of_default

end Profiler.Timer
