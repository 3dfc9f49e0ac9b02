import Mathlib.Algebra.BigOperators.Group.List.Basic
import Mathlib.Algebra.GroupWithZero.Nat
import Profiler.Proofs.Gauges
import Profiler.Proofs.Timer.Orders

/-!
# A region collects what is read during its stays

A `Stay` is a time for which a region was open. `Stays.follow` tells the stays of one region from the
orders to its timer; a report ends the stay of the top-level region and begins another one. A region
has collected just the sum of what was read between the beginning and the end of its stays
(`Timer.Stayed`), whatever the clock did in the meantime: it may have run backwards, or refused to
tell (`Timer.Stayed.after`).
-/

namespace Profiler

/-- A time for which a region was open. -/
structure Stay where
  start : Clock
  stop : Clock
deriving DecidableEq

/-- What a timer of the scope reads between the beginning and the end of a stay. -/
def Gauge.gained (gauge : Gauge) (scope : Scope) (stay : Stay) : Nat :=
  gauge.read scope stay.stop - gauge.read scope stay.start

/-- The stays of a region: since when it has been open, if it is, and those that are over. -/
structure Stays where
  open? : Option Clock := none
  past : List Stay := []
deriving DecidableEq

namespace Stays

/-- A stay begins. -/
def opened (stays : Stays) (clock : Clock) : Stays := { stays with open? := some clock }

/-- The stay ends that has begun, if one has. -/
def closed (stays : Stays) (clock : Clock) : Stays where
  open? := none
  past := stays.past ++ (stays.open?.map fun start => ⟨start, clock⟩).toList

/-- When stays began and ended, in the order in which they did. -/
def times (stays : Stays) : List Clock :=
  stays.past.flatMap (fun stay => [stay.start, stay.stop]) ++ stays.open?.toList

/-- When the region was opened for the first time, if ever. -/
def first? (stays : Stays) : Option Clock := stays.times.head?

variable (id : Nat)

/-- The stays of the region `id` of a new timer. Only the top-level region is open. -/
def new (clock : Clock) : Stays := { open? := if id = 0 then some clock else none }

/-- The stays of the region `id` after an order to the timer. -/
def follow (stays : Stays) (timer : Timer) (clock : Clock) (order : Order) : Stays :=
  let later := (timer.follow clock order).2
  match order with
  | .enter _ => if later.current = id then stays.opened clock else stays
  | .exit _ | .tryExit _ =>
    if id ∈ timer.openPath ∧ id ∉ later.openPath then stays.closed clock else stays
  | .change _ | .tryChange _ =>
    if timer.isAtTop then stays
    else
      -- The region may be left and entered again at once.
      let left := if timer.current = id then stays.closed clock else stays
      if later.current = id then left.opened clock else left
  | .add _ _ => stays
  | .report => if id = 0 then (stays.closed clock).opened clock else stays

/-- The stays of the region `id` after orders that are given one after the other. -/
def after (stays : Stays) (timer : Timer) : List (Clock × Order) → Stays
  | [] => stays
  | (clock, order) :: rest =>
    (stays.follow id timer clock order).after (timer.follow clock order).2 rest

/-! ### The times of stays -/

section

variable (stays : Stays) (clock : Clock)

/-- A region that was never opened has not been closed either. -/
theorem past_eq_nil (h : stays.first? = none) : stays.past = [] := by
  have htimes : stays.times = [] := List.head?_eq_none_iff.mp h
  have hends := (List.append_eq_nil_iff.mp htimes).1
  exact List.eq_nil_iff_forall_not_mem.mpr fun stay hmem =>
    List.cons_ne_nil _ _ (List.flatMap_eq_nil_iff.mp hends stay hmem)

theorem times_opened : (stays.opened clock).times.Sublist (stays.times ++ [clock]) := by
  show (_ ++ [clock]).Sublist _
  rw [times, List.append_assoc]
  exact (List.Sublist.refl _).append (List.sublist_append_right _ _)

theorem times_closed : (stays.closed clock).times.Sublist (stays.times ++ [clock]) := by
  rw [closed, times, times]
  cases hopen : stays.open? with
  | none => simp
  | some start => simp

theorem sublist_times : stays.times.Sublist (stays.times ++ [clock]) :=
  List.sublist_append_left _ _

/-- An order begins and ends stays at its own time only. -/
theorem times_follow (timer : Timer) (order : Order) :
    (stays.follow id timer clock order).times.Sublist (stays.times ++ [clock, clock]) := by
  have htwo : ∀ {mid later : Stays}, mid.times.Sublist (stays.times ++ [clock]) →
      later.times.Sublist (mid.times ++ [clock]) →
      later.times.Sublist (stays.times ++ [clock, clock]) := by
    intro mid later hmid hlater
    have hboth := hlater.trans (hmid.append (List.Sublist.refl [clock]))
    rwa [List.append_assoc] at hboth
  unfold follow
  cases order with
  | enter name =>
    dsimp only
    split_ifs
    · exact htwo (stays.sublist_times clock) (stays.times_opened clock)
    · exact List.sublist_append_left _ _
  | exit name | tryExit name =>
    dsimp only
    split_ifs
    · exact htwo (stays.sublist_times clock) (stays.times_closed clock)
    · exact List.sublist_append_left _ _
  | change name | tryChange name =>
    dsimp only
    split_ifs
    · exact List.sublist_append_left _ _
    · exact htwo (stays.times_closed clock) ((stays.closed clock).times_opened clock)
    · exact htwo (stays.sublist_times clock) (stays.times_opened clock)
    · exact htwo (stays.times_closed clock) (List.sublist_append_left _ _)
    · exact List.sublist_append_left _ _
  | add name addition => exact List.sublist_append_left _ _
  | report =>
    dsimp only
    split_ifs
    · exact htwo (stays.times_closed clock) ((stays.closed clock).times_opened clock)
    · exact List.sublist_append_left _ _

/-- **Stays begin and end at the times of the orders**, in their order. An order may end one stay and
begin another. -/
theorem times_after (timer : Timer) (orders : List (Clock × Order)) :
    (stays.after id timer orders).times.Sublist
      (stays.times ++ orders.flatMap fun step => [step.1, step.1]) := by
  induction orders generalizing stays timer with
  | nil => exact List.sublist_append_left _ _
  | cons step orders ih =>
    obtain ⟨clock, order⟩ := step
    have hrest := ih (stays.follow id timer clock order) (timer.follow clock order).2
    have hfirst := (stays.times_follow id clock timer order).append
      (List.Sublist.refl (orders.flatMap fun step => [step.1, step.1]))
    rw [List.append_assoc] at hfirst
    exact hrest.trans hfirst

end

end Stays

namespace Timer

/-- The stays are those of the region `id`, which has collected what was read during them. -/
structure Stayed (timer : Timer) (gauge : Gauge) (id : Nat) (stays : Stays) : Prop where
  isSome_iff : stays.open?.isSome = true ↔ id ∈ timer.openPath
  mark_eq : ∀ start, stays.open? = some start →
    gauge.mark (timer.node id).marks = gauge.read timer.scope start
  total_eq : gauge.total (timer.node id).region.totals =
    min (stays.past.map (gauge.gained timer.scope)).sum gauge.limit

namespace Stayed

variable {timer later : Timer} {gauge : Gauge} {id : Nat} {stays : Stays}
  (h : timer.Stayed gauge id stays)
include h

/-- Nothing happens to the region. -/
theorem of_same (hscope : later.scope = timer.scope)
    (hopen : id ∈ later.openPath ↔ id ∈ timer.openPath)
    (hmarks : id ∈ timer.openPath → (later.node id).marks = (timer.node id).marks)
    (htotal : gauge.total (later.node id).region.totals =
      gauge.total (timer.node id).region.totals) : later.Stayed gauge id stays where
  isSome_iff := h.isSome_iff.trans hopen.symm
  mark_eq start hstart := by
    rw [hmarks (h.isSome_iff.mp (by rw [hstart]; rfl)), hscope]
    exact h.mark_eq start hstart
  total_eq := by rw [htotal, hscope, h.total_eq]

/-- The region is marked with a reading. -/
theorem opened (clock : Clock) (hscope : later.scope = timer.scope) (hopen : id ∈ later.openPath)
    (hmark : gauge.mark (later.node id).marks = gauge.read timer.scope clock)
    (htotal : gauge.total (later.node id).region.totals =
      gauge.total (timer.node id).region.totals) :
    later.Stayed gauge id (stays.opened clock) where
  isSome_iff := by simp [Stays.opened, hopen]
  mark_eq start hstart := by
    rw [hmark, hscope, Option.some.inj hstart]
  total_eq := by
    rw [htotal, hscope, h.total_eq]
    rfl

/-- What an open region collects when it is closed is what was read during the stay. -/
theorem total_elapse (htracked : gauge.tracked timer.metrics = true) (clock : Clock)
    (hopen : id ∈ timer.openPath) :
    gauge.total ((timer.node id).region.totals.elapse
      ((timer.node id).marks.tracked timer.metrics) (timer.reading clock)) =
        min ((stays.closed clock).past.map (gauge.gained timer.scope)).sum gauge.limit := by
  obtain ⟨start, hstart⟩ := Option.isSome_iff_exists.mp (h.isSome_iff.mpr hopen)
  have hmark := h.mark_eq start hstart
  have htotal := h.total_eq
  have hpast : (stays.closed clock).past = stays.past ++ [⟨start, clock⟩] := by
    rw [Stays.closed, hstart]
    rfl
  show gauge.total (Totals.elapse _ _ (clock.reading timer.metrics timer.scope)) = _
  rw [gauge.total_elapse htracked, htotal, hmark, hpast, List.map_append, List.sum_append]
  simp only [List.map_cons, List.map_nil, List.sum_cons, List.sum_nil, Gauge.gained]
  omega

/-! ### The moves -/

variable (wf : timer.WellFormed) (htracked : gauge.tracked timer.metrics = true)
include wf

include htracked in
theorem enter (name : String) (clock : Clock) : (timer.enter name clock).Stayed gauge id
    (if (timer.enter name clock).current = id then stays.opened clock else stays) := by
  have entered := entered_enter wf name clock
  have htouches := entered.touches
  have hscope := htouches.toExtends.scope_eq
  have hcurrent := current_eq_of_cons htouches.wellFormed entered.openPath_eq
  set child := (timer.locateChild timer.current name).1
  rw [hcurrent]
  split_ifs with hid
  · subst hid
    refine h.opened clock hscope (entered.openPath_eq ▸ List.mem_cons_self ..) ?_ ?_
    · exact gauge.mark_of_tracked htracked entered.tracked_eq
    · rw [htouches.totals_target, gauge.total_countEntry]
  · have hne := Ne.symm hid
    obtain ⟨htotals, hmarks⟩ := htouches.collected_eq hne
    refine h.of_same hscope ?_ (fun _ => hmarks) (by rw [htotals])
    rw [entered.openPath_eq, List.mem_cons]
    exact or_iff_right hne

include htracked in
theorem unwind (clock : Clock) {count : Nat} (hcount : count < timer.openPath.length) :
    (timer.unwind clock count).Stayed gauge id
      (if id ∈ timer.openPath ∧ id ∉ (timer.unwind clock count).openPath then stays.closed clock
        else stays) := by
  have hscope := (extends_unwind wf clock count).scope_eq
  have hnode := node_unwind wf clock hcount id
  have hnodup : (timer.openPath.take count ++ timer.openPath.drop count).Nodup := by
    rw [List.take_append_drop]
    exact nodup_lineage wf wf.current_lt
  have hsplit : id ∈ timer.openPath ↔
      id ∈ timer.openPath.take count ∨ id ∈ timer.openPath.drop count := by
    rw [← List.mem_append, List.take_append_drop]
  rw [openPath_unwind wf clock hcount]
  split_ifs with hleft
  · have htake := (hsplit.mp hleft.1).resolve_right hleft.2
    rw [if_pos htake] at hnode
    refine ⟨?_, nofun, ?_⟩
    · rw [openPath_unwind wf clock hcount]
      exact ⟨nofun, fun hmem => absurd hmem hleft.2⟩
    · rw [hnode, hscope, ← h.total_elapse htracked clock hleft.1]
      exact congrArg gauge.total (Region.totals_accrue _ _ clock _ _)
  · -- A region that was left is not open any more.
    have htake : id ∉ timer.openPath.take count := fun hmem =>
      hleft ⟨hsplit.mpr (.inl hmem), fun hdrop =>
        (List.nodup_append.mp hnodup).2.2 id hmem id hdrop rfl⟩
    rw [if_neg htake] at hnode
    refine h.of_same hscope ?_ (fun _ => by rw [hnode]) (by rw [hnode])
    rw [openPath_unwind wf clock hcount, hsplit]
    exact (or_iff_right htake).symm

include htracked in
theorem leave (clock : Clock) (hcurrent : timer.current ≠ 0) : (timer.leave clock).Stayed gauge id
    (if timer.current = id then stays.closed clock else stays) := by
  obtain ⟨outer, hpath, houter, hnot⟩ := exists_outer wf hcurrent
  have hleft : (timer.leave clock).openPath = outer := openPath_leave wf clock houter hpath
  have hcount : 1 < timer.openPath.length := by
    rw [hpath, List.length_cons]
    exact Nat.succ_lt_succ (List.length_pos_of_ne_nil houter)
  have hunwound := h.unwind wf htracked clock hcount
  have hiff : (id ∈ timer.openPath ∧ id ∉ (timer.leave clock).openPath) ↔ timer.current = id := by
    rw [hleft, hpath, List.mem_cons]
    constructor
    · rintro ⟨rfl | hmem, hnot'⟩
      · rfl
      · exact absurd hmem hnot'
    · rintro rfl
      exact ⟨.inl rfl, hnot⟩
  rw [show timer.unwind clock 1 = timer.leave clock from rfl] at hunwound
  rwa [if_congr hiff rfl rfl] at hunwound

theorem add (name : String) {addition : Addition} (htakes : gauge.takes addition = false) :
    (timer.add name addition).Stayed gauge id stays := by
  by_cases haccepts : timer.metrics.accepts addition = true
  · have added := added_add wf name haccepts
    have htouches := added.touches
    refine h.of_same htouches.toExtends.scope_eq (by rw [added.openPath_eq]) ?_ ?_
    · intro hopen
      exact (htouches.collected_eq fun heq => added.not_mem (heq ▸ hopen)).2
    · by_cases hid : id = (timer.locateChild timer.current name).1
      · rw [hid, htouches.totals_target, gauge.total_add htakes]
      · rw [(htouches.collected_eq hid).1]
  · rw [add_of_not_accepts timer name haccepts]
    exact h

include htracked in
theorem closeOut (clock : Clock) : (timer.closeOut clock).Stayed gauge id
    (if id = 0 then (stays.closed clock).opened clock else stays) := by
  have htouches := touches_closeOut wf clock
  have hscope := htouches.toExtends.scope_eq
  have hopen := openPath_closeOut wf clock
  split_ifs with hid
  · subst hid
    have hzero := zero_mem_openPath wf
    refine ⟨by simp [Stays.opened, hopen, hzero], fun start hstart => ?_, ?_⟩
    · rw [← Option.some.inj hstart, hscope]
      exact gauge.mark_of_tracked htracked (tracked_closeOut wf clock)
    · rw [htouches.totals_target, hscope]
      exact h.total_elapse htracked clock hzero
  · obtain ⟨htotals, hmarks⟩ := htouches.collected_eq hid
    exact h.of_same hscope (by rw [hopen]) (fun _ => hmarks) (by rw [htotals])

/-! ### Orders and runs -/

include htracked in
theorem exit (name : String) (clock : Clock) :
    (timer.tryExit name clock).timer.Stayed gauge id
      (if id ∈ timer.openPath ∧ id ∉ (timer.tryExit name clock).timer.openPath then
        stays.closed clock else stays) := by
  obtain ⟨count, hcount, heq⟩ := tryExit_timer wf clock name
  rw [heq]
  exact h.unwind wf htracked clock hcount

include htracked in
theorem change (name : String) (clock : Clock) :
    (timer.tryChange name clock).timer.Stayed gauge id
      (if timer.isAtTop then stays
        else if (timer.tryChange name clock).timer.current = id then
          (if timer.current = id then stays.closed clock else stays).opened clock
        else if timer.current = id then stays.closed clock else stays) := by
  by_cases hzero : timer.current = 0
  · rw [if_pos ((isAtTop_iff wf).mpr hzero), tryChange_of_top wf name clock hzero]
    exact h
  · obtain ⟨parent, -, hparent⟩ := wf.exists_parent _ wf.current_lt hzero
    have hmetrics : (timer.leave clock).metrics = timer.metrics :=
      (timer.sameTree_leave clock).metrics_eq
    rw [if_neg (mt (isAtTop_iff wf).mp hzero), tryChange_of_parent timer name clock hparent]
    exact (h.leave wf htracked clock hzero).enter (wf.leave clock) (by rwa [hmetrics]) name clock

include htracked in
/-- **The stays keep up** with every order that does not add to the gauge by hand. -/
theorem follow (clock : Clock) (order : Order)
    (htakes : ∀ name addition, order = .add name addition → gauge.takes addition = false) :
    (timer.follow clock order).2.Stayed gauge id (stays.follow id timer clock order) := by
  cases order with
  | enter name => exact h.enter wf htracked name clock
  | exit name =>
    have hexit : (timer.follow clock (.exit name)).2 = (timer.tryExit name clock).timer :=
      timer.exit_timer name clock
    unfold Stays.follow
    rw [hexit]
    exact h.exit wf htracked name clock
  | tryExit name => exact h.exit wf htracked name clock
  | change name =>
    have hchange : (timer.follow clock (.change name)).2 = (timer.tryChange name clock).timer :=
      timer.change_timer name clock
    unfold Stays.follow
    rw [hchange]
    exact h.change wf htracked name clock
  | tryChange name => exact h.change wf htracked name clock
  | add name addition => exact h.add wf name (htakes name addition rfl)
  | report => exact h.closeOut wf htracked clock

include htracked in
/-- **A region has collected what was read during its stays**, at any time of any run. -/
theorem after (orders : List (Clock × Order))
    (htakes : ∀ clock name addition, (clock, Order.add name addition) ∈ orders →
      gauge.takes addition = false) :
    (timer.after orders).Stayed gauge id (stays.after id timer orders) := by
  induction orders generalizing timer stays with
  | nil => exact h
  | cons step orders ih =>
    obtain ⟨clock, order⟩ := step
    obtain ⟨hwf, hextends⟩ := follow_keeps wf clock order
    have hfollow := h.follow wf htracked clock order fun name addition horder =>
      htakes clock name addition (by rw [horder]; exact List.mem_cons_self ..)
    exact ih hfollow hwf (by rwa [hextends.metrics_eq]) fun clock name addition hmem =>
      htakes clock name addition (List.mem_cons_of_mem _ hmem)

end Stayed

/-- The stays of the regions of a new timer. -/
theorem stayed_ofConfig {gauge : Gauge} {config : Config} (clock : Clock) (id : Nat)
    (htracked : gauge.tracked config.metrics = true) :
    (ofConfig config clock).Stayed gauge id (Stays.new id clock) := by
  have wf := wellFormed_ofConfig config clock
  have hpath : (ofConfig config clock).openPath = [0] := lineage_zero wf
  have hnode := node_ofConfig config clock
  refine ⟨?_, fun start hstart => ?_, ?_⟩
  · rw [hpath, List.mem_singleton, Stays.new]
    split_ifs with hid <;> simp [hid]
  · rw [Stays.new] at hstart
    split_ifs at hstart with hid
    rw [hid, ← Option.some.inj hstart]
    apply gauge.mark_of_tracked htracked
    rw [hnode]
    exact Marks.tracked_moveTo _ clock _ _
  · have hnone : gauge.total ((ofConfig config clock).node id).region.totals = 0 := by
      by_cases hid : id = 0
      · rw [hid, hnode]
        show gauge.total (Region.countEntry _ _).totals = 0
        rw [Region.totals_countEntry, gauge.total_countEntry]
        cases gauge <;> rfl
      · rw [node_of_size_le _ (by rw [size_ofConfig]; omega), gauge.total_default]
    rw [hnone]
    exact (Nat.zero_min _).symm

end Timer

end Profiler
