import Mathlib.Algebra.BigOperators.Group.List.Basic
import Mathlib.Algebra.GroupWithZero.Nat
import Profiler.Proofs.Gauges
import Profiler.Proofs.Timer.Orders
import Profiler.Proofs.Timer.Preorder

/-!
# Every increment goes to the regions that are open

`Timer.effective` is what a region has collected together with what it would collect if it were
closed now. No order changes it (`Timer.Steady.follow`): orders only move amounts from the marks of
open regions to their totals. What changes it is time, and that in the open regions only
(`Timer.Steady.advance`). Along a run the two add up to `Timer.attribution`: a region has collected
the increments of the gauge that happened while it was open, exactly.
-/

namespace Profiler.Timer

/-- What a region has collected, and what it would collect if it were closed now. -/
def effective (timer : Timer) (gauge : Gauge) (now : Clock) (id : Nat) : Nat :=
  gauge.total (timer.node id).region.totals +
    if id ∈ timer.openPath then gauge.read timer.scope now - gauge.mark (timer.node id).marks else 0

/-- The gauge can be attributed: it is tracked, it did not fall below the marks of the open regions,
and no region has collected more than it shows. -/
structure Steady (timer : Timer) (gauge : Gauge) (now : Clock) : Prop where
  tracked : gauge.tracked timer.metrics = true
  mark_le : ∀ id ∈ timer.openPath, gauge.mark (timer.node id).marks ≤ gauge.read timer.scope now
  effective_le : ∀ id, timer.effective gauge now id ≤ gauge.read timer.scope now

section

variable {timer later : Timer} {target : Nat} {f : Totals → Totals} {gauge : Gauge} {now : Clock}

/-! ### A touch that keeps what the touched region is due -/

/-- A touch keeps what every region is due, if it does so for the region that it touches. -/
theorem Steady.touches (steady : timer.Steady gauge now) (h : timer.Touches later target f)
    (hopen : ∀ id, id ≠ target → (id ∈ later.openPath ↔ id ∈ timer.openPath))
    (hmark : target ∈ later.openPath →
      gauge.mark (later.node target).marks = gauge.read timer.scope now)
    (htarget : later.effective gauge now target = timer.effective gauge now target) :
    later.Steady gauge now ∧
      ∀ id, later.effective gauge now id = timer.effective gauge now id := by
  have heffective : ∀ id, later.effective gauge now id = timer.effective gauge now id := by
    intro id
    by_cases hid : id = target
    · rw [hid, htarget]
    · obtain ⟨htotals, hmarks⟩ := h.collected_eq hid
      unfold effective
      simp only [htotals, hmarks, h.toExtends.scope_eq, hopen id hid]
  refine ⟨⟨?_, ?_, ?_⟩, heffective⟩
  · rw [h.toExtends.metrics_eq]
    exact steady.tracked
  · intro id hid
    rw [h.toExtends.scope_eq]
    by_cases heq : id = target
    · rw [heq] at hid ⊢
      exact (hmark hid).le
    · rw [(h.collected_eq heq).2]
      exact steady.mark_le id ((hopen id heq).mp hid)
  · intro id
    rw [heffective, h.toExtends.scope_eq]
    exact steady.effective_le id

/-- What closing an open region would make of its total is what the region is due. -/
theorem Steady.total_elapse (steady : timer.Steady gauge now) {id : Nat} (hid : id ∈ timer.openPath) :
    gauge.total ((timer.node id).region.totals.elapse
      ((timer.node id).marks.tracked timer.metrics) (timer.reading now)) =
      timer.effective gauge now id := by
  have hle := steady.effective_le id
  have hlimit := gauge.read_le_limit timer.scope now
  show gauge.total (Totals.elapse _ _ (now.reading timer.metrics timer.scope)) = _
  rw [gauge.total_elapse steady.tracked]
  unfold effective at hle ⊢
  rw [if_pos hid] at hle ⊢
  omega

/-! ### The four moves -/

variable (wf : timer.WellFormed) (steady : timer.Steady gauge now)
include wf steady

theorem Steady.enter (name : String) : (timer.enter name now).Steady gauge now ∧
    ∀ id, (timer.enter name now).effective gauge now id = timer.effective gauge now id := by
  have entered := entered_enter wf name now
  have hmark : gauge.mark ((timer.enter name now).node
      (timer.locateChild timer.current name).1).marks = gauge.read timer.scope now :=
    gauge.mark_of_tracked steady.tracked entered.tracked_eq
  refine steady.touches entered.touches ?_ (fun _ => hmark) ?_
  · intro id hne
    rw [entered.openPath_eq]
    simp [hne]
  · -- The child is open from now on, but nothing has gone by since its mark.
    unfold effective
    rw [entered.touches.totals_target, hmark, entered.touches.toExtends.scope_eq, Nat.sub_self]
    simp [entered.not_mem]

theorem Steady.leave (hcurrent : timer.current ≠ 0) : (timer.leave now).Steady gauge now ∧
    ∀ id, (timer.leave now).effective gauge now id = timer.effective gauge now id := by
  have htouches := touches_leave wf now hcurrent
  obtain ⟨outer, hpath, houter, hnot⟩ := exists_outer wf hcurrent
  have hleft := openPath_leave wf now houter hpath
  refine steady.touches htouches ?_ (fun hmem => absurd (hleft ▸ hmem) hnot) ?_
  · intro id hne
    rw [hleft, hpath]
    simp [hne]
  · -- What the region was due has become its total.
    have hdue := steady.total_elapse (by rw [hpath]; exact List.mem_cons_self ..)
    unfold effective
    rw [htouches.totals_target, hleft, if_neg hnot, Nat.add_zero]
    exact hdue

theorem Steady.closeOut : (timer.closeOut now).Steady gauge now ∧
    ∀ id, (timer.closeOut now).effective gauge now id = timer.effective gauge now id := by
  have htouches := touches_closeOut wf now
  have hpath := openPath_closeOut wf now
  have hmark : gauge.mark ((timer.closeOut now).node 0).marks = gauge.read timer.scope now :=
    gauge.mark_of_tracked steady.tracked (tracked_closeOut wf now)
  refine steady.touches htouches ?_ (fun _ => hmark) ?_
  · intro id _
    rw [hpath]
  · have hdue := steady.total_elapse (zero_mem_openPath wf)
    unfold effective at hdue ⊢
    rw [htouches.totals_target, hpath, hmark, htouches.toExtends.scope_eq, Nat.sub_self]
    simp only [ite_self, Nat.add_zero]
    exact hdue

theorem Steady.add (name : String) {addition : Addition}
    (haccepts : timer.metrics.accepts addition = true) (htakes : gauge.takes addition = false) :
    (timer.add name addition).Steady gauge now ∧
      ∀ id, (timer.add name addition).effective gauge now id = timer.effective gauge now id := by
  have added := added_add wf name haccepts
  refine steady.touches added.touches ?_ ?_ ?_
  · intro id _
    rw [added.openPath_eq]
  · intro hmem
    rw [added.openPath_eq] at hmem
    exact absurd hmem added.not_mem
  · unfold effective
    rw [added.touches.totals_target, gauge.total_add htakes, added.openPath_eq,
      if_neg added.not_mem, if_neg added.not_mem]

/-! ### Orders and time -/

/-- **No order changes what a region is due**, unless it adds to the gauge. -/
theorem Steady.follow (order : Order)
    (htakes : ∀ name addition, order = .add name addition → gauge.takes addition = false) :
    (timer.follow now order).2.Steady gauge now ∧
      ∀ id, (timer.follow now order).2.effective gauge now id = timer.effective gauge now id := by
  apply follow_induction wf now order (P := fun later => later.Steady gauge now ∧
    ∀ id, later.effective gauge now id = timer.effective gauge now id)
  · exact ⟨steady, fun _ => rfl⟩
  · rintro later name hwf ⟨hsteady, heq⟩
    obtain ⟨hsteady', heq'⟩ := hsteady.enter hwf name
    exact ⟨hsteady', fun id => (heq' id).trans (heq id)⟩
  · rintro later hwf hcurrent ⟨hsteady, heq⟩
    obtain ⟨hsteady', heq'⟩ := hsteady.leave hwf hcurrent
    exact ⟨hsteady', fun id => (heq' id).trans (heq id)⟩
  · intro name addition horder haccepts
    exact steady.add wf name haccepts (htakes name addition horder)
  · exact fun _ => steady.closeOut wf

omit wf in
/-- **Time is due to the open regions** and to no others. -/
theorem Steady.advance {later : Clock}
    (h : gauge.read timer.scope now ≤ gauge.read timer.scope later) :
    timer.Steady gauge later ∧ ∀ id, timer.effective gauge later id =
      timer.effective gauge now id + if id ∈ timer.openPath then
        gauge.read timer.scope later - gauge.read timer.scope now else 0 := by
  have heffective : ∀ id, timer.effective gauge later id =
      timer.effective gauge now id + if id ∈ timer.openPath then
        gauge.read timer.scope later - gauge.read timer.scope now else 0 := by
    intro id
    unfold effective
    by_cases hid : id ∈ timer.openPath
    · have hmark := steady.mark_le id hid
      simp only [hid, if_true]
      omega
    · simp only [hid, if_false, Nat.add_zero]
  refine ⟨⟨steady.tracked, fun id hid => (steady.mark_le id hid).trans h, ?_⟩, heffective⟩
  intro id
  have hle := steady.effective_le id
  rw [heffective]
  split_ifs <;> omega

end

/-! ### Runs -/

/-- The increments of the gauge in a run that begins at `since` and ends at `now`, as far as they
happened while the timer was as `P` says. -/
def spent (gauge : Gauge) (P : Timer → Prop) [DecidablePred P] (timer : Timer) (since : Clock) :
    List (Clock × Order) → Clock → Nat
  | [], now => if P timer then gauge.read timer.scope now - gauge.read timer.scope since else 0
  | (clock, order) :: rest, now =>
    (if P timer then gauge.read timer.scope clock - gauge.read timer.scope since else 0) +
      spent gauge P (timer.follow clock order).2 clock rest now

/-- The gauge never falls in a run, and nothing is added to it by hand. -/
structure Rises (gauge : Gauge) (scope : Scope) (since : Clock) (orders : List (Clock × Order))
    (now : Clock) : Prop where
  read_le : ((since :: orders.map Prod.fst) ++ [now]).Pairwise fun earlier later =>
    gauge.read scope earlier ≤ gauge.read scope later
  takes_eq : ∀ clock name addition, (clock, Order.add name addition) ∈ orders →
    gauge.takes addition = false

namespace Rises

variable {gauge : Gauge} {scope : Scope} {since clock now : Clock} {order : Order}
  {rest : List (Clock × Order)}

theorem head (rises : Rises gauge scope since ((clock, order) :: rest) now) :
    gauge.read scope since ≤ gauge.read scope clock := by
  have h := rises.read_le
  rw [List.map_cons, List.cons_append, List.pairwise_cons] at h
  exact h.1 clock (by simp)

theorem tail (rises : Rises gauge scope since ((clock, order) :: rest) now) :
    Rises gauge scope clock rest now where
  read_le := by
    have h := rises.read_le
    rw [List.map_cons, List.cons_append, List.pairwise_cons] at h
    exact h.2
  takes_eq clock' name addition hmem :=
    rises.takes_eq clock' name addition (List.mem_cons_of_mem _ hmem)

theorem last {orders : List (Clock × Order)} (rises : Rises gauge scope since orders now) :
    gauge.read scope since ≤ gauge.read scope now := by
  have h := rises.read_le
  rw [List.cons_append, List.pairwise_cons] at h
  exact h.1 now (by simp)

end Rises

section

variable {timer : Timer} {gauge : Gauge} {since now : Clock} {orders : List (Clock × Order)}
  (wf : timer.WellFormed)
include wf

/-- **What a region is due is what was spent in it**, beyond what it was due before the run. -/
theorem Steady.after (steady : timer.Steady gauge since)
    (rises : Rises gauge timer.scope since orders now) :
    (timer.after orders).Steady gauge now ∧ ∀ id, (timer.after orders).effective gauge now id =
      timer.effective gauge since id +
        spent gauge (fun timer => id ∈ timer.openPath) timer since orders now := by
  induction orders generalizing timer since with
  | nil => exact steady.advance rises.last
  | cons step rest ih =>
    obtain ⟨clock, order⟩ := step
    have hkeeps := follow_keeps wf clock order
    -- First time goes by until the clock of the order, then the order is followed.
    obtain ⟨hsteady, hadvance⟩ := steady.advance rises.head
    obtain ⟨hsteady', hfollow⟩ := hsteady.follow wf order fun name addition horder =>
      rises.takes_eq clock name addition (by rw [horder]; exact List.mem_cons_self ..)
    have hscope : (timer.follow clock order).2.scope = timer.scope := hkeeps.2.scope_eq
    obtain ⟨hafter, heq⟩ := ih hkeeps.1 hsteady' (by rw [hscope]; exact rises.tail)
    refine ⟨hafter, fun id => ?_⟩
    show ((timer.follow clock order).2.after rest).effective gauge now id = _
    rw [heq, hfollow, hadvance, spent, Nat.add_assoc]

/-- The top-level region is open all the time. -/
theorem spent_top (rises : Rises gauge timer.scope since orders now) :
    spent gauge (fun timer => 0 ∈ timer.openPath) timer since orders now =
      gauge.read timer.scope now - gauge.read timer.scope since := by
  induction orders generalizing timer since with
  | nil => rw [spent, if_pos (zero_mem_openPath wf)]
  | cons step rest ih =>
    obtain ⟨clock, order⟩ := step
    have hkeeps := follow_keeps wf clock order
    have hscope : (timer.follow clock order).2.scope = timer.scope := hkeeps.2.scope_eq
    have hhead := rises.head
    have htail := rises.tail.last
    rw [spent, if_pos (zero_mem_openPath wf), ih hkeeps.1 (by rw [hscope]; exact rises.tail),
      hscope]
    omega

/-- A region is open if it is the innermost open one or if one of its children is open, and then
just one of them. -/
theorem ite_mem_openPath {later : Timer} (h : timer.Extends later) (wf' : later.WellFormed)
    (id amount : Nat) : (if id ∈ timer.openPath then amount else 0) =
      (if timer.current = id then amount else 0) + ((later.node id).children.map fun child =>
        if child ∈ timer.openPath then amount else 0).sum := by
  -- An open child of the later timer was a child before.
  have hchildren : ∀ child ∈ (later.node id).children, child ∈ timer.openPath →
      child ∈ (timer.node id).children := by
    intro child hchild hmem
    have hlt := lt_of_mem_openPath wf hmem
    rw [wf.mem_children, ← h.parent?_eq child hlt]
    exact ⟨hlt, ((wf'.mem_children id child).mp hchild).2⟩
  have hopen : id ∈ timer.openPath ↔ id = timer.current ∨
      ∃ child ∈ (timer.node id).children, child ∈ timer.openPath :=
    mem_lineage_iff wf wf.current_lt
  by_cases hcurrent : timer.current = id
  · have hnone : ∀ child ∈ (later.node id).children,
        (if child ∈ timer.openPath then amount else 0) = 0 := by
      intro child hchild
      apply if_neg
      intro hmem
      have hle := le_of_mem_lineage wf wf.current_lt hmem
      have hlt := (wf'.lt_of_mem_children hchild).1
      omega
    rw [if_pos hcurrent, if_pos (hopen.mpr (.inl hcurrent.symm)), List.map_congr_left hnone]
    simp
  · rw [if_neg hcurrent, Nat.zero_add]
    by_cases hid : id ∈ timer.openPath
    · obtain heq | ⟨child, hchild, hmem⟩ := hopen.mp hid
      · exact absurd heq.symm hcurrent
      · have hchild' : child ∈ (later.node id).children := by
          have hmem := (wf.mem_children id child).mp hchild
          rw [wf'.mem_children, h.parent?_eq child hmem.1]
          exact ⟨lt_of_lt_of_le hmem.1 h.size_le, hmem.2⟩
        have hothers : ∀ other, other ≠ child → other ∈ (later.node id).children →
            (if other ∈ timer.openPath then amount else 0) = 0 := by
          intro other hne hother
          apply if_neg
          intro hmem'
          exact hne (sibling_eq_of_mem_lineage wf wf.current_lt (hchildren other hother hmem')
            hchild hmem' hmem)
        rw [if_pos hid, List.sum_map_eq_nsmul_single child _ hothers, if_pos hmem,
          List.count_eq_one_of_mem (wf'.nodup_children id) hchild', one_nsmul]
    · have hnone : ∀ child ∈ (later.node id).children,
          (if child ∈ timer.openPath then amount else 0) = 0 := by
        intro child hchild
        apply if_neg
        intro hmem
        exact hid (hopen.mpr (.inr ⟨child, hchildren child hchild hmem, hmem⟩))
      rw [if_neg hid, List.map_congr_left hnone]
      simp

/-- What is spent in a region is spent in it alone or in one of its children. -/
theorem spent_children (id : Nat) :
    spent gauge (fun timer => id ∈ timer.openPath) timer since orders now =
      spent gauge (fun timer => timer.current = id) timer since orders now +
        (((timer.after orders).node id).children.map fun child =>
          spent gauge (fun timer => child ∈ timer.openPath) timer since orders now).sum := by
  induction orders generalizing timer since with
  | nil => exact ite_mem_openPath wf (Extends.refl timer) wf id _
  | cons step rest ih =>
    obtain ⟨clock, order⟩ := step
    have hkeeps := follow_keeps wf clock order
    have hafter := after_keeps wf ((clock, order) :: rest)
    -- Children that the run creates later are not open yet and count for nothing until then.
    have hhead := ite_mem_openPath wf hafter.2 hafter.1 id
      (gauge.read timer.scope clock - gauge.read timer.scope since)
    simp only [spent]
    rw [hhead, ih hkeeps.1, List.sum_map_add]
    show _ + (_ + (((timer.after ((clock, order) :: rest)).node id).children.map _).sum) = _
    omega

end

/-! ### New timers -/

theorem steady_ofConfig {gauge : Gauge} {config : Config} (clock : Clock)
    (htracked : gauge.tracked config.metrics = true) :
    (ofConfig config clock).Steady gauge clock ∧
      ∀ id, (ofConfig config clock).effective gauge clock id = 0 := by
  have wf := wellFormed_ofConfig config clock
  have hpath : (ofConfig config clock).openPath = [0] := lineage_zero wf
  have hnode := node_ofConfig config clock
  have hmark : gauge.mark ((ofConfig config clock).node 0).marks =
      gauge.read config.scope clock := by
    apply gauge.mark_of_tracked htracked
    rw [hnode]
    exact Marks.tracked_moveTo _ clock _ _
  have hdue : ∀ id, (ofConfig config clock).effective gauge clock id = 0 := by
    intro id
    unfold effective
    by_cases hid : id = 0
    · have htotal : gauge.total ((ofConfig config clock).node 0).region.totals = 0 := by
        rw [hnode]
        show gauge.total (Region.countEntry _ _).totals = 0
        rw [Region.totals_countEntry, gauge.total_countEntry]
        cases gauge <;> rfl
      rw [hid, htotal, hmark]
      show 0 + (if 0 ∈ _ then gauge.read config.scope clock - gauge.read config.scope clock
        else 0) = 0
      rw [Nat.sub_self, ite_self]
    · have hge : (ofConfig config clock).nodes.size ≤ id := by
        rw [size_ofConfig]
        omega
      rw [node_of_size_le _ hge, hpath, gauge.total_default]
      simp [hid]
  refine ⟨⟨htracked, ?_, ?_⟩, hdue⟩
  · intro id hid
    rw [hpath, List.mem_singleton] at hid
    rw [hid]
    exact hmark.le
  · intro id
    rw [hdue]
    exact Nat.zero_le _

/-- **Every increment is attributed exactly.** In a run in which the gauge never falls, a region is
due what was read while it was open, and closing it makes that its total, without hitting the limit;
no order changes what a region is due; the top-level region is due everything; and what a region is
due beyond its children was read while it was the innermost open one. -/
theorem attribution (gauge : Gauge) (config : Config) (start : Clock)
    (orders : List (Clock × Order)) (now : Clock)
    (htracked : gauge.tracked config.metrics = true)
    (rises : Rises gauge config.scope start orders now) :
    let new := ofConfig config start
    let timer := new.after orders
    (∀ id, timer.effective gauge now id =
      spent gauge (fun timer => id ∈ timer.openPath) new start orders now) ∧
    (∀ id ∈ timer.openPath, gauge.mark (timer.node id).marks ≤ gauge.read config.scope now ∧
      gauge.total ((timer.node id).closed (timer.reading now)).region.totals =
        timer.effective gauge now id) ∧
    (∀ order, (∀ name addition, order = .add name addition → gauge.takes addition = false) →
      ∀ id, (timer.follow now order).2.effective gauge now id = timer.effective gauge now id) ∧
    timer.effective gauge now 0 = gauge.read config.scope now - gauge.read config.scope start ∧
    ∀ id, timer.effective gauge now id =
      spent gauge (fun timer => timer.current = id) new start orders now +
        ((timer.node id).children.map (timer.effective gauge now)).sum := by
  intro new timer
  have wf : new.WellFormed := wellFormed_ofConfig config start
  have wf' : timer.WellFormed := wellFormed_after config start orders
  obtain ⟨hnew, hzero⟩ := steady_ofConfig start htracked
  obtain ⟨hsteady, hafter⟩ := hnew.after wf rises
  have hscope : timer.scope = config.scope := (after_keeps wf orders).2.scope_eq
  have hspent : ∀ id, timer.effective gauge now id =
      spent gauge (fun timer => id ∈ timer.openPath) new start orders now := by
    intro id
    rw [hafter, hzero, Nat.zero_add]
  refine ⟨hspent, ?_, ?_, ?_, ?_⟩
  · intro id hid
    refine ⟨hscope ▸ hsteady.mark_le id hid, ?_⟩
    rw [← hsteady.total_elapse hid]
    exact congrArg gauge.total (Region.totals_accrue _ _ now _ _)
  · intro order htakes
    exact (hsteady.follow wf' order htakes).2
  · rw [hspent]
    exact spent_top wf rises
  · intro id
    rw [hspent, spent_children wf id, List.map_congr_left fun child _ => hspent child]

/-- Two nested regions are closed by one exit: the outer one is due four nanoseconds, one of which
went by before the inner one was entered. -/
theorem attribution_nested :
    let start : Clock := {}
    let orders : List (Clock × Order) := [({ wall := .ofNat 5 }, .enter "a"),
      ({ wall := .ofNat 6 }, .enter "b"), ({ wall := .ofNat 9 }, .exit "a")]
    let now : Clock := { wall := .ofNat 12 }
    Gauge.wall.tracked ({} : Config).metrics = true ∧ Rises .wall .thread start orders now ∧
      ((ofConfig {} start).after orders).effective .wall now 0 = 12 ∧
      ((ofConfig {} start).after orders).effective .wall now 1 = 4 := by
  intro start orders now
  have rises : Rises .wall .thread start orders now := ⟨by decide, by simp [orders]⟩
  obtain ⟨hspent, -, -, htop, -⟩ := attribution .wall {} start orders now rfl rises
  refine ⟨rfl, rises, htop, ?_⟩
  rw [hspent]
  decide

end Profiler.Timer
