import Profiler.Instrument.Request
import Profiler.Proofs.Timer.Moves

/-!
# Orders to a timer and runs of them

An `Order` is one call that may change a timer, and `Timer.follow` what comes of it. A run is a list
of orders, each with the clock at its time; nothing is assumed of the clocks.
`Instrument.serve_live` says that every request to a live instrument is one order or leaves the
timer alone, so runs of orders are all that can happen to a timer. `Timer.wellFormed_after` carries
the invariant along runs.
-/

namespace Profiler

/-- What a timer can be asked to do. -/
inductive Order where
  | enter (name : String)
  | exit (name : String)
  | tryExit (name : String)
  | change (name : String)
  | tryChange (name : String)
  | add (name : String) (addition : Addition)
  | report

/-- What an order is answered: how it went, what was said of it, and the report it asked for. -/
structure Order.Reply where
  result : Except Fault Unit := .ok ()
  events : List Event := []
  report? : Option Report := none

namespace Timer

/-- The answer to an order, and the timer after it. -/
def follow (timer : Timer) (clock : Clock) : Order → Order.Reply × Timer
  | .enter name => ({}, timer.enter name clock)
  | .exit name =>
    let (events, after) := timer.exit name clock
    ({ events }, after)
  | .tryExit name =>
    let outcome := timer.tryExit name clock
    ({ result := outcome.result, events := outcome.events }, outcome.timer)
  | .change name =>
    let (events, after) := timer.change name clock
    ({ events }, after)
  | .tryChange name =>
    let outcome := timer.tryChange name clock
    ({ result := outcome.result, events := outcome.events }, outcome.timer)
  | .add name addition => ({}, timer.add name addition)
  | .report =>
    let (report, after) := timer.report clock
    ({ report? := some report }, after)

/-- The timer after orders that are given one after the other, each at its clock. -/
def after (timer : Timer) : List (Clock × Order) → Timer
  | [] => timer
  | (clock, order) :: rest => (timer.follow clock order).2.after rest

theorem after_append (timer : Timer) (orders rest : List (Clock × Order)) :
    timer.after (orders ++ rest) = (timer.after orders).after rest := by
  induction orders generalizing timer with
  | nil => rfl
  | cons step orders ih => exact ih _

/-- The answers to orders, each with the name of the innermost open region then. -/
def replies (timer : Timer) : List (Clock × Order) → List (Order.Reply × String)
  | [] => []
  | (clock, order) :: rest =>
    let (reply, after) := timer.follow clock order
    (reply, after.currentName) :: after.replies rest

/-! ### Faults that are only told -/

theorem follow_exit (timer : Timer) (name : String) (clock : Clock) :
    timer.follow clock (.exit name) =
      ({ events := (timer.exit name clock).1 }, (timer.exit name clock).2) := rfl

theorem follow_change (timer : Timer) (name : String) (clock : Clock) :
    timer.follow clock (.change name) =
      ({ events := (timer.change name clock).1 }, (timer.change name clock).2) := rfl

theorem exit_timer (timer : Timer) (name : String) (clock : Clock) :
    (timer.exit name clock).2 = (timer.tryExit name clock).timer := by
  unfold exit
  dsimp only
  split <;> rfl

theorem change_timer (timer : Timer) (name : String) (clock : Clock) :
    (timer.change name clock).2 = (timer.tryChange name clock).timer := by
  unfold change
  dsimp only
  split <;> rfl

/-! ### Orders consist of moves -/

/-- What leaving a region keeps, an unwinding keeps. -/
theorem unwind_induction {timer : Timer} (wf : timer.WellFormed) (clock : Clock)
    {P : Timer → Prop} (start : P timer)
    (leave : ∀ timer : Timer, timer.WellFormed → timer.current ≠ 0 → P timer →
      P (timer.leave clock)) {count : Nat} (h : count < timer.openPath.length) :
    P (timer.unwind clock count) := by
  induction count generalizing timer with
  | zero => exact start
  | succ count ih =>
    obtain ⟨hne, -, hlt⟩ := leave_of_lt wf clock h
    exact ih (wf.leave clock) (leave timer wf hne start) hlt

/-- **What the four moves keep, every order keeps.** -/
theorem follow_induction {timer : Timer} (wf : timer.WellFormed) (clock : Clock) (order : Order)
    {P : Timer → Prop} (start : P timer)
    (enter : ∀ (timer : Timer) (name : String), timer.WellFormed → P timer →
      P (timer.enter name clock))
    (leave : ∀ timer : Timer, timer.WellFormed → timer.current ≠ 0 → P timer →
      P (timer.leave clock))
    (add : ∀ name addition, order = .add name addition →
      timer.metrics.accepts addition = true → P (timer.add name addition))
    (closeOut : order = .report → P (timer.closeOut clock)) : P (timer.follow clock order).2 := by
  -- An exit leaves regions one by one, and a change leaves one and enters another.
  have hexit : ∀ name, P (timer.tryExit name clock).timer := by
    intro name
    obtain ⟨count, hcount, heq⟩ := tryExit_timer wf clock name
    rw [heq]
    exact unwind_induction wf clock start leave hcount
  have hchange : ∀ name, P (timer.tryChange name clock).timer := by
    intro name
    by_cases hzero : timer.current = 0
    · rw [tryChange_of_top wf name clock hzero]
      exact start
    · obtain ⟨parent, -, hparent⟩ := wf.exists_parent _ wf.current_lt hzero
      rw [tryChange_of_parent timer name clock hparent]
      exact enter _ name (wf.leave clock) (leave timer wf hzero start)
  cases order with
  | enter name => exact enter timer name wf start
  | exit name =>
    show P (timer.exit name clock).2
    rw [exit_timer]
    exact hexit name
  | tryExit name => exact hexit name
  | change name =>
    show P (timer.change name clock).2
    rw [change_timer]
    exact hchange name
  | tryChange name => exact hchange name
  | add name addition =>
    show P (timer.add name addition)
    by_cases haccepts : timer.metrics.accepts addition = true
    · exact add name addition rfl haccepts
    · rw [add_of_not_accepts timer name haccepts]
      exact start
  | report => exact closeOut rfl

/-- Every order keeps the invariant, and all nodes in their places. -/
theorem follow_keeps {timer : Timer} (wf : timer.WellFormed) (clock : Clock) (order : Order) :
    (timer.follow clock order).2.WellFormed ∧ timer.Extends (timer.follow clock order).2 := by
  refine follow_induction wf clock order
    (P := fun later => later.WellFormed ∧ timer.Extends later) ⟨wf, Extends.refl timer⟩ ?_ ?_ ?_ ?_
  · rintro later name hwf ⟨-, hextends⟩
    have h := (entered_enter hwf name clock).touches
    exact ⟨h.wellFormed, hextends.trans h.toExtends⟩
  · rintro later hwf hcurrent ⟨-, hextends⟩
    have h := touches_leave hwf clock hcurrent
    exact ⟨h.wellFormed, hextends.trans h.toExtends⟩
  · intro name addition _ haccepts
    have h := (added_add wf name haccepts).touches
    exact ⟨h.wellFormed, h.toExtends⟩
  · intro _
    have h := touches_closeOut wf clock
    exact ⟨h.wellFormed, h.toExtends⟩

/-- A run keeps the invariant, and all nodes in their places. -/
theorem after_keeps {timer : Timer} (wf : timer.WellFormed) (orders : List (Clock × Order)) :
    (timer.after orders).WellFormed ∧ timer.Extends (timer.after orders) := by
  induction orders generalizing timer with
  | nil => exact ⟨wf, Extends.refl timer⟩
  | cons step orders ih =>
    obtain ⟨hwf, hextends⟩ := follow_keeps wf step.1 step.2
    obtain ⟨hwf', hextends'⟩ := ih hwf
    exact ⟨hwf', hextends.trans hextends'⟩

/-! ### New timers -/

theorem node_ofConfig (config : Config) (clock : Clock) : (ofConfig config clock).node 0 =
    (Node.fresh config.name none).opened config.metrics
      (clock.reading config.metrics config.scope) := by
  rw [ofConfig, openNode, node_modifyNode_self _ _ (by simp)]
  rfl

theorem topName_ofConfig (config : Config) (clock : Clock) :
    (ofConfig config clock).topName = config.name := by
  rw [topName, nameOf, node_ofConfig]
  exact Region.name_countEntry _ _

theorem size_ofConfig (config : Config) (clock : Clock) :
    (ofConfig config clock).nodes.size = 1 := by
  rw [ofConfig, openNode, size_modifyNode]
  rfl

/-- A new timer has one node and nothing else. -/
theorem wellFormed_ofConfig (config : Config) (clock : Clock) :
    (ofConfig config clock).WellFormed := by
  have hsize := size_ofConfig config clock
  have hchildren : ∀ id, ((ofConfig config clock).node id).children = [] := by
    intro id
    by_cases hid : id = 0
    · rw [hid, node_ofConfig]; rfl
    · rw [node_of_size_le _ (by rw [hsize]; omega)]; rfl
  have hparent : ∀ id, ((ofConfig config clock).node id).parent? = none := by
    intro id
    by_cases hid : id = 0
    · rw [hid, node_ofConfig]; rfl
    · rw [node_of_size_le _ (by rw [hsize]; omega)]; rfl
  refine ⟨by rw [hsize]; exact Nat.zero_lt_one, hparent 0, ?_, ?_, ?_, ?_⟩
  · intro id hid hne
    omega
  · intro parent child
    simp [hchildren, hparent]
  · intro parent
    rw [childNames, hchildren]
    exact List.Pairwise.nil
  · intro parent h
    exact absurd (hchildren parent) h

/-- **The invariant holds in every state of every timer.** -/
theorem wellFormed_after (config : Config) (clock : Clock) (orders : List (Clock × Order)) :
    ((ofConfig config clock).after orders).WellFormed :=
  (after_keeps (wellFormed_ofConfig config clock) orders).1

end Timer

/-! ### Requests to an instrument are orders -/

/-- The order that a request to an instrument amounts to, unless it only looks a region up. -/
def Request.order? : Request → Option Order
  | .enter name => some (.enter name)
  | .exit name => some (.exit name)
  | .change name => some (.change name)
  | .tryExit name => some (.tryExit name)
  | .tryChange name => some (.tryChange name)
  | .add name addition => some (.add name addition)
  | .region _ => none
  | .view _ => some .report

/-- **A request to a live instrument is one order to its timer**, or leaves it as it is. -/
theorem Instrument.serve_live (timer : Timer) (clock : Clock) (request : Request) :
    ((live timer).serve clock request).2 = match request.order? with
      | some order =>
        ((timer.follow clock order).1.events, live (timer.follow clock order).2)
      | none => ([], live timer) := by
  cases request <;> rfl

end Profiler
