import Profiler.Proofs.Timer.UpToDate
import Profiler.Script

/-!
# Reports leave no trace

A report moves what the top-level region is due into its totals, so it does change the timer. In a
run in which the readings of the reports do not fall nobody can tell: reports in any form can be
inserted anywhere, and all other steps are answered as without them
(`Script.own_replies_eq_replies`). What shows is only that a lookup of the top-level region finds
other times and blocks in it; `Region.masked` is what such a lookup tells without them.
-/

namespace Profiler

/-! ### Answers without the times of the top-level region -/

/-- A region without its times and blocks, if it has the name of the top-level region. -/
def Region.masked (top : String) (region : Region) : Region :=
  if region.name = top then region.outline else region

/-- A response without the times and blocks of the top-level region, if it tells of a lookup. -/
def Response.masked (top : String) : Response → Response
  | .region found => .region (found.map (Region.masked top))
  | .attempt result found => .attempt result (found.map (Region.masked top))
  | response => response

/-- A reply without the times and blocks of the top-level region, if it tells of a lookup. -/
def Script.Reply.masked (top : String) (reply : Script.Reply) : Script.Reply :=
  { reply with answer := match reply.answer with
    | .response response => .response (response.masked top)
    | answer => answer }

theorem Region.count_accrue (region : Region) (marks : Marks) (reading : Reading) :
    (region.accrue marks reading).count = region.count := by
  obtain ⟨wall, usage⟩ := reading
  cases wall <;> cases usage <;> rfl

/-- Closing a region shows in its times and blocks only. -/
theorem Node.masked_closed (node : Node) (reading : Reading) :
    (node.closed reading).region.masked node.region.name = node.region.masked node.region.name := by
  have hname : (node.closed reading).region.name = node.region.name :=
    node.region.name_accrue node.marks reading
  have hcount : (node.closed reading).region.count = node.region.count :=
    node.region.count_accrue node.marks reading
  rw [Region.masked, Region.masked, if_pos hname, if_pos rfl, Region.outline, Region.outline, hname,
    hcount]

/-- Lookups in a timer that is ahead find the same, but for the times of the top-level region. -/
theorem Timer.Ahead.masked_region? {timer early : Timer} {now : Clock}
    (h : timer.Ahead early now) (name : String) :
    (early.region? name).map (Region.masked timer.topName) =
      (timer.region? name).map (Region.masked timer.topName) := by
  rcases h.early_eq with rfl | ⟨clock, -, -, rfl⟩
  · rfl
  · rw [region?_closeOut h.wellFormed]
    split_ifs with hname
    · rw [← hname, region?_topName h.wellFormed, Option.map_some, Option.map_some,
        Timer.closeOut, closeNode, node_modifyNode_self _ _ h.wellFormed.size_pos]
      exact congrArg some ((timer.node 0).masked_closed _)
    · rfl

/-! ### Requests -/

/-- Two live instruments of one configuration, the second of which is ahead of the first. -/
def Instrument.Ahead (config : Config) (now : Clock) (instrument early : Instrument) : Prop :=
  ∃ timer timer', instrument = live timer ∧ early = live timer' ∧ timer.Ahead timer' now ∧
    timer.topName = config.name ∧ timer.metrics = config.metrics ∧ timer.scope = config.scope

namespace Instrument.Ahead

variable {config : Config} {now later : Clock} {instrument early : Instrument}
  (h : Instrument.Ahead config now instrument early)
include h

/-- A report in any form is the same from an instrument that is ahead, and the two come together. -/
theorem serve_view (hnow : now.Precedes config.metrics config.scope later) (view : View) :
    early.serve later (.view view) = instrument.serve later (.view view) ∧
      Instrument.Ahead config later (instrument.serve later (.view view)).2.2
        (instrument.serve later (.view view)).2.2 := by
  obtain ⟨timer, timer', rfl, rfl, hahead, hname, hmetrics, hscope⟩ := h
  have hnow' : now.Precedes timer.metrics timer.scope later := by rwa [hmetrics, hscope]
  constructor
  · simp only [serve, report, Timer.report, hahead.closeOut_eq hnow']
  · exact ⟨_, _, rfl, rfl, Timer.ahead_closeOut hahead.wellFormed later,
      (timer.nameOf_closeOut later 0).trans hname, hmetrics, hscope⟩

/-- A report that is inserted leaves an instrument that is ahead. -/
theorem insert_view (hnow : now.Precedes config.metrics config.scope later) (view : View) :
    Instrument.Ahead config later instrument (early.serve later (.view view)).2.2 := by
  obtain ⟨timer, timer', rfl, rfl, hahead, hname, hmetrics, hscope⟩ := h
  have hnow' : now.Precedes timer.metrics timer.scope later := by rwa [hmetrics, hscope]
  exact ⟨_, _, rfl, rfl, hahead.closeOut hnow', hname, hmetrics, hscope⟩

/-- **Every other request is answered alike by an instrument that is ahead**, which stays ahead. -/
theorem serve {request : Request} (hrequest : ∀ view, request ≠ .view view) (clock : Clock) :
    (early.serve clock request).1.masked config.name =
        (instrument.serve clock request).1.masked config.name ∧
      (early.serve clock request).2.1 = (instrument.serve clock request).2.1 ∧
      Instrument.Ahead config now (instrument.serve clock request).2.2
        (early.serve clock request).2.2 := by
  obtain ⟨timer, timer', rfl, rfl, hahead, hname, hmetrics, hscope⟩ := id h
  have hlookup : ∀ name, (timer'.region? name).map (Region.masked config.name) =
      (timer.region? name).map (Region.masked config.name) := by
    rw [← hname]
    exact hahead.masked_region?
  have horder : ∀ (order : Order) (name : String), order ≠ .report →
      (timer'.follow clock order).1 = (timer.follow clock order).1 ∧
        ((timer'.follow clock order).2.region? name).map (Region.masked config.name) =
          ((timer.follow clock order).2.region? name).map (Region.masked config.name) ∧
        Instrument.Ahead config now (live (timer.follow clock order).2)
          (live (timer'.follow clock order).2) := by
    intro order name hne
    obtain ⟨hreply, hfollow⟩ := hahead.follow hne clock
    have hkeeps := (Timer.follow_keeps hahead.wellFormed clock order).2
    have htop := (Timer.topName_follow clock hahead.wellFormed order).trans hname
    refine ⟨hreply, ?_, _, _, rfl, rfl, hfollow, htop, hkeeps.metrics_eq.trans hmetrics,
      hkeeps.scope_eq.trans hscope⟩
    rw [← htop]
    exact hfollow.masked_region? name
  cases request with
  | view view => exact absurd rfl (hrequest view)
  | region name => exact ⟨congrArg Response.region (hlookup name), rfl, h⟩
  | enter name =>
    obtain ⟨-, hfound, hafter⟩ := horder (.enter name) name nofun
    exact ⟨congrArg Response.region hfound, rfl, hafter⟩
  | add name addition =>
    obtain ⟨-, hfound, hafter⟩ := horder (.add name addition) name nofun
    exact ⟨congrArg Response.region hfound, rfl, hafter⟩
  | exit name =>
    obtain ⟨hreply, hfound, hafter⟩ := horder (.exit name) name nofun
    exact ⟨congrArg Response.region hfound, congrArg Order.Reply.events hreply, hafter⟩
  | change name =>
    obtain ⟨hreply, hfound, hafter⟩ := horder (.change name) name nofun
    exact ⟨congrArg Response.region hfound, congrArg Order.Reply.events hreply, hafter⟩
  | tryExit name =>
    obtain ⟨hreply, hfound, hafter⟩ := horder (.tryExit name) name nofun
    exact ⟨congrArg₂ Response.attempt (congrArg Order.Reply.result hreply) hfound,
      congrArg Order.Reply.events hreply, hafter⟩
  | tryChange name =>
    obtain ⟨hreply, hfound, hafter⟩ := horder (.tryChange name) name nofun
    exact ⟨congrArg₂ Response.attempt (congrArg Order.Reply.result hreply) hfound,
      congrArg Order.Reply.events hreply, hafter⟩

theorem currentName?_eq : early.currentName? = instrument.currentName? := by
  obtain ⟨timer, timer', rfl, rfl, hahead, -⟩ := h
  exact congrArg some hahead.currentName_eq

end Instrument.Ahead

/-! ### Runs with reports inserted -/

namespace Script

/-- The steps of a run together with the reports that are inserted into it. -/
abbrev Insertion := List (Step ⊕ View)

namespace Insertion

/-- The steps of the run alone. -/
def own (steps : Insertion) : List Step := steps.filterMap Sum.getLeft?

/-- The run with the reports inserted. -/
def whole (steps : Insertion) : List Step :=
  steps.map (Sum.elim id fun view => .request (.view view))

/-- Of the replies to the run with the reports inserted those to its own steps. -/
def ownReplies (steps : Insertion) (state : State) : List Reply :=
  ((state.run steps.whole).zip steps).filterMap fun (reply, step) =>
    if step.isLeft then some reply else none

end Insertion

/-- The clocks at which reports are taken in a run that begins at a clock. -/
def reportClocks (clock : Clock) : List Step → List Clock
  | [] => []
  | .clock change :: rest => reportClocks (clock.change change) rest
  | .request (.view _) :: rest => clock :: reportClocks clock rest
  | .request _ :: rest => reportClocks clock rest
  | .recall _ :: rest => reportClocks clock rest

/-- A report that is kept is all that an answer changes in a state. -/
theorem State.keep_eq (state : State) (response : Response) :
    state.keep response = ⟨state.clock, state.instrument, (state.keep response).saved⟩ := by
  cases response with
  | saved key report => cases report <;> rfl
  | _ => rfl

/-- A report is kept only if it was asked to be. -/
theorem State.keep_serve (state : State) (instrument : Instrument) (clock : Clock)
    {request : Request} (h : ∀ key, request ≠ .view (.save key)) :
    state.keep (instrument.serve clock request).1 = state := by
  cases request with
  | view view =>
    cases view with
    | save key => exact absurd rfl (h key)
    | _ => rfl
  | _ => rfl

theorem ownReplies_inl (state : State) (step : Step) (rest : Insertion) :
    Insertion.ownReplies (.inl step :: rest) state =
      (state.step step).1 :: Insertion.ownReplies rest (state.step step).2 := rfl

theorem ownReplies_inr (state : State) (view : View) (rest : Insertion) :
    Insertion.ownReplies (.inr view :: rest) state =
      Insertion.ownReplies rest (state.step (.request (.view view))).2 := rfl

theorem run_own_inl (state : State) (step : Step) (rest : Insertion) :
    state.run (Insertion.own (.inl step :: rest)) =
      (state.step step).1 :: (state.step step).2.run (Insertion.own rest) := rfl

/-- **Inserted reports show in no reply to another step**, if one instrument is ahead of the other.
The induction is on the steps: a report brings the two instruments together or moves the one that is
ahead to the time of the report, and every other step leaves them as they are to each other. -/
theorem masked_ownReplies {config : Config} {steps : Insertion}
    (hsave : ∀ key, .inr (.save key) ∉ steps) {clock now : Clock} {instrument early : Instrument}
    (h : Instrument.Ahead config now instrument early) (saved : Keyed String Report)
    (hclocks : (now :: reportClocks clock steps.whole).Pairwise
      (Clock.Precedes config.metrics config.scope)) :
    (steps.ownReplies ⟨clock, early, saved⟩).map (Reply.masked config.name) =
      (State.run ⟨clock, instrument, saved⟩ steps.own).map (Reply.masked config.name) := by
  induction steps generalizing clock now instrument early saved with
  | nil => rfl
  | cons step rest ih =>
    replace ih := @ih fun key hmem => hsave key (List.mem_cons_of_mem _ hmem)
    match step with
    | .inl (.clock change) =>
      rw [ownReplies_inl, run_own_inl]
      exact congrArg (_ :: ·) (ih h saved hclocks)
    | .inl (.recall key) =>
      rw [ownReplies_inl, run_own_inl]
      exact congrArg (_ :: ·) (ih h saved hclocks)
    | .inr view =>
      have hkeep : ∀ key, Request.view view ≠ .view (.save key) := by
        rintro key ⟨⟩
        exact hsave key (List.mem_cons_self ..)
      obtain ⟨hnow, hrest⟩ := List.pairwise_cons.mp hclocks
      rw [ownReplies_inr, State.step]
      dsimp only
      rw [State.keep_serve _ early clock hkeep]
      exact ih (h.insert_view (hnow clock (List.mem_cons_self ..)) view) saved hrest
    | .inl (.request request) =>
      rw [ownReplies_inl, run_own_inl, List.map_cons, List.map_cons, State.step, State.step]
      by_cases hview : ∃ view, request = .view view
      · obtain ⟨view, rfl⟩ := hview
        obtain ⟨hnow, hrest⟩ := List.pairwise_cons.mp hclocks
        obtain ⟨heq, htogether⟩ := h.serve_view (hnow clock (List.mem_cons_self ..)) view
        dsimp only
        rw [heq, State.keep_eq]
        exact congrArg (_ :: ·) (ih htogether _ hrest)
      · have hother : ∀ view, request ≠ .view view := fun view heq => hview ⟨view, heq⟩
        have hkeep : ∀ key, request ≠ .view (.save key) := fun key => hother (.save key)
        have hrest : (now :: reportClocks clock (Insertion.whole rest)).Pairwise
            (Clock.Precedes config.metrics config.scope) := by
          cases request with
          | view view => exact absurd rfl (hother view)
          | _ => exact hclocks
        obtain ⟨hresponse, hevents, hafter⟩ := h.serve hother clock
        dsimp only
        rw [State.keep_serve _ early clock hkeep, State.keep_serve _ instrument clock hkeep,
          Reply.masked, Reply.masked]
        dsimp only
        rw [hresponse, hevents, hafter.currentName?_eq]
        exact congrArg (_ :: ·) (ih hafter saved hrest)

/-- **Reports can be inserted anywhere and leave no trace**, as long as the clocks at which reports
are taken do not fall for what the timer tracks. Reports that are inserted may be in any form, and
those that are written may fail; none is kept. Every other step has the reply that it has without
them: the same answer, the same events and the same innermost open region. Only a lookup of the
top-level region can tell, and only by the times and blocks that it finds.

At any time, a second report at the same reading is the first one again, and all that a report
changes are the times, the blocks and the marks of the top-level region. -/
theorem own_replies_eq_replies (changes : List Clock.Change) (config : Config) (steps : Insertion)
    (hsave : ∀ key, .inr (.save key) ∉ steps)
    (hclocks : ((start changes (some config)).clock ::
        reportClocks (start changes (some config)).clock steps.whole).Pairwise
      (Clock.Precedes config.metrics config.scope)) :
    (steps.ownReplies (start changes (some config))).map (Reply.masked config.name) =
        ((start changes (some config)).run steps.own).map (Reply.masked config.name) ∧
      ∀ (orders : List (Clock × Order)) (clock : Clock),
        let timer := (Timer.ofConfig config (start changes (some config)).clock).after orders
        let (report, after) := timer.report clock
        (∀ later, timer.reading later = timer.reading clock →
            after.report later = (report, after)) ∧
          timer.SameTree after ∧ after.current = timer.current ∧
          (∀ id, id ≠ 0 → after.node id = timer.node id) ∧
          (after.node 0).region.count = (timer.node 0).region.count := by
  refine ⟨masked_ownReplies hsave ?_ .empty hclocks, fun orders clock => ?_⟩
  · exact ⟨_, _, rfl, rfl, Timer.ahead_ofConfig config _, Timer.topName_ofConfig config _, rfl, rfl⟩
  · have wf := Timer.wellFormed_after config (start changes (some config)).clock orders
    set timer := (Timer.ofConfig config (start changes (some config)).clock).after orders
    refine ⟨fun later hreading => Timer.report_report hreading, timer.sameTree_closeOut clock, rfl,
      fun id hid => timer.node_closeOut_of_ne clock hid, ?_⟩
    show ((timer.closeOut clock).node 0).region.count = _
    rw [Timer.closeOut, Timer.closeNode, Timer.node_modifyNode_self _ _ wf.size_pos]
    exact Region.count_accrue ..

/-- A report that its sink refuses, taken while `copy` is open, shows neither in what is said when
`copy` is closed nor in the report at the end. -/
theorem own_replies_eq_replies_refused :
    let steps : Insertion :=
      [.inl (.request (.enter "copy")), .inl (.clock (.advance (Capped.ofNat 2))),
        .inr (.write { limit? := some 0 }), .inl (.clock (.advance (Capped.ofNat 3))),
        .inl (.request (.exit "copy")), .inl (.request (.view .json))]
    (∀ key, Sum.inr (View.save key) ∉ steps) ∧
      ((start [] (some {})).clock :: reportClocks (start [] (some {})).clock steps.whole).Pairwise
        (Clock.Precedes {} .thread) ∧
      (steps.ownReplies (start [] (some {}))).map (Reply.masked "total") =
        ((start [] (some {})).run steps.own).map (Reply.masked "total") := by
  intro steps
  have hsave : ∀ key, Sum.inr (View.save key) ∉ steps := by simp [steps]
  have hclocks : ((start [] (some {})).clock ::
      reportClocks (start [] (some {})).clock steps.whole).Pairwise
        (Clock.Precedes {} .thread) := by decide
  exact ⟨hsave, hclocks, (own_replies_eq_replies [] {} steps hsave hclocks).1⟩

end Script

end Profiler
