import Profiler.Proofs.Session.Parts
import Profiler.Proofs.Session.Timed
import Profiler.Proofs.Timer.Balance

/-!
# Spans that are properly nested balance

A `Session.Body` is a tree of spans, each ended before the one around it, with other work in between
and maybe a panic, which drops the guards of all open spans from the innermost to the outermost. On
the timer that the spans are on, nothing remains of a body but what it has left below the region in
which it began, and no step of it says anything graver than that a timer was created
(`Session.balanced_spans`).
-/

namespace Profiler.Session

/-! ### Bodies -/

/-- What may be done inside spans. -/
inductive Work where
  | add (handle name : String) (addition : Addition)
  | look (handle name : String)
  | view (handle : String) (form : View)
  | channel (action : ChannelAction)
  | clock (change : Clock.Change)

/-- The action of some work. -/
def Work.action : Work → Action
  | add handle name addition => .request handle (.add name addition)
  | look handle name => .request handle (.region name)
  | view handle form => .request handle (.view form)
  | channel action => .channel action
  | clock change => .clock change

/-- Properly nested spans with other work in between. -/
inductive Body where
  | done
  /-- What is left of the bodies around this one is not done, but their spans are ended. -/
  | panic
  | work (thread : String) (deed : Work) (rest : Body)
  /-- A span under a key, by way of a handle, of a region, with a body of its own. -/
  | span (thread key handle name : String) (inside rest : Body)

/-- Steps inside a span, which is opened before them and ended after them. -/
def around (thread key handle name : String) (steps : List Step) : List Step :=
  ⟨thread, .handle (.span key handle name)⟩ :: (steps ++ [⟨thread, .handle (.endSpan key)⟩])

namespace Body

/-- Whether the body ends in a panic. -/
def panics : Body → Bool
  | done => false
  | panic => true
  | work _ _ rest => rest.panics
  | span _ _ _ _ inside rest => inside.panics || rest.panics

/-- The steps of the body. A span is ended on every way out of its own body. -/
def steps : Body → List Step
  | done | panic => []
  | work thread deed rest => ⟨thread, deed.action⟩ :: rest.steps
  | span thread key handle name inside rest =>
    around thread key handle name inside.steps ++ if inside.panics then [] else rest.steps

/-- All spans are on the target, and the key of each is free: no span has it outside of the body,
and none of those around it. -/
def Fits (target : InstrumentId) (handles : Keyed String Handle) : (String → Prop) → Body → Prop
  | _, done | _, panic => True
  | free, work _ _ rest => rest.Fits target handles free
  | free, span _ key handle _ inside rest =>
    handles.get? handle = some (.shared target) ∧ free key ∧
      inside.Fits target handles (fun other => free other ∧ other ≠ key) ∧
      rest.Fits target handles free

end Body

/-- What a step adds to the counts of the children of the region with the path, if it opens nothing
that it does not close: one for every timed call, and what is added directly. -/
def gains (target : InstrumentId) (session : Session) (step : Step) (path : List String) : Gains :=
  (session.orders target step).flatMap fun order => order.2.gains path

/-- What the body adds to counts when it begins in the region with the path: one for every span and
every timed call inside it, and what is added directly. -/
def Body.gains (target : InstrumentId) : Body → Session → List String → Gains
  | done, _, _ | panic, _, _ => []
  | work thread deed rest, session, path =>
    session.gains target ⟨thread, deed.action⟩ path
      ++ rest.gains target (session.step ⟨thread, deed.action⟩).2 path
  | span thread key handle name inside rest, session, path =>
    (path ++ [name], 1) ::
      inside.gains target (session.step ⟨thread, .handle (.span key handle name)⟩).2 (path ++ [name])
      ++ if inside.panics then []
        else rest.gains target (session.after (around thread key handle name inside.steps)) path

/-! ### Runs -/

theorem after_append (session : Session) (steps rest : List Step) :
    session.after (steps ++ rest) = (session.after steps).after rest := by
  induction steps generalizing session with
  | nil => rfl
  | cons step steps ih => exact ih _

theorem run_append (session : Session) (steps rest : List Step) :
    session.run (steps ++ rest) = session.run steps ++ (session.after steps).run rest := by
  induction steps generalizing session with
  | nil => rfl
  | cons step steps ih => exact congrArg (_ :: ·) (ih _)

/-! ### Events that are no complaints -/

/-- Nothing graver is said than what is good to know for debugging. -/
def Quiet (events : List Event) : Prop := ∀ event ∈ events, event.level = .debug

theorem quiet_nil : Quiet [] := nofun

theorem Quiet.append {events more : List Event} (h : Quiet events) (h' : Quiet more) :
    Quiet (events ++ more) := by
  intro event hevent
  exact (List.mem_append.mp hevent).elim (h event) (h' event)

/-- All that is said of a source is that a timer was created. -/
theorem Resolves.quiet {session resolved : Session} {thread : ThreadId} {source : Source}
    {handle : Handle} {created : List Event}
    (h : session.Resolves thread source handle created resolved) : Quiet created := by
  cases h with
  | pinned | disabled _ | known _ _ => exact quiet_nil
  | created _ _ => exact List.forall_mem_singleton.mpr rfl

section

variable {session : Session} (wf : session.WellFormed)
include wf

theorem wellFormed_timed {α : Type} (channel : Channel) (thread : ThreadId)
    (operation : Operation α) : (session.timed channel thread operation).session.WellFormed :=
  fun id => (session.serves_timed id channel thread operation).wellFormed_of (wf id)

theorem quiet_timed {α : Type} (channel : Channel) (thread : ThreadId) (operation : Operation α) :
    Quiet (session.timed channel thread operation).events := by
  obtain ⟨after, -, htimed⟩ := timed_eq wf channel thread operation
  rw [htimed]
  exact (session.resolves_resolve channel.source thread).quiet

theorem quiet_makes {thread : ThreadId} {later : Session} {channel channel' : Channel}
    {calls : List TimedCall} {events : List Event}
    (h : Makes thread session channel calls later channel' events) : Quiet events := by
  induction h with
  | nil => exact quiet_nil
  | cons operation _ ih =>
    exact (quiet_timed wf _ thread operation).append (ih (wellFormed_timed wf _ thread operation))

omit wf in
theorem quiet_callStep {α : Type} (key : String) (answer : CallResult α → Answer)
    {calls : Channel → Called α} (h : ∀ channel, Quiet (calls channel).events) :
    Quiet (session.callStep key answer calls).1.events := by
  unfold callStep
  split
  · exact quiet_nil
  · exact h _

theorem quiet_channelStep (thread : ThreadId) (action : ChannelAction) :
    Quiet (session.channelStep thread action).1.events := by
  cases action with
  | readExact key n =>
    exact quiet_callStep key _ fun channel => quiet_makes wf (makes_readLoop thread _ _ channel n [])
  | writeExact key bytes =>
    exact quiet_callStep key _ fun channel => quiet_makes wf (makes_writeLoop thread _ _ channel bytes)
  | read key _ | write key _ | flush key =>
    exact quiet_callStep key _ fun channel => quiet_timed wf channel thread _
  | readInner key _ | writeInner key _ => exact quiet_callStep key _ fun _ => quiet_nil
  | create _ _ _ _ | left _ | received _ | close _ =>
    unfold channelStep
    dsimp only
    split <;> exact quiet_nil

theorem quiet_work (thread : String) (work : Work) :
    Quiet (session.step ⟨thread, work.action⟩).1.events := by
  cases work with
  | add handle _ _ | look handle _ | view handle _ =>
    show Quiet (session.requestStep handle _).1.events
    unfold requestStep
    split <;> exact quiet_nil
  | channel action => exact quiet_channelStep wf _ action
  | clock change => exact quiet_nil

end

/-! ### The orders of work -/

section

open Timer (Calm)

theorem calm_via (target : InstrumentId) (handle : Handle) {orders : List (Clock × Order)}
    (h : Calm orders) : Calm (via target handle orders) := by
  unfold via
  split
  · exact h
  · exact .nil

variable (target : InstrumentId) (session : Session)

theorem calm_callOrders {α : Type} (channel : Channel) (thread : ThreadId)
    (operation : Operation α) : Calm (session.callOrders target channel thread operation) :=
  calm_via target _ (.visit _ _ _ .nil)

omit session in
theorem calm_flatMap_orders (thread : ThreadId) (calls : List TimedCall) :
    Calm (calls.flatMap (·.orders target thread)) := by
  induction calls with
  | nil => exact .nil
  | cons call calls ih =>
    exact (call.session.calm_callOrders target call.channel thread call.operation).append ih

theorem calm_channelOrders (thread : ThreadId) (action : ChannelAction) :
    Calm (session.channelOrders target thread action) := by
  have hon : ∀ (key : String) (orders : Channel → List (Clock × Order)),
      (∀ channel, Calm (orders channel)) →
      Calm (((session.channels.get? key).map orders).getD []) := by
    intro key orders h
    cases session.channels.get? key with
    | none => exact .nil
    | some channel => exact h channel
  cases action with
  | read key _ | write key _ | flush key =>
    exact hon key _ fun channel => session.calm_callOrders target channel thread _
  | readExact key n =>
    exact hon key _ fun channel => readOrders_eq target thread _ session channel n ▸
      calm_flatMap_orders target thread _
  | writeExact key bytes =>
    exact hon key _ fun channel => writeOrders_eq target thread _ session channel bytes ▸
      calm_flatMap_orders target thread _
  | _ => exact .nil

theorem calm_requestOrders (handle : String) {request : Request}
    (h : ∀ clock, Calm (request.order?.toList.map fun order => (clock, order))) :
    Calm (session.requestOrders target handle request) := by
  unfold requestOrders
  split
  · exact .nil
  · exact calm_via target _ (h session.clock)

/-- **Work opens nothing that it does not close at once.** -/
theorem calm_work (thread : String) (work : Work) :
    Calm (session.orders target ⟨thread, work.action⟩) := by
  cases work with
  | add handle name addition =>
    exact session.calm_requestOrders target handle fun clock => .add clock name addition .nil
  | look handle name => exact session.calm_requestOrders target handle fun _ => .nil
  | view handle form => exact session.calm_requestOrders target handle fun clock => .report clock .nil
  | channel action => exact session.calm_channelOrders target _ action
  | clock change => exact .nil

end

/-! ### Steps that balance -/

/-- Work opens and ends no spans, and makes no handles. -/
theorem sameHeld_work (session : Session) (thread : String) (work : Work) :
    SameHeld session (session.step ⟨thread, work.action⟩).2 := by
  cases work with
  | add handle name addition => exact session.sameHeld_requestStep handle _
  | look handle name => exact session.sameHeld_requestStep handle _
  | view handle form => exact session.sameHeld_requestStep handle _
  | channel action => exact session.sameHeld_channelStep _ action
  | clock change => exact ⟨⟨rfl, rfl, rfl, rfl⟩, rfl, rfl⟩

/-- After the steps the session holds what it held, the target is back where it was, and nothing
graver was said than what is good to know for debugging. -/
structure Balances (session : Session) (target : InstrumentId) (timer : Timer) (steps : List Step)
    (gains : Gains) : Prop where
  handles_eq : (session.after steps).handles = session.handles
  spans_eq : ∀ key, (session.after steps).spans.get? key = session.spans.get? key
  wellFormed : (session.after steps).WellFormed
  quiet : ∀ reply ∈ session.run steps, Quiet reply.events
  exists_timer : ∃ later,
    (session.after steps).pool.get target = .live later ∧ timer.Balances later gains

section

variable {target : InstrumentId} {session : Session} {timer : Timer} (wf : session.WellFormed)
  (hlive : session.pool.get target = .live timer)
include wf hlive

theorem wellFormed_live : timer.WellFormed := by
  have h : session.instrument (.shared target) = .live timer := hlive
  exact wf.instrument h

namespace Balances

theorem nil : session.Balances target timer [] [] where
  handles_eq := rfl
  spans_eq _ := rfl
  wellFormed := wf
  quiet _ hreply := absurd hreply List.not_mem_nil
  exists_timer := ⟨timer, hlive, .refl (wellFormed_live wf hlive)⟩

/-- What balances one after the other balances together. -/
theorem append {later : Timer} {steps more : List Step} {gains rest : Gains}
    (h : session.Balances target timer steps gains)
    (hlater : (session.after steps).pool.get target = .live later)
    (h' : (session.after steps).Balances target later more rest) :
    session.Balances target timer (steps ++ more) (gains ++ rest) := by
  obtain ⟨between, hbetween, hfirst⟩ := h.exists_timer
  obtain ⟨last, hlast, hsecond⟩ := h'.exists_timer
  obtain rfl : between = later := Instrument.live.inj (hbetween.symm.trans hlater)
  have hafter := session.after_append steps more
  refine ⟨?_, fun key => ?_, hafter ▸ h'.wellFormed, ?_, last, hafter ▸ hlast,
    hfirst.trans (wellFormed_live wf hlive) hsecond⟩
  · rw [hafter, h'.handles_eq, h.handles_eq]
  · rw [hafter, h'.spans_eq, h.spans_eq]
  · rw [run_append]
    intro reply hreply
    exact (List.mem_append.mp hreply).elim (h.quiet reply) (h'.quiet reply)

end Balances

theorem balances_work (thread : String) (work : Work) :
    session.Balances target timer [⟨thread, work.action⟩]
      (session.gains target ⟨thread, work.action⟩ (timer.path timer.current)) := by
  have hheld := session.sameHeld_work thread work
  have hserves := session.serves_step target ⟨thread, work.action⟩
  refine ⟨hheld.handles_eq, fun key => congrArg (·.get? key) hheld.spans_eq, wf.after _,
    List.forall_mem_singleton.mpr (quiet_work wf thread work), _, ?_,
    (session.calm_work target thread work).balances (wellFormed_live wf hlive)⟩
  show (session.step _).2.pool.get target = _
  rw [hserves.get_eq (Pool.lt_of_get_live hlive), hlive]
  rfl

/-! ### Spans -/

/-- The session in a span of the target. -/
def entered (session : Session) (target : InstrumentId) (key name : String) : Session :=
  { session.enter (.shared target) name with
    spans := session.spans.insert key ⟨.shared target, name⟩ }

/-- The session after a span of the target, which has become the timer. -/
def left (session : Session) (target : InstrumentId) (key : String) (timer : Timer) : Session :=
  { session.replaceInstrument (.shared target) (.live timer) with
    spans := session.spans.erase key }

omit wf hlive in
/-- The opening of a span under a free key is silent. -/
theorem step_span {thread key handle : String} (name : String)
    (hhandle : session.handles.get? handle = some (.shared target))
    (hkey : session.spans.get? key = none) :
    session.step ⟨thread, .handle (.span key handle name)⟩ =
      ({ answer := .done }, session.entered target key name) := by
  have hend : (session.enter (.shared target) name).endSpan key =
      ([], session.enter (.shared target) name) := by
    have hkey' : (session.enter (.shared target) name).spans.get? key = none := hkey
    rw [endSpan, hkey']
  show session.handleStep (session.threadId thread) (.span key handle name) = _
  rw [handleStep, hhandle]
  dsimp only
  rw [hend]
  rfl

omit wf in
theorem get_entered (key name : String) : (session.entered target key name).pool.get target =
    .live (timer.enter name session.clock) := by
  have hget : session.instrument (.shared target) = .live timer := hlive
  have hlt := Pool.lt_of_get_live hlive
  show (session.enter (.shared target) name).pool.get target = _
  rw [enter, hget]
  exact Pool.get_set_self _ _ hlt

omit wf hlive in
/-- The end of a span exits its region. -/
theorem step_endSpan {thread key name : String}
    (hspan : session.spans.get? key = some ⟨.shared target, name⟩)
    (hget : session.pool.get target = .live timer)
    (hsilent : (timer.exit name session.clock).1 = []) :
    session.step ⟨thread, .handle (.endSpan key)⟩ =
      ({ answer := .ended true }, session.left target key (timer.exit name session.clock).2) := by
  have hinstrument : session.instrument (.shared target) = .live timer := hget
  have hexit : session.exit (.shared target) name = ([],
      session.replaceInstrument (.shared target) (.live (timer.exit name session.clock).2)) := by
    rw [exit, hinstrument]
    dsimp only [Instrument.exit]
    rw [hsilent]
  show session.handleStep (session.threadId thread) (.endSpan key) = _
  rw [handleStep, endSpan, hspan]
  dsimp only
  rw [hexit]
  rfl

/-- **What is done inside a span is closed off by its end.** -/
theorem Balances.span {thread key handle name : String} {steps : List Step} {gains : Gains}
    (hhandle : session.handles.get? handle = some (.shared target))
    (hkey : session.spans.get? key = none)
    (h : (session.entered target key name).Balances target (timer.enter name session.clock) steps
      gains) :
    session.Balances target timer (around thread key handle name steps)
      ((timer.path timer.current ++ [name], 1) :: gains) := by
  have hopening : session.step ⟨thread, .handle (.span key handle name)⟩ =
    ({ answer := .done }, session.entered target key name) := step_span name hhandle hkey
  obtain ⟨later, hlater, hinside⟩ := h.exists_timer
  set inner := (session.entered target key name).after steps with hinner
  obtain ⟨hsilent, hbalances⟩ := hinside.span (wellFormed_live wf hlive) inner.clock
  have hspan : inner.spans.get? key = some ⟨.shared target, name⟩ := by
    rw [h.spans_eq, entered, Keyed.get?_insert, if_pos rfl]
  have hending : inner.step ⟨thread, .handle (.endSpan key)⟩ =
      ({ answer := .ended true }, inner.left target key (later.exit name inner.clock).2) :=
    step_endSpan hspan hlater hsilent
  have hafter : session.after (around thread key handle name steps) =
      inner.left target key (later.exit name inner.clock).2 := by
    rw [around, Session.after, hopening, after_append]
    exact congrArg Prod.snd hending
  have hrun : session.run (around thread key handle name steps) =
      { answer := .done } ::
        ((session.entered target key name).run steps ++ [{ answer := .ended true }]) := by
    rw [around, run, hopening]
    dsimp only
    rw [run_append, run, ← hinner, hending]
    rfl
  refine ⟨?_, fun other => ?_, wf.after _, ?_, _, ?_, hbalances⟩
  · exact hafter ▸ h.handles_eq
  · -- The key of the span is free again, and all others have what they had.
    rw [hafter, left, Keyed.get?_erase, h.spans_eq, entered, Keyed.get?_insert]
    split_ifs with hother
    · rw [hother, hkey]
    · rfl
  · rw [hrun]
    intro reply hreply
    rcases List.mem_cons.mp hreply with rfl | hreply
    · exact quiet_nil
    rcases List.mem_append.mp hreply with hreply | hreply
    · exact h.quiet reply hreply
    · rw [List.mem_singleton.mp hreply]
      exact quiet_nil
  · rw [hafter]
    exact Pool.get_set_self _ _ (Pool.lt_of_get_live hlater)

end

/-! ### Bodies -/

/-- **Bodies balance.** A span is entered, what is inside it balances, and its end closes just the
region that was entered, be it after a panic or not. -/
theorem Body.balances {target : InstrumentId} (body : Body) {session : Session} {timer : Timer}
    {free : String → Prop} (wf : session.WellFormed)
    (hlive : session.pool.get target = .live timer)
    (hfits : body.Fits target session.handles free)
    (hfree : ∀ key, free key → session.spans.get? key = none) :
    session.Balances target timer body.steps
      (body.gains target session (timer.path timer.current)) := by
  induction body generalizing session timer free with
  | done | panic => exact .nil wf hlive
  | work thread deed rest ih =>
    have hwork := balances_work wf hlive thread deed
    obtain ⟨later, hlater, htimer⟩ := hwork.exists_timer
    have hfits' : rest.Fits target (session.step ⟨thread, deed.action⟩).2.handles free :=
      hwork.handles_eq.symm ▸ hfits
    have hrest := ih hwork.wellFormed hlater hfits' fun key hkey =>
      (hwork.spans_eq key).trans (hfree key hkey)
    rw [htimer.path_eq (wellFormed_live wf hlive)] at hrest
    exact hwork.append wf hlive hlater hrest
  | span thread key handle name inside rest ihInside ihRest =>
    obtain ⟨hhandle, hkey, hinside, hrest⟩ := hfits
    have hopening : session.step ⟨thread, .handle (.span key handle name)⟩ =
      ({ answer := .done }, session.entered target key name) := step_span name hhandle (hfree key hkey)
    have wf' : (session.entered target key name).WellFormed := by
      have hwf := wf.after [⟨thread, .handle (.span key handle name)⟩]
      rwa [Session.after, hopening] at hwf
    have hbody := ihInside wf' (get_entered hlive key name) hinside fun other hother => by
      rw [entered, Keyed.get?_insert, if_neg hother.2]
      exact hfree other hother.1
    rw [Timer.path_current_enter (wellFormed_live wf hlive)] at hbody
    have hspan : session.Balances target timer (around thread key handle name inside.steps) _ :=
      hbody.span wf hlive hhandle (hfree key hkey)
    obtain ⟨later, hlater, htimer⟩ := hspan.exists_timer
    rw [steps, Body.gains, hopening]
    refine hspan.append wf hlive hlater ?_
    split_ifs with hpanics
    · exact .nil hspan.wellFormed hlater
    · have hleft := ihRest hspan.wellFormed hlater (hspan.handles_eq.symm ▸ hrest) fun other hother =>
        (hspan.spans_eq other).trans (hfree other hother)
      rwa [htimer.path_eq (wellFormed_live wf hlive)] at hleft

/-- **Spans that are properly nested balance.** Take a timer as any steps have left it and do a body
on it, with whatever names and with a panic anywhere or none. The timer is back in the region in
which it was, nothing was said but what is good to know for debugging, no region has changed that is
not below that one, the top-level region apart, and each count has grown by what the body gains. -/
theorem balanced_spans (before : List Step) (target : InstrumentId) (timer : Timer) (body : Body)
    (hlive : (start.after before).pool.get target = .live timer)
    (hfits : body.Fits target (start.after before).handles fun key =>
      (start.after before).spans.get? key = none) :
    let session := start.after before
    let path := timer.path timer.current
    ∃ later, (session.after body.steps).pool.get target = .live later ∧
      later.current = timer.current ∧ later.openPath = timer.openPath ∧
      (∀ reply ∈ session.run body.steps, ∀ event ∈ reply.events, event.level = .debug) ∧
      timer.ChangesBelow later path (body.gains target session path) := by
  intro session path
  have wf : session.WellFormed := wellFormed_after_start before
  have hbody := body.balances wf hlive hfits fun _ hfree => hfree
  obtain ⟨later, hlater, hbalances⟩ := hbody.exists_timer
  exact ⟨later, hlater, hbalances.current_eq, hbalances.openPath_eq (wellFormed_live wf hlive),
    hbody.quiet, hbalances.changes⟩

/-- A span inside one of the same name, and a panic in it. -/
def nestedBody : Body :=
  .span "main" "outer" "h" "r"
    (.span "main" "inner" "h" "r" (.work "main" (.add "h" "x" (.count (Capped.ofNat 3))) .panic) .done)
    (.work "main" (.add "h" "y" (.count (Capped.ofNat 1))) .done)

/-- Both spans of `nestedBody` are ended, and what comes after the outer one is not done. -/
theorem balanced_spans_nestedBody :
    let session := start.after [⟨"main", .handle (.create "h" {})⟩]
    let timer := Timer.ofConfig {} {}
    nestedBody.gains 0 session (timer.path timer.current) =
      [(["r"], 1), (["r", "r"], 1), (["r", "r", "x"], 3)] ∧
    ∃ later, (session.after nestedBody.steps).pool.get 0 = .live later ∧
      later.current = 0 ∧ later.openPath = [0] ∧
      (∀ reply ∈ session.run nestedBody.steps, ∀ event ∈ reply.events, event.level = .debug) ∧
      timer.ChangesBelow later [] (nestedBody.gains 0 session []) :=
  ⟨rfl, balanced_spans [⟨"main", .handle (.create "h" {})⟩] 0 (Timer.ofConfig {} {}) nestedBody rfl
    ⟨rfl, rfl, ⟨rfl, ⟨rfl, by decide⟩, trivial, trivial⟩, trivial⟩⟩

end Profiler.Session
