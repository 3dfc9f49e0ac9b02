import Mathlib.Logic.Function.Basic
import Profiler.Proofs.Session.Orders
import Profiler.Proofs.Timer.Openings

/-!
# What the end of a span closes

A span remembers a name, not the opening that it made. An observer of one timer of a session who
numbers the openings (`SpanWatch`) knows which of them each span made, whatever is done with the
timer in between (`Session.Observes.after`). `Session.endSpan_exact` compares the two: the end of a
span closes just its own opening exactly if no region nested in it has its name, and if the opening
is closed already, it changes nothing exactly if no open region has the name.
-/

namespace Profiler

/-- The openings of a timer, and the number of the one that the latest span under each key made. -/
structure SpanWatch where
  watch : Watch := {}
  numberOf : String → Nat := fun _ => 0

namespace SpanWatch

variable (target : InstrumentId)

/-- What an observer of the target knows after a step. -/
def step (spans : SpanWatch) (session : Session) (step : Session.Step) : SpanWatch where
  watch :=
    match session.pool.get target with
    | .live timer => spans.watch.after timer (session.orders target step)
    | .inert => spans.watch
  numberOf :=
    match session.opened? step with
    | some (key, span) =>
      -- The entry comes first, before an earlier span under the key is ended.
      if span.handle = .shared target then Function.update spans.numberOf key spans.watch.next
      else spans.numberOf
    | none => spans.numberOf

/-- What an observer of the target knows after steps that are taken one after the other. -/
def after (spans : SpanWatch) (session : Session) : List Session.Step → SpanWatch
  | [] => spans
  | step :: rest => (spans.step target session step).after (session.step step).2 rest

end SpanWatch

namespace Session

/-- The observer of the target knows what is open, and for every span on it which opening it made. -/
structure Observes (target : InstrumentId) (session : Session) (spans : SpanWatch) (timer : Timer) :
    Prop where
  get_eq : session.pool.get target = .live timer
  wellFormed : timer.WellFormed
  watched : timer.Watched spans.watch
  knows : ∀ key span, session.spans.get? key = some span → span.handle = .shared target →
    timer.Knows spans.watch (spans.numberOf key) span.name

section

variable {target : InstrumentId} {session : Session} {spans : SpanWatch} {timer : Timer}

/-- The first order of a step that opens a span is its entry. -/
theorem orders_of_opened {step : Step} {key : String} {span : Span}
    (h : session.opened? step = some (key, span)) (hhandle : span.handle = .shared target) :
    ∃ rest, session.orders target step = (session.clock, .enter span.name) :: rest := by
  obtain ⟨thread, action⟩ := step
  cases action with
  | handle action =>
    cases action with
    | span key' handleKey name =>
      have hmap : (session.handles.get? handleKey).map (fun handle => (key', Span.mk handle name)) =
          some (key, span) := h
      obtain ⟨handle, hget, heq⟩ := Option.map_eq_some_iff.mp hmap
      obtain ⟨rfl, rfl⟩ := Prod.mk.inj heq
      refine ⟨session.endOrders target key', ?_⟩
      show session.handleOrders target (.span key' handleKey name) = _
      rw [handleOrders, hget]
      dsimp only at hhandle ⊢
      rw [via, if_pos hhandle]
      rfl
    | _ => cases h
  | _ => cases h

/-- **The observer keeps up** with every step of the session. -/
theorem Observes.step (observes : session.Observes target spans timer) (step : Step) :
    (session.step step).2.Observes target (spans.step target session step)
      (timer.after (session.orders target step)) := by
  have serves := session.serves_step target step
  have hlt := Pool.lt_of_get_live observes.get_eq
  have hwatch : (spans.step target session step).watch =
      spans.watch.after timer (session.orders target step) := by
    unfold SpanWatch.step
    rw [observes.get_eq]
  refine ⟨?_, (Timer.after_keeps observes.wellFormed _).1, ?_, ?_⟩
  · rw [serves.get_eq hlt, observes.get_eq]
    rfl
  · rw [hwatch]
    exact observes.watched.after observes.wellFormed _
  · intro key span hspan hhandle
    rw [hwatch]
    rcases serves.spans_of key span hspan with hopened | ⟨hbefore, hnot⟩
    · -- The span was opened by this step, whose first order was its entry.
      obtain ⟨rest, horders⟩ := orders_of_opened hopened hhandle
      have hnumber : (spans.step target session step).numberOf key = spans.watch.next := by
        unfold SpanWatch.step
        rw [hopened]
        dsimp only
        rw [if_pos hhandle, Function.update_self]
      rw [hnumber, horders]
      exact (Timer.knows_enter observes.wellFormed observes.watched span.name session.clock).after
        (Timer.follow_keeps observes.wellFormed session.clock (.enter span.name)).1
        (observes.watched.follow observes.wellFormed session.clock (.enter span.name)) rest
    · have hnumber : (spans.step target session step).numberOf key = spans.numberOf key := by
        unfold SpanWatch.step
        cases hopened : session.opened? step with
        | none => rfl
        | some pair =>
          dsimp only
          split
          · rw [Function.update_of_ne]
            intro heq
            exact hnot pair.2 (by rw [hopened, heq])
          · rfl
      rw [hnumber]
      exact (observes.knows key span hbefore hhandle).after observes.wellFormed observes.watched _

theorem Observes.after (observes : session.Observes target spans timer) (steps : List Step) :
    ∃ later, (session.after steps).Observes target (spans.after target session steps) later := by
  induction steps generalizing session spans timer with
  | nil => exact ⟨timer, observes⟩
  | cons step steps ih => exact ih (observes.step step)

/-- The observer of a new timer that no span is on yet. -/
theorem observes_new {config : Config} {clock : Clock}
    (hnew : session.pool.get target = .live (Timer.ofConfig config clock))
    (hfree : ∀ key span, session.spans.get? key = some span → span.handle ≠ .shared target) :
    session.Observes target {} (Timer.ofConfig config clock) where
  get_eq := hnew
  wellFormed := Timer.wellFormed_ofConfig config clock
  watched := Timer.watched_ofConfig config clock
  knows key span hspan hhandle := absurd hhandle (hfree key span hspan)

/-- The end of a span is an exit by its name. -/
theorem get_endSpan {key : String} {span : Span} (hspan : session.spans.get? key = some span)
    (hhandle : span.handle = .shared target) (hget : session.pool.get target = .live timer) :
    (session.endSpan key).2.pool.get target = .live (timer.exit span.name session.clock).2 := by
  have serves := session.serves_endSpan target key
  rw [serves.get_eq (Pool.lt_of_get_live hget), hget, endOrders, hspan]
  dsimp only
  rw [via, if_pos hhandle]
  rfl

end

/-- **What the end of a span closes**, after any steps of a session with the timer and for any span
that is left. While its opening is open, exactly that one is closed, with everything nested in it,
if and only if no opening nested in it is of a region of the same name. When its opening is closed
already, the timer stays as it is if and only if no open region has the name, but perhaps the
top-level region while it is the innermost one. -/
theorem endSpan_exact (target : InstrumentId) (session : Session) (config : Config) (clock : Clock)
    (hnew : session.pool.get target = .live (Timer.ofConfig config clock))
    (hfree : ∀ key span, session.spans.get? key = some span → span.handle ≠ .shared target)
    (steps : List Step) (key : String) (span : Span)
    (hspan : (session.after steps).spans.get? key = some span)
    (hhandle : span.handle = .shared target) :
    let later := session.after steps
    let spans := SpanWatch.after target {} session steps
    ∃ timer ended, later.pool.get target = .live timer ∧
      (later.endSpan key).2.pool.get target = .live ended ∧
      timer.Watched spans.watch ∧ timer.Knows spans.watch (spans.numberOf key) span.name ∧
      (∀ inner opening outer, spans.watch.openings = inner ++ opening :: outer →
        opening.number = spans.numberOf key →
        (timer.Closes ended later.clock (inner.map Opening.region) opening.region ↔
          ∀ other ∈ inner, timer.nameOf other.region ≠ span.name)) ∧
      (spans.numberOf key ∉ spans.watch.openings.map Opening.number →
        (ended = timer ↔
          ∀ id ∈ timer.openPath, timer.nameOf id = span.name → id = 0 ∧ timer.current = 0)) := by
  intro later spans
  obtain ⟨timer, observes⟩ := (observes_new hnew hfree).after steps
  have knows := observes.knows key span hspan hhandle
  refine ⟨timer, (timer.exit span.name later.clock).2, observes.get_eq,
    get_endSpan hspan hhandle observes.get_eq, observes.watched, knows, ?_, ?_⟩
  · intro inner opening outer hopenings hnumber
    have hmem : opening ∈ spans.watch.openings := by
      rw [hopenings]
      simp
    obtain ⟨hname, hregion⟩ := knows.region_of opening hmem hnumber
    have hpath : timer.openPath =
        inner.map Opening.region ++ opening.region :: outer.map Opening.region := by
      have hregions : spans.watch.openings.map Opening.region = timer.openPath :=
        observes.watched.regions_eq
      rw [← hregions, hopenings, List.map_append, List.map_cons]
    have hexact := Timer.closes_exit_iff observes.wellFormed later.clock hpath hregion
    rw [hname] at hexact
    rw [hexact, List.forall_mem_map]
  · intro _
    exact Timer.exit_eq_self_iff observes.wellFormed later.clock span.name

/-! ### A region left open inside a span -/

/-- A session in which `h` is a handle to a new timer. -/
def fresh : Session := start.after [⟨"main", .handle (.create "h" {})⟩]

/-- A span of the region `outer` in which the region `inner` is left open. -/
def leftOpen (outer inner : String) : List Step :=
  [⟨"main", .handle (.span "s" "h" outer)⟩, ⟨"main", .request "h" (.enter inner)⟩]

theorem pool_fresh : fresh.pool.get 0 = .live (Timer.ofConfig {} {}) := rfl

theorem spans_fresh (key : String) (span : Span) (h : fresh.spans.get? key = some span) :
    span.handle ≠ .shared 0 := nomatch h

theorem spans_leftOpen (outer inner : String) :
    (fresh.after (leftOpen outer inner)).spans.get? "s" = some ⟨.shared 0, outer⟩ := rfl

theorem timer_leftOpen (outer inner : String) :
    (fresh.after (leftOpen outer inner)).pool.get 0 =
      .live (((Timer.ofConfig {} {}).enter outer {}).enter inner {}) := rfl

/-- What was left open inside a span is closed with it. -/
theorem endSpan_exact_left_open :
    let later := fresh.after (leftOpen "copy" "block")
    ∃ timer ended, later.pool.get 0 = .live timer ∧ (later.endSpan "s").2.pool.get 0 = .live ended ∧
      timer.Closes ended later.clock [2] 1 := by
  intro later
  obtain ⟨timer, ended, htimer, hended, -, -, hexact, -⟩ :=
    endSpan_exact 0 fresh {} {} pool_fresh spans_fresh (leftOpen "copy" "block") "s"
      ⟨.shared 0, "copy"⟩ (spans_leftOpen "copy" "block") rfl
  have hname : timer.nameOf 2 ≠ "copy" := by
    have heq := Instrument.live.inj (htimer.symm.trans (timer_leftOpen "copy" "block"))
    rw [heq]
    decide +kernel
  refine ⟨timer, ended, htimer, hended, ?_⟩
  apply (hexact [⟨2, 2⟩] ⟨1, 1⟩ [⟨0, 0⟩] (by decide +kernel) (by decide +kernel)).mpr
  intro other hother
  rw [List.mem_singleton.mp hother]
  exact hname

/-- A region of the span's own name that is left open inside it is closed in its place. -/
theorem endSpan_misses :
    let later := fresh.after (leftOpen "copy" "copy")
    let spans := SpanWatch.after 0 {} fresh (leftOpen "copy" "copy")
    ∃ timer ended, later.pool.get 0 = .live timer ∧ (later.endSpan "s").2.pool.get 0 = .live ended ∧
      spans.numberOf "s" = 1 ∧ spans.watch.openings = [⟨2, 2⟩, ⟨1, 1⟩, ⟨0, 0⟩] ∧
      ended.openPath = [1, 0] ∧ ¬ timer.Closes ended later.clock [2] 1 := by
  intro later spans
  have htimer := timer_leftOpen "copy" "copy"
  refine ⟨_, _, htimer, get_endSpan (spans_leftOpen "copy" "copy") rfl htimer,
    by decide +kernel, by decide +kernel, by decide +kernel, ?_⟩
  intro closes
  have hcurrent := closes.current_eq
  revert hcurrent
  decide +kernel

end Session

end Profiler
