import Profiler.Proofs.Ledger.Parallel
import Profiler.Proofs.Ledger.Runs
import Profiler.Proofs.Timer.Reached

/-!
# What is tracked makes no difference to anything else

Two timers that track different metrics, of different scopes and at different clocks, are given the
same orders. Their trees may differ, because an addition that is ignored creates no region. They
still answer alike and have the same regions open all the time, and what both of them track is the
same in the regions that both have, as long as its own source tells both the same
(`Timer.metrics_independent`). The two are compared as ledgers (`Ledger.Parallel`), in which the
shapes of the trees do not show.
-/

namespace Profiler.Timer

/-- The names of the open regions, the innermost first. -/
def openNames (timer : Timer) : List String := timer.openPath.map timer.nameOf

/-- How each order of a run went, what was said of it, and which regions were open then. -/
def course (timer : Timer) :
    List (Clock × Order) → List (Except Fault Unit × List Event × List String)
  | [] => []
  | (clock, order) :: rest =>
    let (reply, after) := timer.follow clock order
    (reply.result, reply.events, after.openNames) :: after.course rest

/-- The timers mean ledgers that go side by side. -/
def Parallel (fields : Field → Prop) (timer other : Timer) : Prop :=
  ∃ ledger ledger', timer.Represents ledger ∧ other.Represents ledger' ∧
    ledger.Parallel fields ledger'

theorem Represents.openNames_eq {timer : Timer} {ledger : Ledger} (wf : timer.WellFormed)
    (h : timer.Represents ledger) :
    timer.openNames = ledger.frames.map fun frame => ledger.nameOf frame.path := by
  rw [openNames, h.frames_eq, List.map_map]
  exact List.map_congr_left fun id hid => (h.nameOf_frame wf hid).symm

namespace Parallel

variable {fields : Field → Prop} {timer other : Timer} {clock clock' : Clock}
  (wf : timer.WellFormed) (wf' : other.WellFormed) (h : Parallel fields timer other)
include h

/-- Regions with the same path have the same in the fields. -/
theorem of_eq {field : Field} (hfield : fields field) {id id' : Nat}
    (hid : id < timer.nodes.size) (hid' : id' < other.nodes.size)
    (hpath : timer.path id = other.path id') :
    field.of (timer.node id).region.totals = field.of (other.node id').region.totals := by
  obtain ⟨ledger, ledger', hledger, hledger', hparallel⟩ := h
  rw [← hledger.totals_path hid, ← hledger'.totals_path hid', ← hpath]
  exact hparallel.of_eq field hfield _

include wf wf'

theorem openNames_eq : timer.openNames = other.openNames := by
  obtain ⟨ledger, ledger', hledger, hledger', hparallel⟩ := h
  rw [hledger.openNames_eq wf, hledger'.openNames_eq wf', hparallel.names_eq]

theorem follow (hnow : ∀ field, fields field →
      field.seen? (timer.reading clock) = field.seen? (other.reading clock')) (order : Order) :
    (timer.follow clock order).1.result = (other.follow clock' order).1.result ∧
      (timer.follow clock order).1.events = (other.follow clock' order).1.events ∧
      Parallel fields (timer.follow clock order).2 (other.follow clock' order).2 := by
  obtain ⟨ledger, ledger', hledger, hledger', hparallel⟩ := h
  have hsame : Ledger.SameNow fields ledger ledger' clock clock' := by
    intro field hfield
    rw [hledger.now_eq, hledger'.now_eq]
    exact hnow field hfield
  obtain ⟨hreply, hfollow⟩ := hledger.follow wf clock order
  obtain ⟨hreply', hfollow'⟩ := hledger'.follow wf' clock' order
  obtain ⟨hresult, hevents, hlater⟩ := hparallel.follow hsame order
  rw [hreply, hreply']
  exact ⟨hresult, hevents, _, _, hfollow, hfollow', hlater⟩

/-- **Two timers go side by side through a run** in which the sources of the fields tell both the
same at each step. -/
theorem run (steps : List (Clock × Clock × Order))
    (hnow : ∀ step ∈ steps, ∀ field, fields field →
      field.seen? (timer.reading step.1) = field.seen? (other.reading step.2.1)) :
    let orders := steps.map fun step => (step.1, step.2.2)
    let orders' := steps.map fun step => (step.2.1, step.2.2)
    timer.course orders = other.course orders' ∧
      Parallel fields (timer.after orders) (other.after orders') := by
  induction steps generalizing timer other with
  | nil => exact ⟨rfl, h⟩
  | cons step steps ih =>
    obtain ⟨hstep, hrest⟩ := List.forall_mem_cons.mp hnow
    obtain ⟨clock, clock', order⟩ := step
    obtain ⟨hresult, hevents, hlater⟩ := h.follow wf wf' hstep order
    obtain ⟨hwf, hextends⟩ := follow_keeps wf clock order
    obtain ⟨hwf', hextends'⟩ := follow_keeps wf' clock' order
    -- The timers still read the same sources.
    obtain ⟨hcourse, hafter⟩ := ih hwf hwf' hlater fun step hmem field hfield => by
      rw [reading_eq_reading hextends, reading_eq_reading hextends']
      exact hrest step hmem field hfield
    refine ⟨?_, hafter⟩
    simp only [List.map_cons, course]
    rw [hresult, hevents, hlater.openNames_eq hwf hwf', hcourse]

end Parallel

/-! ### New timers -/

/-- The totals of a ledger that has just been made. -/
theorem totals_ofConfig (config : Config) (clock : Clock) (path : List String) :
    (Ledger.ofConfig config clock).totals path =
      if path = [] then ({} : Totals).countEntry config.metrics else {} := by
  rw [Ledger.totals, Ledger.ofConfig, Keyed.get?_insert, Keyed.get?_empty]
  split <;> rfl

section

variable {name : String} {metrics metrics' : Metrics} {scope scope' : Scope} {clock clock' : Clock}

theorem parallel_ofConfig {fields : Field → Prop}
    (htracked : ∀ field, fields field →
      field.tracked metrics = true ∧ field.tracked metrics' = true)
    (hnow : ∀ field, fields field →
      field.seen? (clock.reading metrics scope) = field.seen? (clock'.reading metrics' scope')) :
    Parallel fields (ofConfig ⟨name, metrics, scope⟩ clock)
      (ofConfig ⟨name, metrics', scope'⟩ clock') := by
  refine ⟨_, _, represents_ofConfig _ clock, represents_ofConfig _ clock', rfl, htracked, .nil, hnow,
    fun field hfield path => ?_⟩
  obtain ⟨h, h'⟩ := htracked field hfield
  rw [totals_ofConfig, totals_ofConfig]
  split
  · rw [field.of_countEntry, field.of_countEntry, Field.perEntry_eq_perEntry h h']
  · rfl

variable {field : Field} (h : field.tracked metrics = true) (h' : field.tracked metrics' = true)
include h h'

/-- What a source tells both timers, a field that is collected from it learns in both. -/
theorem seen?_eq_seen? (hread : ∀ gauge : Gauge, field = .collected gauge →
      gauge.read scope clock = gauge.read scope' clock') :
    field.seen? (clock.reading metrics scope) = field.seen? (clock'.reading metrics' scope') := by
  cases field with
  | entries => rfl
  | collected gauge =>
    have htracked : gauge.tracked metrics = true := h
    have htracked' : gauge.tracked metrics' = true := h'
    rw [Field.seen?, Field.seen?, gauge.value?_reading, gauge.value?_reading, if_pos htracked,
      if_pos htracked', hread gauge rfl]

/-- Two new timers go side by side in a field that both track, if its source tells both the same. -/
theorem parallel_after (steps : List (Clock × Clock × Order))
    (hread : ∀ gauge : Gauge, field = .collected gauge →
      gauge.read scope clock = gauge.read scope' clock' ∧
        ∀ step ∈ steps, gauge.read scope step.1 = gauge.read scope' step.2.1) :
    Parallel (· = field)
      ((ofConfig ⟨name, metrics, scope⟩ clock).after (steps.map fun step => (step.1, step.2.2)))
      ((ofConfig ⟨name, metrics', scope'⟩ clock').after
        (steps.map fun step => (step.2.1, step.2.2))) := by
  have hstart : Parallel (· = field) (ofConfig ⟨name, metrics, scope⟩ clock)
      (ofConfig ⟨name, metrics', scope'⟩ clock') := by
    refine parallel_ofConfig ?_ ?_
    · rintro _ rfl
      exact ⟨h, h'⟩
    · rintro _ rfl
      exact seen?_eq_seen? h h' fun gauge heq => (hread gauge heq).1
  refine (hstart.run (wellFormed_ofConfig _ _) (wellFormed_ofConfig _ _) steps ?_).2
  rintro step hmem _ rfl
  exact seen?_eq_seen? h h' fun gauge heq => (hread gauge heq).2 step hmem

end

/-- **Tracked metrics are independent.** Two timers whose top-level regions have the same name are
given the same orders, whatever they track, whatever their scopes, and at any clocks. At every step
they answer the same, say the same and have the same regions open. Each has the regions that were
entered or changed to, and those that were added to in a metric that it tracks, and nothing is
collected in the others. Of each metric that both track, the regions that both have hold the same if
the source of that metric told both the same, whatever the other sources said; counts have no source
and are always the same. -/
theorem metrics_independent (name : String) (metrics₁ metrics₂ : Metrics) (scope₁ scope₂ : Scope)
    (start₁ start₂ : Clock) (steps : List (Clock × Clock × Order)) :
    let orders₁ := steps.map fun step => (step.1, step.2.2)
    let orders₂ := steps.map fun step => (step.2.1, step.2.2)
    let timer₁ := ofConfig ⟨name, metrics₁, scope₁⟩ start₁
    let timer₂ := ofConfig ⟨name, metrics₂, scope₂⟩ start₂
    let later₁ := timer₁.after orders₁
    let later₂ := timer₂.after orders₂
    timer₁.course orders₁ = timer₂.course orders₂ ∧
      (∀ path, later₁.HasPath path ↔ path = [] ∨ path ∈ timer₁.reached orders₁) ∧
      (∀ path, later₂.HasPath path ↔ path = [] ∨ path ∈ timer₂.reached orders₂) ∧
      (∀ field : Field, field.tracked metrics₁ = false → later₁.Lacks field) ∧
      (∀ field : Field, field.tracked metrics₂ = false → later₂.Lacks field) ∧
      ∀ id₁ < later₁.nodes.size, ∀ id₂ < later₂.nodes.size, later₁.path id₁ = later₂.path id₂ →
        let region₁ := (later₁.node id₁).region
        let region₂ := (later₂.node id₂).region
        (metrics₁.count = true → metrics₂.count = true → region₁.count = region₂.count) ∧
          (metrics₁.wall = true → metrics₂.wall = true → start₁.wall = start₂.wall →
            (∀ step ∈ steps, step.1.wall = step.2.1.wall) → region₁.wall = region₂.wall) ∧
          (metrics₁.cpu = true → metrics₂.cpu = true →
            start₁.usage scope₁ = start₂.usage scope₂ →
            (∀ step ∈ steps, step.1.usage scope₁ = step.2.1.usage scope₂) →
            region₁.cpu = region₂.cpu ∧ region₁.reads = region₂.reads ∧
              region₁.writes = region₂.writes) := by
  intro orders₁ orders₂ timer₁ timer₂ later₁ later₂
  have wf₁ : timer₁.WellFormed := wellFormed_ofConfig _ _
  have wf₂ : timer₂.WellFormed := wellFormed_ofConfig _ _
  -- Without any field to compare, nothing is asked of the clocks.
  have hparallel : Parallel (fun _ => False) timer₁ timer₂ := parallel_ofConfig nofun nofun
  have hcourse := (hparallel.run wf₁ wf₂ steps fun _ _ _ => False.elim).1
  have hpaths₁ : ∀ path, later₁.HasPath path ↔ path = [] ∨ path ∈ timer₁.reached orders₁ := by
    intro path
    rw [hasPath_after wf₁, hasPath_ofConfig]
  have hpaths₂ : ∀ path, later₂.HasPath path ↔ path = [] ∨ path ∈ timer₂.reached orders₂ := by
    intro path
    rw [hasPath_after wf₂, hasPath_ofConfig]
  have hlacks₁ : ∀ field : Field, field.tracked metrics₁ = false → later₁.Lacks field :=
    fun field hfield => lacks_after wf₁ hfield (lacks_ofConfig _ hfield) orders₁
  have hlacks₂ : ∀ field : Field, field.tracked metrics₂ = false → later₂.Lacks field :=
    fun field hfield => lacks_after wf₂ hfield (lacks_ofConfig _ hfield) orders₂
  refine ⟨hcourse, hpaths₁, hpaths₂, hlacks₁, hlacks₂, ?_⟩
  intro id₁ hid₁ id₂ hid₂ hpath region₁ region₂
  have hof : ∀ field : Field, field.tracked metrics₁ = true → field.tracked metrics₂ = true →
      (∀ gauge : Gauge, field = .collected gauge →
        gauge.read scope₁ start₁ = gauge.read scope₂ start₂ ∧
          ∀ step ∈ steps, gauge.read scope₁ step.1 = gauge.read scope₂ step.2.1) →
      field.of region₁.totals = field.of region₂.totals := by
    intro field h₁ h₂ hread
    have hparallel : Parallel (· = field) later₁ later₂ := parallel_after h₁ h₂ steps hread
    exact hparallel.of_eq rfl hid₁ hid₂ hpath
  clear_value region₁ region₂
  refine ⟨fun hcount₁ hcount₂ => ?_, fun hwall₁ hwall₂ hstart hsteps => ?_,
    fun hcpu₁ hcpu₂ hstart hsteps => ?_⟩
  · exact Capped.ext (hof .entries hcount₁ hcount₂ nofun)
  · refine Capped.ext (hof (.collected .wall) hwall₁ hwall₂ ?_)
    rintro _ ⟨⟩
    exact ⟨congrArg Capped.val hstart, fun step hmem => congrArg Capped.val (hsteps step hmem)⟩
  · have husage : ∀ gauge : Gauge, gauge ≠ .wall → gauge.total region₁.totals =
        gauge.total region₂.totals := by
      intro gauge hgauge
      have htracked := Gauge.tracked_of_ne_wall hgauge
      refine hof (.collected gauge) ((htracked _).trans hcpu₁) ((htracked _).trans hcpu₂) ?_
      rintro _ ⟨⟩
      exact ⟨Gauge.read_eq_read_of_ne_wall hgauge hstart,
        fun step hmem => Gauge.read_eq_read_of_ne_wall hgauge (hsteps step hmem)⟩
    exact ⟨Capped.ext (husage .cpu nofun), Capped.ext (husage .reads nofun),
      Capped.ext (husage .writes nofun)⟩

end Profiler.Timer
