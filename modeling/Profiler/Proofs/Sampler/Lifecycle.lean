import Mathlib.Tactic.SplitIfs
import Profiler.Proofs.Sampler.Histogram
import Profiler.Sampler.Basic

/-!
# The life of a sampler

A sampler is given orders, each at a `Sampler.Moment` at which the clock and the frames of the
target are what they are. `Sampler.turn_follow` lists all that one order can come to; from it,
`Sampler.Life` is what a whole life has come to, and `Sampler.lifecycle` says how it went: a sampler
that can start does so when it is first told to, and stops when it is next told to. It does both
once at most and says so each time, and what it reports once it is stopped never changes again.
-/

namespace Profiler

/-- Where a sampler is in its life, apart from what it has at that point. -/
inductive Stage where
  | created
  | running
  | stopped
deriving DecidableEq

/-- How a life goes on. -/
inductive Stage.Moves : Stage → Stage → Prop
  | stays (stage : Stage) : Moves stage stage
  | starts : Moves created running
  | stops : Moves running stopped

namespace Phase

def stage : Phase → Stage
  | created => .created
  | running .. => .running
  | stopped .. => .stopped

/-- The samples that have been taken. -/
def samples : Phase → Histogram
  | created => .empty
  | running _ samples | stopped _ samples => samples

theorem exists_of_stopped {phase : Phase} (h : phase.stage = .stopped) :
    ∃ elapsed samples, phase = stopped elapsed samples := by
  cases phase with
  | stopped elapsed samples => exact ⟨elapsed, samples, rfl⟩
  | created | running _ _ => cases h

end Phase

/-- Whether a sampler says that it starts. -/
def Event.isStart : Event → Bool
  | samplerStarted .. => true
  | _ => false

/-- Whether a sampler says that it ends. -/
def Event.isExit : Event → Bool
  | samplerExiting .. => true
  | _ => false

/-- Whether an event is about the life of a sampler. -/
def Event.isVital (event : Event) : Bool := event.isStart || event.isExit

namespace Sampler

/-- What can be asked of a sampler. -/
inductive Order where
  | start
  | stop
  /-- Its interval is over some times. -/
  | wake (times : Nat)
  | dump

/-- An order, with the clock and the innermost frame of the target at its time. -/
structure Moment where
  clock : Clock
  top? : Option CallSite
  order : Order

/-- The events of an order and the sampler after it. -/
def follow (sampler : Sampler) (moment : Moment) : List Event × Sampler :=
  match moment.order with
  | .start => sampler.start moment.clock moment.top?
  | .stop => sampler.stop moment.clock
  | .wake times => ([], sampler.wakes moment.top? times)
  | .dump => (sampler.dump.2, sampler)

/-- The sampler after orders that are given one after the other. -/
def after (sampler : Sampler) : List Moment → Sampler
  | [] => sampler
  | moment :: rest => (sampler.follow moment).2.after rest

/-- The events of orders that are given one after the other. -/
def events (sampler : Sampler) : List Moment → List Event
  | [] => []
  | moment :: rest => (sampler.follow moment).1 ++ (sampler.follow moment).2.events rest

/-- How often a sampler looks at its target upon an order: once when it starts, and each time that
its interval is over while it is running. -/
def iterations (sampler : Sampler) : Order → Nat
  | .start =>
    if sampler.phase.stage = .created ∧ sampler.enabled ∧ sampler.startCrash? = none then 1 else 0
  | .wake times => if sampler.phase.stage = .running then times else 0
  | .stop | .dump => 0

/-- Whether a sampler can ever run: it is switched on, and its thread can have its name. -/
def CanStart (sampler : Sampler) : Prop :=
  sampler.enabled = true ∧ Thread.nameCrash? sampler.threadName = none

instance (sampler : Sampler) : Decidable sampler.CanStart :=
  inferInstanceAs (Decidable (_ ∧ _))

/-- The labels that a sampler sees at a moment. -/
def sees (sampler : Sampler) (moment : Moment) : List String :=
  (List.replicate (sampler.iterations moment.order) moment.top?).filterMap (·.map CallSite.label)

/-- The labels that a sampler sees upon orders that are given one after the other. -/
def seen (sampler : Sampler) : List Moment → List String
  | [] => []
  | moment :: rest => sampler.sees moment ++ (sampler.follow moment).2.seen rest

/-! ### One order -/

/-- Samples are recorded by their labels. -/
theorem foldl_sample (samples : Histogram) (tops : List (Option CallSite)) :
    tops.foldl sample samples =
      (tops.filterMap (·.map CallSite.label)).foldl Histogram.record samples := by
  induction tops generalizing samples with
  | nil => rfl
  | cons top? tops ih =>
    rw [List.foldl_cons, ih]
    cases top? <;> rfl

theorem canStart_iff {sampler : Sampler} (h : sampler.phase = .created) :
    sampler.CanStart ↔ sampler.enabled = true ∧ sampler.startCrash? = none :=
  and_congr_right fun henabled => by rw [startCrash?, h, if_pos henabled]

/-- A sampler that can start does so the first time, and takes a sample at once. -/
theorem start_eq (sampler : Sampler) (clock : Clock) (top? : Option CallSite) :
    sampler.start clock top? =
      if sampler.CanStart ∧ sampler.phase.stage = .created then
        ([.samplerStarted sampler.name sampler.target.name],
          { sampler with
            phase := .running clock.wall (Histogram.tally (top?.map CallSite.label).toList) })
      else ([], sampler) := by
  unfold start
  cases hphase : sampler.phase with
  | created =>
    have hsample : sample .empty top? = Histogram.tally (top?.map CallSite.label).toList := by
      cases top? <;> rfl
    simp only [← canStart_iff hphase, hsample, Phase.stage, and_true]
  | running _ _ | stopped _ _ => exact (if_neg fun h => nomatch h.2).symm

theorem wakes_of_not_running {sampler : Sampler} (h : sampler.phase.stage ≠ .running)
    (top? : Option CallSite) (times : Nat) : sampler.wakes top? times = sampler := by
  induction times with
  | zero => rfl
  | succ times ih =>
    have hwake : sampler.wake top? = sampler := by
      unfold wake
      split
      · next hphase => exact absurd (congrArg Phase.stage hphase) h
      · rfl
    rw [wakes, hwake, ih]

theorem wakes_of_running {sampler : Sampler} {startedAt : Duration} {samples : Histogram}
    (h : sampler.phase = .running startedAt samples) (top? : Option CallSite) (times : Nat) :
    sampler.wakes top? times = { sampler with
      phase := .running startedAt ((List.replicate times top?).foldl sample samples) } := by
  induction times generalizing sampler samples with
  | zero =>
    rw [wakes, List.replicate_zero, List.foldl_nil, ← h]
  | succ times ih =>
    have hwake : sampler.wake top? =
        { sampler with phase := .running startedAt (sample samples top?) } := by
      rw [wake, h]
    rw [wakes, hwake, ih rfl, List.replicate_succ, List.foldl_cons]

/-- All that an order can come to, with the labels that the sampler sees meanwhile. -/
inductive Turn (sampler : Sampler) : Moment → List Event → List String → Sampler → Prop
  | idle (moment : Moment) : Turn sampler moment [] [] sampler
  | starts {clock : Clock} {top? : Option CallSite} {labels : List String}
    (hphase : sampler.phase = .created) (henabled : sampler.enabled = true) :
    Turn sampler ⟨clock, top?, .start⟩ [.samplerStarted sampler.name sampler.target.name] labels
      { sampler with phase := .running clock.wall (labels.foldl .record .empty) }
  | wakes {clock : Clock} {top? : Option CallSite} {times : Nat} {labels : List String}
    {startedAt : Duration} {samples : Histogram}
    (hphase : sampler.phase = .running startedAt samples) :
    Turn sampler ⟨clock, top?, .wake times⟩ [] labels
      { sampler with phase := .running startedAt (labels.foldl .record samples) }
  | stops {clock : Clock} {top? : Option CallSite} {startedAt : Duration} {samples : Histogram}
    (hphase : sampler.phase = .running startedAt samples) :
    Turn sampler ⟨clock, top?, .stop⟩ [.samplerExiting sampler.name samples.size] []
      { sampler with phase := .stopped (clock.wall - startedAt) samples }
  | refuses {clock : Clock} {top? : Option CallSite} {startedAt : Duration} {samples : Histogram}
    (hphase : sampler.phase = .running startedAt samples) :
    Turn sampler ⟨clock, top?, .dump⟩ [.samplerBusy sampler.name] [] sampler

theorem turn_follow (sampler : Sampler) (moment : Moment) :
    sampler.Turn moment (sampler.follow moment).1 (sampler.sees moment)
      (sampler.follow moment).2 := by
  obtain ⟨clock, top?, order⟩ := moment
  unfold follow sees iterations
  cases order with
  | start =>
    dsimp only
    rw [start_eq]
    cases hphase : sampler.phase with
    | created =>
      by_cases hcan : sampler.CanStart
      · have hlabels : (top?.map CallSite.label).toList =
            [top?].filterMap (·.map CallSite.label) := by
          cases top? <;> rfl
        rw [if_pos ⟨hcan, rfl⟩, if_pos ⟨rfl, (canStart_iff hphase).mp hcan⟩, hlabels]
        exact .starts hphase hcan.1
      · rw [if_neg fun h => hcan h.1, if_neg fun h => hcan ((canStart_iff hphase).mpr h.2)]
        exact .idle _
    | running startedAt samples | stopped elapsed samples =>
      rw [if_neg fun h => nomatch h.2]
      exact .idle _
  | stop =>
    dsimp only
    cases hphase : sampler.phase with
    | running startedAt samples =>
      rw [stop, hphase]
      exact .stops hphase
    | created | stopped elapsed samples =>
      rw [stop, hphase]
      exact .idle _
  | wake times =>
    dsimp only
    cases hphase : sampler.phase with
    | running startedAt samples =>
      rw [wakes_of_running hphase, foldl_sample]
      exact .wakes hphase
    | created | stopped elapsed samples =>
      rw [wakes_of_not_running (by rw [hphase]; nofun)]
      exact .idle _
  | dump =>
    rw [dump, report]
    cases hphase : sampler.phase with
    | running startedAt samples => exact .refuses hphase
    | created | stopped elapsed samples => exact .idle _

theorem exists_turn (sampler : Sampler) (moment : Moment) :
    ∃ events labels later, sampler.follow moment = (events, later) ∧
      sampler.sees moment = labels ∧ sampler.Turn moment events labels later :=
  ⟨_, _, _, rfl, rfl, sampler.turn_follow moment⟩

/-! ### Whole lives -/

theorem after_append (sampler : Sampler) (before rest : List Moment) :
    sampler.after (before ++ rest) = (sampler.after before).after rest := by
  induction before generalizing sampler with
  | nil => rfl
  | cons moment before ih => exact ih (sampler.follow moment).2

theorem events_append (sampler : Sampler) (before : List Moment) (moment : Moment) :
    sampler.events (before ++ [moment]) =
      sampler.events before ++ ((sampler.after before).follow moment).1 := by
  induction before generalizing sampler with
  | nil => exact List.append_nil _
  | cons first before ih =>
    rw [List.cons_append, events, ih, events, List.append_assoc]
    rfl

theorem seen_append (sampler : Sampler) (before : List Moment) (moment : Moment) :
    sampler.seen (before ++ [moment]) =
      sampler.seen before ++ (sampler.after before).sees moment := by
  induction before generalizing sampler with
  | nil => exact List.append_nil _
  | cons first before ih =>
    rw [List.cons_append, seen, ih, seen, List.append_assoc]
    rfl

/-- At the clock the sampler went from one stage to another. -/
def Turned (made : Sampler) (course : List Moment) (stage next : Stage) (clock : Clock) : Prop :=
  ∃ before moment rest, course = before ++ moment :: rest ∧ moment.clock = clock ∧
    (made.after before).phase.stage = stage ∧ (made.after (before ++ [moment])).phase.stage = next

theorem Turned.append {made : Sampler} {course : List Moment} {stage next : Stage} {clock : Clock}
    (h : made.Turned course stage next clock) (rest : List Moment) :
    made.Turned (course ++ rest) stage next clock := by
  obtain ⟨before, moment, later, rfl, hturned⟩ := h
  exact ⟨before, moment, later ++ rest, by simp, hturned⟩

/-- What a life has come to, by the stage that it is at: what the sampler has said of its start and
its end, the labels that it has seen, and its phase. -/
inductive Life (made : Sampler) (course : List Moment) : List Event → List String → Phase → Prop
  | created : Life made course [] [] .created
  | running {first : Clock} (labels : List String) (henabled : made.enabled = true)
    (hstart : made.Turned course .created .running first) :
    Life made course [.samplerStarted made.name made.target.name] labels
      (.running first.wall (Histogram.tally labels))
  | stopped {first last : Clock} (labels : List String) (henabled : made.enabled = true)
    (hstart : made.Turned course .created .running first)
    (hstop : made.Turned course .running .stopped last) :
    Life made course [.samplerStarted made.name made.target.name,
        .samplerExiting made.name labels.dedup.length] labels
      (.stopped (last.wall - first.wall) (Histogram.tally labels))

theorem Life.append {made : Sampler} {course : List Moment} {said : List Event}
    {labels : List String} {phase : Phase} (h : made.Life course said labels phase)
    (rest : List Moment) : made.Life (course ++ rest) said labels phase := by
  cases h with
  | created => exact .created
  | running labels henabled hstart => exact .running labels henabled (hstart.append rest)
  | stopped labels henabled hstart hstop =>
    exact .stopped labels henabled (hstart.append rest) (hstop.append rest)

/-- One more order. -/
theorem Life.follow {made : Sampler} {course : List Moment} {said : List Event}
    {labels : List String} {phase : Phase} (h : made.Life course said labels phase)
    (hafter : made.after course = { made with phase }) (moment : Moment) :
    ∃ later, made.after (course ++ [moment]) = { made with phase := later } ∧
      made.Life (course ++ [moment])
        (said ++ ((made.after course).follow moment).1.filter Event.isVital)
        (labels ++ (made.after course).sees moment) later := by
  have hturn := (made.after course).turn_follow moment
  have hnow : made.after (course ++ [moment]) = ((made.after course).follow moment).2 :=
    made.after_append course [moment]
  have hturned : made.Turned (course ++ [moment]) (made.after course).phase.stage
      ((made.after course).follow moment).2.phase.stage moment.clock :=
    ⟨course, moment, [], rfl, rfl, rfl, by rw [hnow]⟩
  rw [hafter] at hturn hturned ⊢
  rw [hnow, hafter]
  -- What the turn is decides which stage the life has been at, and which one it goes on to.
  generalize (Sampler.follow { made with phase } moment).1 = events at hturn
  generalize Sampler.sees { made with phase } moment = more at hturn
  generalize (Sampler.follow { made with phase } moment).2 = later at hturn hturned
  cases hturn with
  | idle moment =>
    refine ⟨phase, rfl, ?_⟩
    rw [List.filter_nil, List.append_nil, List.append_nil]
    exact h.append _
  | starts hphase henabled =>
    obtain rfl : phase = .created := hphase
    cases h
    exact ⟨_, rfl, .running more henabled hturned⟩
  | @wakes _ _ _ _ startedAt samples hphase =>
    obtain rfl : phase = .running startedAt samples := hphase
    cases h with
    | running _ henabled hstart =>
      refine ⟨_, rfl, ?_⟩
      rw [List.filter_nil, List.append_nil, Histogram.tally, ← List.foldl_append]
      exact .running _ henabled (hstart.append _)
  | @stops _ _ startedAt samples hphase =>
    obtain rfl : phase = .running startedAt samples := hphase
    cases h with
    | running _ henabled hstart =>
      refine ⟨_, rfl, ?_⟩
      rw [List.append_nil, Histogram.size_tally]
      exact .stopped labels henabled (hstart.append _) hturned
  | @refuses _ _ startedAt samples hphase =>
    refine ⟨phase, rfl, ?_⟩
    rw [List.append_nil, show [Event.samplerBusy _].filter Event.isVital = [] from rfl,
      List.append_nil]
    exact h.append _

/-- **What a whole life has come to.** -/
theorem exists_life (made : Sampler) (hcreated : made.phase = .created) (course : List Moment) :
    ∃ phase, made.after course = { made with phase } ∧
      made.Life course ((made.events course).filter Event.isVital) (made.seen course) phase := by
  induction course using List.reverseRecOn with
  | nil => exact ⟨.created, by rw [after, ← hcreated], .created⟩
  | append_singleton course moment ih =>
    obtain ⟨phase, hafter, h⟩ := ih
    rw [events_append, List.filter_append, seen_append]
    exact h.follow hafter moment

/-! ### What can be told of a life -/

/-- Two elements come one after the other in a longer list if they do so already, or if the second
of them is the new one. -/
theorem pair_sublist_concat_iff {α : Type} {a b c : α} {l : List α} :
    [a, b].Sublist (l ++ [c]) ↔ [a, b].Sublist l ∨ a ∈ l ∧ b = c := by
  have hreverse : [a, b].Sublist l ↔ [b, a].Sublist l.reverse := List.reverse_sublist.symm
  have hsingle : [a].Sublist l.reverse ↔ a ∈ l := by
    rw [List.singleton_sublist, List.mem_reverse]
  rw [hreverse, ← hsingle, and_comm, ← List.cons_sublist_cons', ← List.reverse_sublist,
    List.reverse_concat']
  rfl

theorem moves_follow (sampler : Sampler) (moment : Moment) :
    Stage.Moves sampler.phase.stage (sampler.follow moment).2.phase.stage := by
  obtain ⟨events, labels, later, hfollow, -, hturn⟩ := sampler.exists_turn moment
  rw [hfollow]
  cases hturn with
  | idle _ | refuses _ => exact .stays _
  | starts hphase _ => rw [hphase]; exact .starts
  | wakes hphase => rw [hphase]; exact .stays _
  | stops hphase => rw [hphase]; exact .stops

/-- The stage that an order leads to. -/
theorem stage_follow (sampler : Sampler) (moment : Moment) :
    (sampler.follow moment).2.phase.stage =
      match moment.order, sampler.phase.stage with
      | .start, .created => if sampler.CanStart then .running else .created
      | .stop, .running => .stopped
      | _, stage => stage := by
  obtain ⟨clock, top?, order⟩ := moment
  rw [follow]
  cases order with
  | start =>
    dsimp only
    rw [start_eq]
    cases hphase : sampler.phase with
    | created =>
      simp only [Phase.stage, and_true]
      split_ifs
      · rfl
      · rw [hphase]
    | running startedAt samples | stopped elapsed samples =>
      rw [if_neg fun hstarts => nomatch hstarts.2]
      exact congrArg Phase.stage hphase
  | stop =>
    dsimp only
    rw [stop]
    cases hphase : sampler.phase with
    | running startedAt samples => rfl
    | created | stopped elapsed samples => exact congrArg Phase.stage hphase
  | wake times =>
    dsimp only
    cases hphase : sampler.phase with
    | running startedAt samples =>
      rw [wakes_of_running hphase]
      rfl
    | created | stopped elapsed samples =>
      rw [wakes_of_not_running (by rw [hphase]; nofun), hphase]
  | dump => cases hphase : sampler.phase <;> rfl

theorem created_follow_iff (sampler : Sampler) (moment : Moment) :
    (sampler.follow moment).2.phase.stage = .created ↔
      sampler.phase.stage = .created ∧ ¬ (sampler.CanStart ∧ moment.order = .start) := by
  rw [stage_follow]
  cases moment.order <;> cases sampler.phase.stage <;> simp

theorem stopped_follow_iff (sampler : Sampler) (moment : Moment) :
    (sampler.follow moment).2.phase.stage = .stopped ↔
      sampler.phase.stage = .stopped ∨ sampler.phase.stage = .running ∧ moment.order = .stop := by
  rw [stage_follow]
  cases moment.order <;> cases sampler.phase.stage <;> simp [ite_eq_iff]

/-- A sampler says that it ends when it does. -/
theorem isExit_follow_iff (sampler : Sampler) (moment : Moment) :
    (∃ event ∈ (sampler.follow moment).1, event.isExit) ↔
      sampler.phase.stage = .running ∧ (sampler.follow moment).2.phase.stage = .stopped := by
  obtain ⟨events, labels, later, hfollow, -, hturn⟩ := sampler.exists_turn moment
  rw [hfollow]
  cases hturn with
  | idle _ =>
    refine ⟨fun ⟨_, hmem, _⟩ => (nomatch hmem), fun ⟨hrunning, hstopped⟩ => ?_⟩
    rw [hrunning] at hstopped
    cases hstopped
  | starts hphase _ => simp [hphase, Event.isExit, Phase.stage]
  | wakes hphase => simp [hphase, Phase.stage]
  | stops hphase => simp [hphase, Event.isExit, Phase.stage]
  | refuses hphase => simp [hphase, Event.isExit, Phase.stage]

/-- Once a sampler is stopped, nothing changes it any more. -/
theorem after_of_stopped {sampler : Sampler} (h : sampler.phase.stage = .stopped)
    (rest : List Moment) : sampler.after rest = sampler := by
  induction rest with
  | nil => rfl
  | cons moment rest ih =>
    obtain ⟨events, labels, later, hfollow, -, hturn⟩ := sampler.exists_turn moment
    rw [after, hfollow]
    cases hturn with
    | idle _ | refuses _ => exact ih
    | starts hphase _ | wakes hphase | stops hphase => rw [hphase] at h; cases h

section

variable {made : Sampler} (hcreated : made.phase = .created) (course : List Moment)
include hcreated

theorem canStart_after_iff : (made.after course).CanStart ↔ made.CanStart := by
  obtain ⟨phase, hafter, -⟩ := made.exists_life hcreated course
  rw [hafter]
  exact Iff.rfl

/-- A sampler that can start does so when it is told to. -/
theorem created_after_iff : (made.after course).phase.stage = .created ↔
    ¬ (made.CanStart ∧ .start ∈ course.map Moment.order) := by
  induction course using List.reverseRecOn with
  | nil => simp [after, hcreated, Phase.stage]
  | append_singleton course moment ih =>
    rw [after_append, after, after, created_follow_iff, ih, canStart_after_iff hcreated,
      List.map_append, List.mem_append, List.map_singleton, List.mem_singleton,
      eq_comm (a := Order.start)]
    tauto

/-- A sampler that was started is stopped when it is told to. -/
theorem stopped_after_iff : (made.after course).phase.stage = .stopped ↔
    made.CanStart ∧ [Order.start, .stop].Sublist (course.map Moment.order) := by
  induction course using List.reverseRecOn with
  | nil => simp [after, hcreated, Phase.stage]
  | append_singleton course moment ih =>
    have hbegun := created_after_iff hcreated course
    rw [after_append, after, after, stopped_follow_iff, List.map_append, List.map_singleton,
      pair_sublist_concat_iff, eq_comm (a := Order.stop)]
    constructor
    · rintro (hstopped | ⟨hrunning, hstop⟩)
      · exact (ih.mp hstopped).imp_right .inl
      · obtain ⟨hcan, hstart⟩ : made.CanStart ∧ .start ∈ course.map Moment.order := by
          by_contra hnot
          rw [hbegun.mpr hnot] at hrunning
          cases hrunning
        exact ⟨hcan, .inr ⟨hstart, hstop⟩⟩
    · rintro ⟨hcan, hbefore | ⟨hstart, hstop⟩⟩
      · exact .inl (ih.mpr ⟨hcan, hbefore⟩)
      · cases hstage : (made.after course).phase.stage with
        | created => exact absurd ⟨hcan, hstart⟩ (hbegun.mp hstage)
        | running => exact .inr ⟨rfl, hstop⟩
        | stopped => exact .inl rfl

end

/-- To stop a sampler is to end it if it is running. -/
theorem isExit_stop_iff (sampler : Sampler) (clock : Clock) :
    (∃ event ∈ (sampler.stop clock).1, event.isExit) ↔ sampler.phase.stage = .running := by
  unfold stop
  cases hphase : sampler.phase <;> simp [Phase.stage, Event.isExit]

theorem dump_error_iff (sampler : Sampler) :
    (∃ fault, sampler.dump.1 = .error fault) ↔ sampler.phase.stage = .running := by
  rw [dump, report]
  cases hphase : sampler.phase <;> simp [Phase.stage]

theorem dump_of_running {sampler : Sampler} (h : sampler.phase.stage = .running) :
    sampler.dump = (.error (.samplerRunning sampler.name), [.samplerBusy sampler.name]) := by
  rw [dump, report]
  cases hphase : sampler.phase with
  | running startedAt samples => rfl
  | created | stopped elapsed samples => rw [hphase] at h; cases h

theorem dump_of_created {sampler : Sampler} (h : sampler.phase.stage = .created) :
    sampler.dump = (.ok ⟨sampler.name, 0, []⟩, []) := by
  rw [dump, report]
  cases hphase : sampler.phase with
  | created =>
    rw [SampleReport.ofHistogram, Histogram.ranked, Keyed.empty, List.mergeSort_nil]
  | running startedAt samples | stopped elapsed samples => rw [hphase] at h; cases h

theorem countP_filter_isVital (events : List Event) (p : Event → Bool)
    (h : ∀ event, p event → event.isVital) :
    (events.filter Event.isVital).countP p = events.countP p := by
  rw [List.countP_filter]
  refine List.countP_congr fun event _ => ?_
  rw [Bool.and_eq_true]
  exact and_iff_left_of_imp (h event)

/-- What a sampler has said once it is given up. -/
theorem Life.stop {made : Sampler} {course : List Moment} {said : List Event}
    {labels : List String} {phase : Phase} (h : made.Life course said labels phase)
    (clock : Clock) :
    said ++ (Sampler.stop { made with phase } clock).1.filter Event.isVital =
      if phase.stage = .created then []
      else [.samplerStarted made.name made.target.name,
        .samplerExiting made.name labels.dedup.length] := by
  cases h with
  | created => rfl
  | running _ _ _ =>
    rw [if_neg nofun, ← Histogram.size_tally]
    rfl
  | stopped _ _ _ _ =>
    rw [if_neg nofun]
    rfl

/-- A sampler has said that it starts and not yet that it ends just while it is running. -/
theorem Life.countP_lt_iff {made : Sampler} {course : List Moment} {said : List Event}
    {labels : List String} {phase : Phase} (h : made.Life course said labels phase) :
    said.countP Event.isExit < said.countP Event.isStart ↔ phase.stage = .running := by
  cases h <;> simp [List.countP_cons, Event.isStart, Event.isExit, Phase.stage]

theorem Life.created_of_disabled {made : Sampler} {course : List Moment} {said : List Event}
    {labels : List String} {phase : Phase} (h : made.Life course said labels phase)
    (hdisabled : made.enabled = false) : phase.stage = .created := by
  cases h with
  | created => rfl
  | running _ henabled _ | stopped _ henabled _ _ => rw [hdisabled] at henabled; cases henabled

theorem Life.exists_turned {made : Sampler} {course : List Moment} {said : List Event}
    {labels : List String} {phase : Phase} (h : made.Life course said labels phase)
    (hstopped : phase.stage = .stopped) :
    ∃ first last, made.Turned course .created .running first ∧
      made.Turned course .running .stopped last ∧
      phase = .stopped (last.wall - first.wall) (.tally labels) := by
  cases h with
  | created | running _ _ _ => cases hstopped
  | stopped _ _ hstart hstop => exact ⟨_, _, hstart, hstop, rfl⟩

/-- The life of a sampler until it is given up, which is to stop it. -/
structure Lifecycle (made : Sampler) (course : List Moment) (giveUp : Clock) : Prop where
  moves : ∀ before moment rest, course = before ++ moment :: rest →
    Stage.Moves (made.after before).phase.stage (made.after (before ++ [moment])).phase.stage
  /-- Its thread has said that it starts and not yet that it ends just while it is running. -/
  works_iff : (made.events course).countP Event.isExit < (made.events course).countP Event.isStart ↔
    (made.after course).phase.stage = .running
  created_of_disabled : made.enabled = false → (made.after course).phase.stage = .created
  /-- The first order to start is the one that counts. The sampler says so, and takes a sample. -/
  follow_start : ∀ clock top?, (made.after course).follow ⟨clock, top?, .start⟩ =
    if made.CanStart ∧ (made.after course).phase.stage = .created then
      ([.samplerStarted made.name made.target.name],
        { made with phase := .running clock.wall (.tally (top?.map CallSite.label).toList) })
    else ([], made.after course)
  created_iff : (made.after course).phase.stage = .created ↔
    ¬ (made.CanStart ∧ .start ∈ course.map Moment.order)
  stopped_iff : (made.after course).phase.stage = .stopped ↔
    made.CanStart ∧ [Order.start, .stop].Sublist (course.map Moment.order)
  refuses_iff : (∃ fault, (made.after course).dump.1 = .error fault) ↔
    (made.after course).phase.stage = .running
  dump_of_running : (made.after course).phase.stage = .running →
    (made.after course).dump = (.error (.samplerRunning made.name), [.samplerBusy made.name])
  follow_dump : ∀ clock top?, (made.after course).follow ⟨clock, top?, .dump⟩ =
    ((made.after course).dump.2, made.after course)
  dump_of_created : (made.after course).phase.stage = .created →
    (made.after course).dump = (.ok ⟨made.name, 0, []⟩, [])
  /-- Whatever comes later, the report is the same, on the time from its start to its stop. -/
  dump_of_stopped : (made.after course).phase.stage = .stopped →
    ∃ first last, made.Turned course .created .running first ∧
      made.Turned course .running .stopped last ∧
      ∀ later, (made.after (course ++ later)).dump =
        (.ok (.ofHistogram made.name (last.wall - first.wall) (.tally (made.seen course))), [])
  /-- If it was ever started, it says so once, and once that it ends. -/
  vital_eq : (made.events course ++ ((made.after course).stop giveUp).1).filter Event.isVital =
    if (made.after course).phase.stage = .created then []
    else [.samplerStarted made.name made.target.name,
      .samplerExiting made.name (made.seen course).dedup.length]
  /-- It says that it ends when it is stopped, or given up while it is running. -/
  exits_iff : ∀ before moment rest, course = before ++ moment :: rest →
    ((∃ event ∈ ((made.after before).follow moment).1, event.isExit) ↔
      (made.after before).phase.stage = .running ∧
        (made.after (before ++ [moment])).phase.stage = .stopped)
  exits_giveUp_iff : (∃ event ∈ ((made.after course).stop giveUp).1, event.isExit) ↔
    (made.after course).phase.stage = .running

/-- **The life of a sampler**, whatever it is asked in whatever order, with any clock and whatever
its target does. -/
theorem lifecycle (name : String) (interval : Duration) (target : ObservedThread) (enabled : Bool)
    (course : List Moment) (giveUp : Clock) :
    Lifecycle { name, interval, target, enabled } course giveUp := by
  set made : Sampler := { name, interval, target, enabled }
  obtain ⟨phase, hafter, hlife⟩ := made.exists_life rfl course
  have hstep (before : List Moment) (moment : Moment) :
      made.after (before ++ [moment]) = ((made.after before).follow moment).2 :=
    made.after_append before [moment]
  refine
    { moves := fun before moment rest _ => ?_
      works_iff := ?_
      created_of_disabled := fun hdisabled => ?_
      follow_start := fun clock top? => ?_
      created_iff := created_after_iff rfl course
      stopped_iff := stopped_after_iff rfl course
      refuses_iff := dump_error_iff _
      dump_of_running := fun hrunning => ?_
      follow_dump := fun clock top? => rfl
      dump_of_created := fun hcreated => ?_
      dump_of_stopped := fun hstopped => ?_
      vital_eq := ?_
      exits_iff := fun before moment rest _ => ?_
      exits_giveUp_iff := isExit_stop_iff _ giveUp }
  · rw [hstep]
    exact moves_follow _ moment
  · -- Starts and ends can be counted among the vital events, which the life tells.
    have hstart := countP_filter_isVital (made.events course) Event.isStart fun event h => by
      rw [Event.isVital, h, Bool.true_or]
    have hexit := countP_filter_isVital (made.events course) Event.isExit fun event h => by
      rw [Event.isVital, h, Bool.or_true]
    rw [← hstart, ← hexit, hafter]
    exact hlife.countP_lt_iff
  · rw [hafter]
    exact hlife.created_of_disabled hdisabled
  · rw [hafter]
    exact start_eq { made with phase } clock top?
  · rw [Sampler.dump_of_running hrunning, hafter]
  · rw [Sampler.dump_of_created hcreated, hafter]
  · have hsame : ∀ later, made.after (course ++ later) = { made with phase } := fun later => by
      rw [after_append, after_of_stopped hstopped, hafter]
    rw [hafter] at hstopped
    obtain ⟨first, last, hstart, hstop, rfl⟩ := hlife.exists_turned hstopped
    refine ⟨first, last, hstart, hstop, fun later => ?_⟩
    rw [hsame]
    rfl
  · rw [List.filter_append, hafter]
    exact hlife.stop giveUp
  · rw [hstep]
    exact isExit_follow_iff _ moment

/-- A sampler is asked for its report before it has started, while it is running and once it is
stopped, and is started a second time. -/
theorem lifecycle_stopped :
    let read : Option CallSite := some ⟨"Reader", "read"⟩
    let write : Option CallSite := some ⟨"Writer", "write"⟩
    let course : List Moment :=
      [⟨{ wall := .ofNat 3 }, none, .dump⟩, ⟨{ wall := .ofNat 5 }, write, .start⟩,
        ⟨{ wall := .ofNat 6 }, write, .wake 1⟩, ⟨{ wall := .ofNat 7 }, none, .wake 3⟩,
        ⟨{ wall := .ofNat 8 }, read, .wake 1⟩, ⟨{ wall := .ofNat 9 }, read, .dump⟩,
        ⟨{ wall := .ofNat 12 }, read, .stop⟩, ⟨{ wall := .ofNat 20 }, read, .start⟩,
        ⟨{ wall := .ofNat 21 }, read, .wake 1⟩]
    let made : Sampler := ⟨"hot", defaultInterval, ⟨0, "main"⟩, true, .created⟩
    made.Lifecycle course {} ∧ made.CanStart ∧ (made.after course).phase.stage = .stopped ∧
      made.events course = [.samplerStarted "hot" "main", .samplerBusy "hot",
        .samplerExiting "hot" 2] ∧
      ∃ report : SampleReport, (made.after course).dump = (.ok report, []) ∧
        report.elapsed = .ofNat 7 ∧ report.count "Reader.read" = .ofNat 1 ∧
        report.count "Writer.write" = .ofNat 2 := by
  intro read write course made
  have hlife := lifecycle "hot" defaultInterval ⟨0, "main"⟩ true course {}
  have hstopped : (made.after course).phase.stage = .stopped := by decide +kernel
  have helapsed : (made.after course).dump.1.map SampleReport.elapsed = .ok (.ofNat 7) := by
    decide +kernel
  have hseen : made.seen course = ["Writer.write", "Writer.write", "Reader.read"] := by
    decide +kernel
  obtain ⟨first, last, -, -, hsame⟩ := hlife.dump_of_stopped hstopped
  have hdump := hsame []
  rw [List.append_nil, hseen] at hdump
  rw [hdump] at helapsed
  refine ⟨hlife, by decide +kernel, hstopped, by decide +kernel, _, hdump,
    Except.ok.inj helapsed, ?_, ?_⟩
  · rw [SampleReport.count_tally]
    decide +kernel
  · rw [SampleReport.count_tally]
    decide +kernel

end Sampler

end Profiler
