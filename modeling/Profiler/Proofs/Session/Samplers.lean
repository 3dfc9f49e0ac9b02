import Profiler.Proofs.Sampler.Lifecycle
import Profiler.Proofs.Session.Parts

/-!
# What samplers see of the threads of a session

`Session.glimpsed` keeps a record of the target of a sampler as it was each time that the sampler
looked at it, and `Session.glimpsedAfter` does so along the steps of a session, in which the target
may enter functions, leave them and end at any time. What the sampler reports once it is stopped is
what can be told from this record (`Session.report_exact`).
-/

namespace Profiler

/-- The label of the innermost frame of a thread, of which a thread that has ended has none. -/
def Thread.label? (thread : Thread) : Option String := thread.top?.map CallSite.label

theorem Thread.label?_eq_some_iff (thread : Thread) (label : String) :
    thread.label? = some label ↔
      thread.alive ∧ thread.stack.top?.map CallSite.label = some label := by
  rw [label?, top?]
  split_ifs with halive <;> simp [halive]

namespace Sampler

/-- The samples after an order are the earlier ones with what the sampler has seen. -/
theorem samples_follow (sampler : Sampler) (moment : Moment) :
    (sampler.follow moment).2.phase.samples =
      (sampler.sees moment).foldl .record sampler.phase.samples := by
  obtain ⟨events, labels, later, hfollow, hsees, hturn⟩ := sampler.exists_turn moment
  rw [hfollow, hsees]
  cases hturn with
  | idle _ | refuses _ => rfl
  | starts hphase _ | wakes hphase | stops hphase => rw [hphase]; rfl

theorem start_of_startCrash {sampler : Sampler} {message : String}
    (h : sampler.startCrash? = some message) (clock : Clock) (top? : Option CallSite) :
    sampler.start clock top? = ([], sampler) := by
  unfold start
  rw [h]
  cases sampler.phase with
  | created => exact if_neg fun hstarts => nomatch hstarts.2
  | running _ _ | stopped _ _ => rfl

end Sampler

namespace Session

/-! ### The record -/

/-- The order that an action gives to the sampler under a key. -/
def SamplerAction.order? : SamplerAction → Option (String × Sampler.Order)
  | start key => some (key, .start)
  | stop key => some (key, .stop)
  | wake key times => some (key, .wake times)
  | dump key _ => some (key, .dump)
  | create .. | inspect _ | discard _ => none

/-- The moment of an order that is given to a sampler now. -/
def moment (session : Session) (sampler : Sampler) (order : Sampler.Order) : Sampler.Moment :=
  ⟨session.clock, session.top? sampler.target.id, order⟩

/-- The target of a sampler, as often as the sampler looks at it upon an order. -/
def glimpses (session : Session) (order : Sampler.Order) (sampler : Sampler) : List Thread :=
  .replicate (sampler.iterations order) (session.thread sampler.target.id)

/-- The record on the sampler under `key` after an action that gives no order. A new sampler has a
new record. -/
def renewed (session : Session) (key : String) (record : List Thread) (thread : ThreadId) :
    SamplerAction → List Thread
  | .create other plan started =>
    if other ≠ key then record
    else if started then
      match (session.plan thread plan).startCrash? with
      | some _ => record
      | none => session.glimpses .start (session.plan thread plan)
    else []
  | .discard other => if other = key then [] else record
  | _ => record

/-- The record on the sampler under `key` after an action that concerns samplers. -/
def glimpsed (session : Session) (key : String) (record : List Thread) (thread : ThreadId)
    (action : SamplerAction) : List Thread :=
  match action.order? with
  | some (other, order) =>
    if other = key then record ++ ((session.samplers.get? key).map (session.glimpses order)).getD []
    else record
  | none => session.renewed key record thread action

/-- The record on the sampler under `key` after steps that are taken one after the other. -/
def glimpsedAfter (session : Session) (key : String) (record : List Thread) :
    List Step → List Thread
  | [] => record
  | step :: rest =>
    let seen := match step.action with
      | .sampler action => session.glimpsed key record (session.threadId step.thread) action
      | _ => record
    (session.step step).2.glimpsedAfter key seen rest

/-! ### Steps -/

/-- What a sampler sees is what can be told of the glimpses. -/
theorem sees_moment (session : Session) (sampler : Sampler) (order : Sampler.Order) :
    sampler.sees (session.moment sampler order) =
      (session.glimpses order sampler).filterMap Thread.label? := by
  rw [Sampler.sees, glimpses, moment, top?]
  dsimp only
  rw [← List.map_replicate, List.filterMap_map]
  rfl

/-- The samplers under all keys, if the one under `other` follows an order. -/
def Ordered (session : Session) (other : String) (order : Sampler.Order) (later : Session) : Prop :=
  ∀ key, later.samplers.get? key =
    if other = key then
      (session.samplers.get? key).map fun sampler =>
        (sampler.follow (session.moment sampler order)).2
    else session.samplers.get? key

theorem Ordered.of_kept {session : Session} {other : String} {order : Sampler.Order}
    (h : ∀ sampler, session.samplers.get? other = some sampler →
      (sampler.follow (session.moment sampler order)).2 = sampler) :
    session.Ordered other order session := by
  intro key
  split_ifs with hkey
  · subst hkey
    cases hget : session.samplers.get? other with
    | none => rfl
    | some sampler => rw [Option.map_some, h sampler hget]
  · rfl

theorem Ordered.of_changed {session : Session} {other : String} {order : Sampler.Order}
    {sampler : Sampler} (h : session.samplers.get? other = some sampler) :
    session.Ordered other order
      (session.setSampler other (sampler.follow (session.moment sampler order)).2) := by
  intro key
  rw [setSampler, Keyed.get?_insert]
  split_ifs with hkey hkey' hkey'
  · rw [← hkey', h, Option.map_some]
  · exact absurd hkey.symm hkey'
  · exact absurd hkey'.symm hkey
  · rfl

theorem ordered_changeSampler (session : Session) (other : String) (order : Sampler.Order)
    {change : Sampler → List Event × Sampler}
    (h : ∀ sampler, change sampler = sampler.follow (session.moment sampler order)) :
    session.Ordered other order (session.changeSampler other change).2 := by
  unfold changeSampler
  cases hget : session.samplers.get? other with
  | none => exact .of_kept fun sampler hsome => by rw [hget] at hsome; cases hsome
  | some sampler =>
    dsimp only
    rw [h]
    exact .of_changed hget

/-- **An order changes the sampler that it is given to** and no other. -/
theorem ordered_samplerStep (session : Session) (thread : ThreadId) {action : SamplerAction}
    {other : String} {order : Sampler.Order} (h : action.order? = some (other, order)) :
    session.Ordered other order (session.samplerStep thread action).2 := by
  cases action with
  | start target =>
    obtain ⟨rfl, rfl⟩ : target = other ∧ Sampler.Order.start = order := by
      simpa [SamplerAction.order?] using h
    unfold samplerStep
    dsimp only
    split
    · next message hcrash =>
      -- A sampler whose start is a crash does not start when it is told to, either.
      refine .of_kept fun sampler hget => ?_
      rw [hget, Option.bind_some] at hcrash
      exact congrArg Prod.snd (sampler.start_of_startCrash hcrash _ _)
    · exact session.ordered_changeSampler target .start fun sampler => rfl
  | stop target =>
    obtain ⟨rfl, rfl⟩ : target = other ∧ Sampler.Order.stop = order := by
      simpa [SamplerAction.order?] using h
    exact session.ordered_changeSampler target .stop fun sampler => rfl
  | wake target times =>
    obtain ⟨rfl, rfl⟩ : target = other ∧ Sampler.Order.wake times = order := by
      simpa [SamplerAction.order?] using h
    unfold samplerStep
    dsimp only
    cases hget : session.samplers.get? target with
    | none => exact .of_kept fun sampler hsome => by rw [hget] at hsome; cases hsome
    | some sampler => exact .of_changed hget
  | dump target labels =>
    obtain ⟨rfl, rfl⟩ : target = other ∧ Sampler.Order.dump = order := by
      simpa [SamplerAction.order?] using h
    unfold samplerStep
    dsimp only
    split <;> exact .of_kept fun sampler _ => rfl
  | create _ _ _ | inspect _ | discard _ => cases h

theorem samplers_threadStep (session : Session) (action : ThreadAction) :
    (session.threadStep action).2.samplers = session.samplers := by
  unfold threadStep
  cases action <;> dsimp only <;> split <;> rfl

theorem samplers_stackStep (session : Session) (thread : ThreadId) (action : StackAction) :
    (session.stackStep thread action).2.samplers = session.samplers := by
  unfold stackStep
  cases action with
  | push _ _ | observe _ | compare _ => rfl
  | endFrame _ | look _ => dsimp only; split <;> rfl

/-- The samples of the sampler under `key` are those of the record. -/
def Tallied (session : Session) (key : String) (record : List Thread) : Prop :=
  ∀ sampler, session.samplers.get? key = some sampler →
    sampler.phase.samples = .tally (record.filterMap Thread.label?)

theorem Tallied.of_samplers_eq {session later : Session} {key : String} {record : List Thread}
    (h : session.Tallied key record) (heq : later.samplers = session.samplers) :
    later.Tallied key record := by
  unfold Tallied
  rw [heq]
  exact h

theorem Tallied.of_setSampler {session : Session} {key : String} {record : List Thread}
    {sampler : Sampler} (h : sampler.phase.samples = .tally (record.filterMap Thread.label?)) :
    (session.setSampler key sampler).Tallied key record := by
  intro last hlast
  rw [setSampler, Keyed.get?_insert, if_pos rfl] at hlast
  obtain rfl := Option.some.inj hlast
  exact h

theorem Tallied.setSampler_of_ne {session : Session} {key other : String} {record : List Thread}
    (h : session.Tallied key record) (hne : other ≠ key) (sampler : Sampler) :
    (session.setSampler other sampler).Tallied key record := by
  intro last hlast
  rw [setSampler, Keyed.get?_insert, if_neg (Ne.symm hne)] at hlast
  exact h last hlast

/-- A new sampler has nothing but what it sees at its start. -/
theorem samples_startSampler {session : Session} {created : Sampler}
    (h : created.phase = .created) :
    (session.startSampler created).2.phase.samples =
      .tally ((session.glimpses .start created).filterMap Thread.label?) := by
  have hstart := created.samples_follow (session.moment created .start)
  rw [sees_moment, h] at hstart
  exact hstart

theorem Tallied.renewed {session : Session} {key : String} {record : List Thread}
    (h : session.Tallied key record) (thread : ThreadId) {action : SamplerAction}
    (horder : action.order? = none) :
    (session.samplerStep thread action).2.Tallied key
      (session.renewed key record thread action) := by
  cases action with
  | create other plan started =>
    unfold Session.renewed
    dsimp only
    by_cases hkey : other = key
    · subst hkey
      rw [if_neg (not_not_intro rfl)]
      cases started with
      | false =>
        exact .of_setSampler rfl
      | true =>
        rw [if_pos rfl]
        unfold samplerStep
        dsimp only
        cases (session.plan thread plan).startCrash? with
        | some message => exact h
        | none => exact .of_setSampler (samples_startSampler rfl)
    · rw [if_pos hkey]
      cases started with
      | false => exact h.setSampler_of_ne hkey _
      | true =>
        unfold samplerStep
        dsimp only
        split
        · exact h
        · exact h.setSampler_of_ne hkey _
  | inspect other =>
    unfold samplerStep changeSampler
    dsimp only
    cases hget : session.samplers.get? other with
    | none => exact h
    | some sampler =>
      by_cases hkey : other = key
      · subst hkey
        exact .of_setSampler (h sampler hget)
      · exact h.setSampler_of_ne hkey sampler
  | discard other =>
    intro last hlast
    have herase : (session.samplers.erase other).get? key = some last := hlast
    rw [Keyed.get?_erase] at herase
    split_ifs at herase with hkey
    unfold Session.renewed
    dsimp only
    rw [if_neg (Ne.symm hkey)]
    exact h last herase
  | start _ | stop _ | wake _ _ | dump _ _ => cases horder

theorem Tallied.glimpsed {session : Session} {key : String} {record : List Thread}
    (h : session.Tallied key record) (thread : ThreadId) (action : SamplerAction) :
    (session.samplerStep thread action).2.Tallied key
      (session.glimpsed key record thread action) := by
  intro last hlast
  unfold Session.glimpsed
  cases horder : action.order? with
  | some given =>
    obtain ⟨other, order⟩ := given
    rw [session.ordered_samplerStep thread horder key] at hlast
    dsimp only
    split_ifs at hlast ⊢ with hkey
    · -- What the sampler has seen is recorded after what it had seen before.
      obtain ⟨sampler, hget, rfl⟩ := Option.map_eq_some_iff.mp hlast
      rw [hget, Option.map_some, Option.getD_some, Sampler.samples_follow, sees_moment,
        h sampler hget, List.filterMap_append, Histogram.tally, Histogram.tally, List.foldl_append]
    · exact h last hlast
  | none => exact h.renewed thread horder last hlast

theorem Tallied.after {session : Session} {key : String} {record : List Thread}
    (h : session.Tallied key record) (steps : List Step) :
    (session.after steps).Tallied key (session.glimpsedAfter key record steps) := by
  induction steps generalizing session record with
  | nil => exact h
  | cons step steps ih =>
    refine ih ?_
    obtain ⟨thread, action⟩ := step
    match action with
    | .sampler action => exact h.glimpsed _ action
    | .thread action => exact h.of_samplers_eq (session.samplers_threadStep action)
    | .stack action => exact h.of_samplers_eq (session.samplers_stackStep _ action)
    | .clock _ | .recall _ | .handle _ | .request _ _ | .channel _ =>
      exact h.of_samplers_eq (session.sameThreads_step rfl).samplers_eq

/-! ### Reports -/

/-- The report on a sampler that is stopped can be had at any time. -/
theorem answer_dump {session : Session} {key : String} {sampler : Sampler} {elapsed : Duration}
    {samples : Histogram} (h : session.samplers.get? key = some sampler)
    (hstopped : sampler.phase = .stopped elapsed samples) (thread : String) (labels : List String) :
    let report := SampleReport.ofHistogram sampler.name elapsed samples
    (session.step ⟨thread, .sampler (.dump key labels)⟩).1.answer =
      .samples (.ok (report, labels.map report.count)) := by
  have hdump : sampler.dump = (.ok (.ofHistogram sampler.name elapsed samples), []) := by
    rw [Sampler.dump, Sampler.report, hstopped]
  show (session.samplerStep (session.threadId thread) (.dump key labels)).1.answer = _
  rw [samplerStep, h]
  dsimp only
  rw [hdump]
  rfl

/-- **Samplers count exactly.** From when a sampler has begun to run, whatever is done by all
threads, its report is what can be told of its target at the times that it looked. A label is
counted as often as the target was alive then and its innermost frame had the label. -/
theorem report_exact (session : Session) (key : String) (sampler : Sampler) (startedAt : Duration)
    (steps : List Step) {last : Sampler} :
    let begun := session.setSampler key { sampler with phase := .running startedAt .empty }
    let record := begun.glimpsedAfter key [] steps
    let now := begun.after steps
    now.samplers.get? key = some last → last.phase.stage = .stopped →
      ∃ (report : SampleReport) (samples : Histogram),
        (∀ thread labels, (now.step ⟨thread, .sampler (.dump key labels)⟩).1.answer =
          .samples (.ok (report, labels.map report.count))) ∧
        report.name = last.name ∧ last.phase = .stopped report.elapsed samples ∧
        report.Tells (record.filterMap Thread.label?) ∧
        ∀ label, report.count label = Capped.ofNat (record.countP fun target =>
          target.alive ∧ target.stack.top?.map CallSite.label = some label) := by
  intro begun record now hlast hstopped
  obtain ⟨elapsed, samples, hphase⟩ := Phase.exists_of_stopped hstopped
  have htallied : begun.Tallied key [] := .of_setSampler rfl
  have hsamples := htallied.after steps last hlast
  rw [hphase] at hsamples
  have htells := SampleReport.tells_ofHistogram last.name elapsed (record.filterMap Thread.label?)
  rw [← show samples = _ from hsamples] at htells
  refine ⟨_, samples, answer_dump hlast hphase, rfl, hphase, htells, fun label => ?_⟩
  rw [htells.count_eq, List.count_filterMap]
  refine congrArg Capped.ofNat (List.countP_congr fun target _ => ?_)
  simp [Thread.label?_eq_some_iff]

/-- The worker is looked at in `A.f`, twice in `A.g`, and, once its guard of `A.f` was dropped under
that of `A.g`, without any frame; then in `A.g` again, and three times after its end. -/
def watchedWorker : List Step :=
  [⟨"main", .thread (.spawn "w" (some "worker"))⟩,
    ⟨"w", .stack (.push "f" ⟨"A", "f"⟩)⟩,
    ⟨"main", .sampler (.wake "s" 1)⟩,
    ⟨"w", .stack (.push "g" ⟨"A", "g"⟩)⟩,
    ⟨"main", .sampler (.wake "s" 2)⟩,
    ⟨"w", .stack (.endFrame "f")⟩,
    ⟨"main", .sampler (.wake "s" 1)⟩,
    ⟨"w", .stack (.push "h" ⟨"A", "g"⟩)⟩,
    ⟨"main", .sampler (.wake "s" 1)⟩,
    ⟨"main", .thread (.join "w")⟩,
    ⟨"main", .sampler (.wake "s" 3)⟩,
    ⟨"main", .sampler (.stop "s")⟩]

/-- The sampler that looks at the worker. -/
def workerSampler : Sampler where
  name := "s"
  interval := 0
  target := ⟨1, "worker"⟩
  enabled := true

theorem report_exact_worker :
    let begun := start.setSampler "s" { workerSampler with phase := .running 0 .empty }
    ∃ report : SampleReport,
      ((begun.after watchedWorker).step ⟨"main", .sampler (.dump "s" ["A.f", "A.g"])⟩).1.answer =
        .samples (.ok (report, [Capped.ofNat 1, Capped.ofNat 3])) := by
  intro begun
  have hstage : ((begun.after watchedWorker).samplers.get? "s").map (·.phase.stage) =
      some .stopped := by decide +kernel
  obtain ⟨last, hlast, hstopped⟩ := Option.map_eq_some_iff.mp hstage
  obtain ⟨report, -, hanswer, -, -, -, hcount⟩ :=
    report_exact start "s" workerSampler 0 watchedWorker hlast hstopped
  have hf : report.count "A.f" = Capped.ofNat 1 := by
    rw [hcount]
    decide +kernel
  have hg : report.count "A.g" = Capped.ofNat 3 := by
    rw [hcount]
    decide +kernel
  refine ⟨report, ?_⟩
  rw [hanswer "main" ["A.f", "A.g"], List.map_cons, List.map_cons, List.map_nil, hf, hg]

end Session

end Profiler
