import Profiler.Proofs.Session.Others

/-!
# Threads do not interfere with each other

When all threads keep to themselves, a thread cannot tell whether the others are there:
`Session.repliesOf_without`. Taken step by step, what the thread does goes the same in the session
without the others, and what the others do is of no consequence but for the time that it takes.
-/

namespace Profiler.Session

variable {t : ThreadId} {owners : Owners} {m : Matching} {full part : Session}

/-! ### The clock -/

theorem after_clockSteps {session : Session} {before : Clock} (h : session.clock = before)
    (thread : String) (clock : Clock) (rest : List Step) :
    session.after (clockSteps thread before clock ++ rest) = { session with clock }.after rest := by
  unfold clockSteps
  split
  · next heq => rw [heq, ← h]; rfl
  · rfl

theorem repliesOf_clock (session : Session) (thread : String) (change : Clock.Change)
    (rest : List Step) :
    session.repliesOf t (⟨thread, .clock change⟩ :: rest) =
      { session with clock := session.clock.change change }.repliesOf t rest :=
  if_neg fun hprivate => Bool.false_ne_true hprivate.2

theorem repliesOf_clockSteps {session : Session} {before : Clock} (h : session.clock = before)
    (thread : String) (clock : Clock) (rest : List Step) :
    session.repliesOf t (clockSteps thread before clock ++ rest) =
      { session with clock }.repliesOf t rest := by
  unfold clockSteps
  split
  · next heq => rw [heq, ← h]; rfl
  · simp only [List.map_cons, List.map_nil, List.cons_append, List.nil_append, repliesOf_clock]
    rfl

/-! ### Steps -/

/-- A step that is kept does the same in both sessions. -/
theorem Abreast.step_kept (h : Abreast t owners m full part) {step : Step}
    (hkept : full.isKept t step = true)
    (allow : owners.Allow (full.threadId step.thread) step.action) :
    (full.threadId step.thread = t ∧ step.action.isPrivate →
        (part.step step).1 = (full.step step).1) ∧
      ∃ later, Abreast t
        (owners.after (full.threadId step.thread) step.action (full.step step).1.answer) later
        (full.step step).2 (part.step step).2 := by
  by_cases hthread : full.threadId step.thread = t
  · rw [hthread] at allow ⊢
    obtain ⟨hreply, hafter⟩ := h.step step hthread allow
    exact ⟨fun hprivate => hreply hprivate.2, hafter⟩
  · -- Of the steps of others only those are kept that are nobody's own affair.
    refine ⟨fun hprivate => absurd hprivate.1 hthread, m, ?_⟩
    rw [isKept, decide_eq_false hthread, Bool.false_or] at hkept
    obtain ⟨thread, action⟩ := step
    unfold Session.step
    rw [h.threadId_eq]
    match action with
    | .clock change => exact { h with clock_eq := congrArg (Clock.change · change) h.clock_eq }
    | .thread action => exact h.threadStep action
    | .handle action =>
      cases action with
      | openRegistry key enabled => exact h.openRegistry key enabled
      | _ => cases hkept

/-- A step that is dropped is of no consequence but for the clock. -/
theorem Abreast.step_dropped (h : Abreast t owners m full part) {step : Step}
    (hkept : full.isKept t step = false)
    (allow : owners.Allow (full.threadId step.thread) step.action) :
    ∃ later, Abreast t
      (owners.after (full.threadId step.thread) step.action (full.step step).1.answer) later
      (full.step step).2 { part with clock := (full.step step).2.clock } := by
  obtain ⟨later, halike⟩ := h.toAlike.step_foreign step hkept allow
  exact ⟨later, { halike with clock_eq := rfl }⟩

/-! ### Runs -/

/-- The sessions stay abreast, step by step of the full one. -/
theorem Abreast.without (h : Abreast t owners m full part) {steps : List Step}
    (separate : full.Separate owners steps) :
    part.repliesOf t (full.without t steps) = full.repliesOf t steps ∧
      ∃ later, Abreast t (full.ownersAfter owners steps) later (full.after steps)
        (part.after (full.without t steps)) := by
  induction steps generalizing owners m full part with
  | nil => exact ⟨rfl, m, h⟩
  | cons step steps ih =>
    obtain ⟨allow, separate'⟩ := separate
    unfold Session.without
    dsimp only
    cases hkept : full.isKept t step with
    | true =>
      obtain ⟨hreply, later, hafter⟩ := h.step_kept hkept allow
      obtain ⟨hreplies, hlast⟩ := ih hafter separate'
      refine ⟨?_, hlast⟩
      rw [if_pos rfl, repliesOf_cons, repliesOf_cons, h.threadId_eq, hreplies]
      split_ifs with hprivate
      · rw [hreply hprivate]
      · rfl
    | false =>
      obtain ⟨later, hafter⟩ := h.step_dropped hkept allow
      obtain ⟨hreplies, hlast⟩ := ih hafter separate'
      have hother : full.threadId step.thread ≠ t :=
        of_decide_eq_false (Bool.or_eq_false_iff.mp hkept).1
      rw [if_neg Bool.false_ne_true, repliesOf_clockSteps h.clock_eq, after_clockSteps h.clock_eq,
        hreplies, repliesOf_cons, if_neg fun hown => hother hown.1]
      exact ⟨rfl, hlast⟩

/-! ### From the start -/

theorem abreast_start (t : ThreadId) : Abreast t {} .none start start where
  threadIds_eq := rfl
  size_threads := rfl
  thread_eq := rfl
  registryIds_eq := rfl
  size_registries := rfl
  registry
    | 0 => .of_empty _ true
    | _ + 1 => .of_empty _ false
  handles := (Keyed.apart_empty t _ _).toAlike
  spans := Keyed.apart_empty t _ _
  channels := (Keyed.apart_empty t _ _).toAlike
  fits := ⟨nofun, nofun, nofun, nofun, nofun⟩
  clock_eq := rfl

/-- **Threads do not interfere with each other**: when all threads of a session keep to themselves,
any one of them is answered the same about its own affairs in the session without the others, and
ends up with the same frames and, up to their numbers, the same timers, in the same registries and
by the same handles, spans and channels. -/
theorem repliesOf_without (t : ThreadId) (steps : List Step) (separate : start.Separate {} steps) :
    let alone := start.without t steps
    start.repliesOf t alone = start.repliesOf t steps ∧
      ∃ m, Abreast t (start.ownersAfter {} steps) m (start.after steps) (start.after alone) :=
  (abreast_start t).without separate

/-- Two threads that time themselves by the shared registry, one of which reads from a slow device
in the meantime. -/
def twoThreads : List Step :=
  [⟨"main", .thread (.spawn "other" (some "reader"))⟩,
    ⟨"main", .handle (.acquire "h" globalKey)⟩,
    ⟨"other", .handle (.acquire "g" globalKey)⟩,
    ⟨"main", .request "h" (.enter "work")⟩,
    ⟨"other", .channel (.create "c" "read" (.registry globalKey)
      (.reader [{ time := Capped.ofNat 5 }]))⟩,
    ⟨"other", .channel (.read "c" 1)⟩,
    ⟨"other", .request "g" (.enter "work")⟩,
    ⟨"main", .request "h" (.exit "work")⟩]

theorem repliesOf_without_reader :
    start.Separate {} twoThreads ∧
      start.repliesOf 0 (start.without 0 twoThreads) = start.repliesOf 0 twoThreads :=
  have separate : start.Separate {} twoThreads := by decide +kernel
  ⟨separate, (repliesOf_without 0 twoThreads separate).1⟩

end Profiler.Session
