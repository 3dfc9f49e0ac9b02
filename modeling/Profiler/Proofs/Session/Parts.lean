import Mathlib.Tactic.SplitIfs
import Profiler.Proofs.Session.Orders

/-!
# The parts of a session that a step leaves alone

Most steps of a session concern only a few of its parts. `Session.SameThreads` holds of two sessions
with the same threads, observers and samplers: only steps about these tell them apart
(`Session.sameThreads_step`). Calls and requests keep the handles and spans besides
(`Session.SameHeld`).
-/

namespace Profiler.Session

/-! ### Threads and registries by number -/

theorem registry_setRegistry (session : Session) (id other : RegistryId) (registry : Registry) :
    (session.setRegistry id registry).registry other =
      if other = id ∧ id < session.registries.size then registry else session.registry other := by
  simp only [Session.registry, setRegistry, Array.getD_eq_getD_getElem?,
    Array.getElem?_setIfInBounds]
  grind

theorem thread_setThread (session : Session) (id other : ThreadId) (thread : Thread) :
    (session.setThread id thread).thread other =
      if other = id ∧ id < session.threads.size then thread else session.thread other := by
  simp only [Session.thread, setThread, Array.getD_eq_getD_getElem?, Array.getElem?_setIfInBounds]
  grind

theorem registry_push (session : Session) (registry : Registry) (ids : Keyed String RegistryId)
    (id : RegistryId) :
    { session with registries := session.registries.push registry, registryIds := ids }.registry id =
      if id = session.registries.size then registry else session.registry id := by
  split_ifs with hid
  · simp [Session.registry, Array.getD_eq_getD_getElem?, hid]
  · simp [Session.registry, Array.getD_eq_getD_getElem?, Array.getElem?_push, hid]

theorem thread_spawn (session : Session) (key : String) (name? : Option String) (id : ThreadId) :
    (session.spawn key name?).thread id =
      if id = session.threads.size then { name := name?.getD (unnamed id) }
      else session.thread id := by
  unfold spawn
  split_ifs with hid
  · simp [Session.thread, Array.getD_eq_getD_getElem?, hid]
  · simp [Session.thread, Array.getD_eq_getD_getElem?, Array.getElem?_push, hid]

/-! ### Threads, observers and samplers -/

/-- The same threads under the same keys, the same observers and the same samplers. -/
structure SameThreads (session later : Session) : Prop where
  threads_eq : later.threads = session.threads
  threadIds_eq : later.threadIds = session.threadIds
  observed_eq : later.observed = session.observed
  samplers_eq : later.samplers = session.samplers

namespace SameThreads

variable {session later last : Session}

theorem refl (session : Session) : SameThreads session session := ⟨rfl, rfl, rfl, rfl⟩

theorem trans (h : SameThreads session later) (h' : SameThreads later last) :
    SameThreads session last :=
  ⟨h'.threads_eq.trans h.threads_eq, h'.threadIds_eq.trans h.threadIds_eq,
    h'.observed_eq.trans h.observed_eq, h'.samplers_eq.trans h.samplers_eq⟩

theorem thread_eq (h : SameThreads session later) (id : ThreadId) :
    later.thread id = session.thread id := by
  rw [Session.thread, h.threads_eq, Session.thread]

theorem threadId_eq (h : SameThreads session later) (key : String) :
    later.threadId key = session.threadId key := by
  rw [Session.threadId, h.threadIds_eq, Session.threadId]

theorem endSpan (h : SameThreads session later) (key : String) :
    SameThreads session (later.endSpan key).2 := by
  unfold Session.endSpan
  split
  · exact h
  · exact ⟨h.threads_eq, h.threadIds_eq, h.observed_eq, h.samplers_eq⟩

theorem keepHandle (h : SameThreads session later) (key? : Option String)
    (id? : Option InstrumentId) : SameThreads session (later.keepHandle key? id?) := by
  unfold Session.keepHandle
  split
  · exact ⟨h.threads_eq, h.threadIds_eq, h.observed_eq, h.samplers_eq⟩
  · exact h

end SameThreads

/-- The same handles and spans besides. -/
structure SameHeld (session later : Session) : Prop extends SameThreads session later where
  handles_eq : later.handles = session.handles
  spans_eq : later.spans = session.spans

namespace SameHeld

theorem refl (session : Session) : SameHeld session session := ⟨.refl session, rfl, rfl⟩

theorem trans {session later last : Session} (h : SameHeld session later)
    (h' : SameHeld later last) : SameHeld session last :=
  ⟨h.toSameThreads.trans h'.toSameThreads, h'.handles_eq.trans h.handles_eq,
    h'.spans_eq.trans h.spans_eq⟩

end SameHeld

variable (session : Session)

/-! ### Calls and requests -/

theorem sameHeld_resolve (source : Source) (thread : ThreadId) :
    SameHeld session (session.resolve source thread).2.2 := by
  cases source <;> exact ⟨⟨rfl, rfl, rfl, rfl⟩, rfl, rfl⟩

theorem sameHeld_timed {α : Type} (channel : Channel) (thread : ThreadId)
    (operation : Operation α) :
    SameHeld session (session.timed channel thread operation).session :=
  (session.sameHeld_resolve channel.source thread).trans ⟨⟨rfl, rfl, rfl, rfl⟩, rfl, rfl⟩

theorem sameHeld_makes {thread : ThreadId} {later : Session} {channel channel' : Channel}
    {calls : List TimedCall} {events : List Event}
    (h : Makes thread session channel calls later channel' events) : SameHeld session later :=
  h.keeps (P := fun later _ => SameHeld session later)
    (fun operation h' => h'.trans (sameHeld_timed _ _ thread operation)) (.refl session)

theorem sameHeld_callStep {α : Type} (key : String) (answer : CallResult α → Answer)
    {calls : Channel → Called α} (h : ∀ channel, SameHeld session (calls channel).session) :
    SameHeld session (session.callStep key answer calls).2 := by
  unfold callStep
  split
  · exact .refl session
  · next channel _ => exact (h channel).trans ⟨⟨rfl, rfl, rfl, rfl⟩, rfl, rfl⟩

theorem sameHeld_channelStep (thread : ThreadId) (action : ChannelAction) :
    SameHeld session (session.channelStep thread action).2 := by
  cases action with
  | readExact key n =>
    refine session.sameHeld_callStep key _ fun channel => ?_
    exact session.sameHeld_makes (makes_readLoop thread _ session channel n [])
  | writeExact key bytes =>
    refine session.sameHeld_callStep key _ fun channel => ?_
    exact session.sameHeld_makes (makes_writeLoop thread _ session channel bytes)
  | read key _ | write key _ | flush key =>
    exact session.sameHeld_callStep key _ fun channel => session.sameHeld_timed channel thread _
  | readInner key _ | writeInner key _ =>
    exact session.sameHeld_callStep key _ fun _ => ⟨⟨rfl, rfl, rfl, rfl⟩, rfl, rfl⟩
  | create _ _ _ _ | left _ | received _ | close _ =>
    unfold channelStep
    dsimp only
    split <;> exact ⟨⟨rfl, rfl, rfl, rfl⟩, rfl, rfl⟩

theorem sameHeld_requestStep (handle : String) (request : Request) :
    SameHeld session (session.requestStep handle request).2 := by
  unfold requestStep
  split
  · exact .refl session
  · dsimp only
    unfold keepReport
    split <;> exact ⟨⟨rfl, rfl, rfl, rfl⟩, rfl, rfl⟩

/-! ### All other steps -/

theorem sameThreads_handleStep (thread : ThreadId) (action : HandleAction) :
    SameThreads session (session.handleStep thread action).2 := by
  cases action with
  | openRegistry key enabled =>
    show SameThreads session (session.openRegistry key enabled)
    unfold openRegistry
    split <;> exact ⟨rfl, rfl, rfl, rfl⟩
  | install registry config? key? =>
    unfold handleStep
    dsimp only
    split
    · exact .refl session
    · refine SameThreads.keepHandle ?_ key? _
      exact ⟨rfl, rfl, rfl, rfl⟩
  | remove registry key? =>
    unfold handleStep
    dsimp only
    split
    · exact .refl session
    · refine SameThreads.keepHandle ?_ key? _
      exact ⟨rfl, rfl, rfl, rfl⟩
  | span key handle name =>
    unfold handleStep
    dsimp only
    split
    · exact .refl session
    · next found _ =>
      have h : SameThreads session (session.enter found name) := ⟨rfl, rfl, rfl, rfl⟩
      exact (h.endSpan key).trans ⟨rfl, rfl, rfl, rfl⟩
  | endSpan key => exact (SameThreads.refl session).endSpan key
  | inert key | create key config => exact ⟨rfl, rfl, rfl, rfl⟩
  | describe _ | acquire _ _ | copy _ _ | same _ _ =>
    unfold handleStep
    dsimp only
    split <;> exact ⟨rfl, rfl, rfl, rfl⟩

/-- Whether an action is about threads, their frames, observers or samplers. -/
def Action.concernsThreads : Action → Bool
  | .thread _ | .stack _ | .sampler _ => true
  | _ => false

/-- All other steps leave these alone. -/
theorem sameThreads_step {step : Step} (h : step.action.concernsThreads = false) :
    SameThreads session (session.step step).2 := by
  obtain ⟨thread, action⟩ := step
  match action with
  | .clock change => exact ⟨rfl, rfl, rfl, rfl⟩
  | .recall key =>
    unfold Session.step
    dsimp only
    split <;> exact .refl session
  | .handle action => exact session.sameThreads_handleStep _ action
  | .request handle request => exact (session.sameHeld_requestStep handle request).toSameThreads
  | .channel action => exact (session.sameHeld_channelStep _ action).toSameThreads
  | .thread _ | .stack _ | .sampler _ => cases h

end Profiler.Session
