import Mathlib.Logic.Function.Basic
import Profiler.Proofs.Session.Orders

/-!
# Threads that keep to themselves

A key belongs to the thread that bound it last, and the key of a span to nobody once the span has
ended (`Owners`). In a session whose threads keep to themselves (`Session.Separate`) every step uses
only keys of its own thread, or keys that belong to nobody. `Session.without` is such a session
without the steps of all threads but one, in which the clock still goes as it did, and
`Session.repliesOf` is what that one thread is told of its own affairs.
-/

namespace Profiler.Session

/-! ### Which keys a step uses -/

def SourceKey.handleKeys : SourceKey → List String
  | handle key => [key]
  | registry _ => []

/-- The keys of the handles that an action uses. -/
def Action.handleKeys : Action → List String
  | handle (.copy _ origin) => [origin]
  | handle (.same first second) => [first, second]
  | handle (.span _ key _) => [key]
  | request key _ => [key]
  | channel (.create _ _ source _) => source.handleKeys
  | _ => []

/-- The keys of the spans that an action ends, be it only to put another one in its place. -/
def Action.spanKeys : Action → List String
  | handle (.span key _ _) | handle (.endSpan key) => [key]
  | _ => []

/-- The keys of the channels that an action uses. -/
def ChannelAction.keys : ChannelAction → List String
  | create .. => []
  | read key _ | readExact key _ | write key _ | writeExact key _ | flush key | readInner key _
  | writeInner key _ | left key | received key | close key => [key]

def Action.channelKeys : Action → List String
  | channel action => action.keys
  | _ => []

/-! ### Whose keys they are -/

/-- The threads that keys belong to. -/
structure Owners where
  handle : String → Option ThreadId := fun _ => none
  span : String → Option ThreadId := fun _ => none
  channel : String → Option ThreadId := fun _ => none

namespace Owners

/-- The key under which an action puts a handle, if it was answered that it did. -/
def handed? : HandleAction → Answer → Option String
  | .acquire key _, .enabled _ | .inert key, .enabled _ | .copy key _, .enabled _
  | .create key _, .enabled _ => some key
  | .install _ _ key?, .previous existed | .remove _ key?, .removed existed =>
    if existed then key? else none
  | _, _ => none

/-- The owners of keys after a thread has put something under a key, or under none. -/
def bind (owner : String → Option ThreadId) (thread : ThreadId) :
    Option String → String → Option ThreadId
  | some key => Function.update owner key (some thread)
  | none => owner

/-- The owners after an action of a thread that was answered so. -/
def after (owners : Owners) (thread : ThreadId) (action : Action) (answer : Answer) : Owners where
  handle := match action with
    | .handle action => bind owners.handle thread (handed? action answer)
    | _ => owners.handle
  span := match action, answer with
    | .handle (.span key _ _), .done => Function.update owners.span key (some thread)
    | .handle (.endSpan key), _ => Function.update owners.span key none
    | _, _ => owners.span
  channel := match action, answer with
    | .channel (.create key _ _ _), .done => Function.update owners.channel key (some thread)
    | _, _ => owners.channel

/-- A thread may use a key of its own, and one that belongs to nobody. -/
def Free (owner : String → Option ThreadId) (thread : ThreadId) (key : String) : Prop :=
  owner key = none ∨ owner key = some thread

/-- The thread may use all keys that an action uses. -/
structure Allow (owners : Owners) (thread : ThreadId) (action : Action) : Prop where
  handle : ∀ key ∈ action.handleKeys, Free owners.handle thread key
  span : ∀ key ∈ action.spanKeys, Free owners.span thread key
  channel : ∀ key ∈ action.channelKeys, Free owners.channel thread key

instance (owners : Owners) (thread : ThreadId) (action : Action) :
    Decidable (owners.Allow thread action) :=
  haveI (owner : String → Option ThreadId) (key : String) : Decidable (Free owner thread key) :=
    inferInstanceAs (Decidable (_ ∨ _))
  decidable_of_iff
    ((∀ key ∈ action.handleKeys, Free owners.handle thread key) ∧
      (∀ key ∈ action.spanKeys, Free owners.span thread key) ∧
      ∀ key ∈ action.channelKeys, Free owners.channel thread key)
    ⟨fun ⟨handle, span, channel⟩ => ⟨handle, span, channel⟩,
      fun allow => ⟨allow.handle, allow.span, allow.channel⟩⟩

end Owners

/-- All threads keep to themselves: no step uses a key of another thread. -/
def Separate (owners : Owners) (session : Session) : List Step → Prop
  | [] => True
  | step :: rest =>
    let thread := session.threadId step.thread
    let (reply, after) := session.step step
    owners.Allow thread step.action ∧
      after.Separate (owners.after thread step.action reply.answer) rest

theorem separate_cons (owners : Owners) (session : Session) (step : Step) (rest : List Step) :
    session.Separate owners (step :: rest) ↔
      owners.Allow (session.threadId step.thread) step.action ∧
        (session.step step).2.Separate
          (owners.after (session.threadId step.thread) step.action (session.step step).1.answer)
          rest := Iff.rfl

instance Separate.decidable (owners : Owners) (session : Session) :
    (steps : List Step) → Decidable (session.Separate owners steps)
  | [] => isTrue trivial
  | step :: rest =>
    haveI := Separate.decidable
      (owners.after (session.threadId step.thread) step.action (session.step step).1.answer)
      (session.step step).2 rest
    decidable_of_iff _ (separate_cons owners session step rest).symm

/-- The owners after steps that are taken one after the other. -/
def ownersAfter (owners : Owners) (session : Session) : List Step → Owners
  | [] => owners
  | step :: rest =>
    let (reply, after) := session.step step
    after.ownersAfter (owners.after (session.threadId step.thread) step.action reply.answer) rest

/-! ### A session without the other threads -/

/-- Steps by which a thread makes the clock what it is to be, if it is not so already. -/
def clockSteps (thread : String) (before after : Clock) : List Step :=
  if after = before then []
  else [.setWall after.wall, .setThread after.thread, .setProcess after.process,
    .refuseBlocks after.blocksRefused].map fun change => ⟨thread, .clock change⟩

/-- Whether a step is done by the thread `t`, ends that thread, or is nobody's own affair: threads
are started, registries are opened and the clock is changed for all. -/
def isKept (t : ThreadId) (session : Session) (step : Step) : Bool :=
  session.threadId step.thread = t ||
    match step.action with
    | .clock _ | .thread (.spawn ..) | .handle (.openRegistry ..) => true
    | .thread (.join key) => session.threadIds.get? key = some t
    | _ => false

/-- The steps of a session without those of other threads than `t`, each of which is replaced by
what it does to the clock. -/
def without (t : ThreadId) (session : Session) : List Step → List Step
  | [] => []
  | step :: rest =>
    let after := (session.step step).2
    if session.isKept t step then step :: after.without t rest
    else clockSteps step.thread session.clock after.clock ++ after.without t rest

/-- Whether an action is about the thread's own timers, spans, channels and frames. Not so the
clock, the threads, the size of a registry, other threads as they are seen, and what is kept or
collected for the whole session. -/
def Action.isPrivate : Action → Bool
  | .handle (.openRegistry ..) | .handle (.describe _) | .stack (.look _) => false
  | .handle _ | .request .. | .channel _ | .stack _ => true
  | .clock _ | .recall _ | .thread _ | .sampler _ => false

/-- The replies to what a thread does with its own timers, spans, channels and frames. -/
def repliesOf (t : ThreadId) (session : Session) : List Step → List Reply
  | [] => []
  | step :: rest =>
    let (reply, after) := session.step step
    if session.threadId step.thread = t ∧ step.action.isPrivate then
      reply :: after.repliesOf t rest
    else after.repliesOf t rest

theorem repliesOf_cons (t : ThreadId) (session : Session) (step : Step) (rest : List Step) :
    session.repliesOf t (step :: rest) =
      if session.threadId step.thread = t ∧ step.action.isPrivate then
        (session.step step).1 :: (session.step step).2.repliesOf t rest
      else (session.step step).2.repliesOf t rest := rfl

end Profiler.Session
