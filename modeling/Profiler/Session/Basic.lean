import Profiler.Device
import Profiler.Registry
import Profiler.Sampler.Basic

/-!
# Sessions

A `Session` is a program at work: its threads with their call stacks, its registries and the pool
of shared instruments, the handles and open spans that it holds, the channels it reads from and
writes to, and its samplers. Objects are named by keys, each kind apart from the others.

This module holds the state and its small changes; the modules beside it say what the steps of a
session do.
-/

namespace Profiler

/-- A span that has been opened and is to be ended. -/
structure Span where
  handle : Handle
  name : String

/-- Where a channel gets the instrument for a call from. -/
inductive Source where
  /-- Always this one. -/
  | pinned (handle : Handle)
  /-- The one that a registry has for the calling thread. -/
  | perThread (registry : RegistryId)

/-- A device of which every call is timed as a span of a region. -/
structure Channel where
  device : Device
  source : Source
  region : String

/-- A program at work. -/
structure Session where
  clock : Clock := {}
  pool : Pool := {}
  threads : Array Thread := #[]
  threadIds : Keyed String ThreadId := .empty
  registries : Array Registry := #[]
  registryIds : Keyed String RegistryId := .empty
  handles : Keyed String Handle := .empty
  spans : Keyed String Span := .empty
  channels : Keyed String Channel := .empty
  observed : Keyed String ObservedThread := .empty
  samplers : Keyed String Sampler := .empty
  saved : Keyed String Report := .empty

namespace Session

/-- The key of the registry that the whole program shares. -/
def globalKey : String := "global"

/-- The number of the registry that the whole program shares. -/
def globalId : RegistryId := 0

/-- The number by which the first thread of a session is called. It is far above the numbers that
people make up, so that no region is taken for the thread of a session by its name. -/
def firstNumber : Nat := UInt32.size

/-- The name of a thread that was given none. -/
def unnamed (id : ThreadId) : String := "ThreadId(" ++ toString (firstNumber + id) ++ ")"

/-- The session with a new thread under a key. A thread without a name is called by its number. -/
def spawn (session : Session) (key : String) (name? : Option String) : Session :=
  let id := session.threads.size
  { session with
    threads := session.threads.push { name := name?.getD (unnamed id) }
    threadIds := session.threadIds.insert key id }

/-- The session at its start: one thread, which is called `session`, and the shared registry. -/
def start : Session :=
  { ({} : Session).spawn "main" (some "session") with
    registries := #[{ enabled := true }]
    registryIds := Keyed.empty.insert globalKey globalId }

/-- The number of the thread under a key. -/
def threadId (session : Session) (key : String) : ThreadId := (session.threadIds.get? key).getD 0

/-- The thread with a number. -/
def thread (session : Session) (id : ThreadId) : Thread :=
  session.threads.getD id { name := unnamed id, alive := false }

/-- The session with one thread replaced. -/
def setThread (session : Session) (id : ThreadId) (thread : Thread) : Session :=
  { session with threads := session.threads.setIfInBounds id thread }

/-- The innermost frame of a thread. -/
def top? (session : Session) (id : ThreadId) : Option CallSite := (session.thread id).top?

/-- A thread as an observer knows it. -/
def observe (session : Session) (id : ThreadId) : ObservedThread := ⟨id, (session.thread id).name⟩

/-- The session with a new registry under a key. A registry that had the key before lives on in the
channels that use it; the key of the shared registry stays with that one. -/
def openRegistry (session : Session) (key : String) (enabled : Bool) : Session :=
  if key = globalKey then session
  else
    { session with
      registries := session.registries.push { enabled }
      registryIds := session.registryIds.insert key session.registries.size }

/-- The registry with a number. -/
def registry (session : Session) (id : RegistryId) : Registry :=
  session.registries.getD id { enabled := false }

/-- The session with one registry replaced. -/
def setRegistry (session : Session) (id : RegistryId) (registry : Registry) : Session :=
  { session with registries := session.registries.setIfInBounds id registry }

/-- The session with a handle under a key. -/
def setHandle (session : Session) (key : String) (handle : Handle) : Session :=
  { session with handles := session.handles.insert key handle }

/-- The session with a channel under a key. -/
def setChannel (session : Session) (key : String) (channel : Channel) : Session :=
  { session with channels := session.channels.insert key channel }

/-- The session with a sampler under a key. -/
def setSampler (session : Session) (key : String) (sampler : Sampler) : Session :=
  { session with samplers := session.samplers.insert key sampler }

/-- The instrument behind a handle. -/
def instrument (session : Session) (handle : Handle) : Instrument := handle.instrument session.pool

/-- The session with the instrument behind a handle replaced. -/
def replaceInstrument (session : Session) (handle : Handle) (instrument : Instrument) : Session :=
  { session with pool := handle.replace session.pool instrument }

/-- Opens a span of the child `name` on the instrument behind a handle. -/
def enter (session : Session) (handle : Handle) (name : String) : Session :=
  session.replaceInstrument handle ((session.instrument handle).enter name session.clock)

/-- Closes the innermost open region called `name` on the instrument behind a handle. -/
def exit (session : Session) (handle : Handle) (name : String) : List Event × Session :=
  let (events, after) := (session.instrument handle).exit name session.clock
  (events, session.replaceInstrument handle after)

/-- The handle that a registry has for a thread. -/
def handleFor (session : Session) (id : RegistryId) (thread : ThreadId) :
    Handle × List Event × Session :=
  let (handle, events, after, pool) :=
    (session.registry id).handleFor session.pool thread (session.thread thread).name session.clock
  (handle, events, { session with pool }.setRegistry id after)

end Session

end Profiler
