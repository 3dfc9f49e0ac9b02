import Profiler.Instrument.Request
import Profiler.Session.Basic

/-!
# Steps of a session and their answers

A `Step` is something that one thread does. Its `Action` is one of a few kinds: it concerns the
clock, the threads themselves, the registries and handles, an instrument, a channel, the call stack
or a sampler. A `Reply` is the `Answer` to a step with the events that the step gave rise to.
-/

namespace Profiler.Session

/-- What concerns threads. -/
inductive ThreadAction where
  /-- Start a thread; without a name it is called by its number. -/
  | spawn (key : String) (name? : Option String)
  /-- Wait for the end of a thread. -/
  | join (key : String)

/-- What concerns registries, handles and spans. -/
inductive HandleAction where
  | openRegistry (key : String) (enabled : Bool)
  | describe (registry : String)
  /-- The handle that a registry has for the thread. -/
  | acquire (key registry : String)
  | inert (key : String)
  | copy (key origin : String)
  /-- A handle to a new timer that no registry knows. -/
  | create (key : String) (config : Config)
  | same (first second : String)
  /-- Give a new instrument to the thread, and keep a handle to the one it had. -/
  | install (registry : String) (config? : Option Config) (key? : Option String)
  /-- Take the instrument of the thread, and keep a handle to it. -/
  | remove (registry : String) (key? : Option String)
  | span (key handle name : String)
  | endSpan (key : String)

/-- Where a new channel is to get its instruments from. -/
inductive SourceKey where
  | handle (key : String)
  | registry (key : String)

/-- What concerns channels. -/
inductive ChannelAction where
  | create (key region : String) (source : SourceKey) (device : Device)
  | read (key : String) (n : Nat)
  | readExact (key : String) (n : Nat)
  | write (key : String) (bytes : List UInt8)
  | writeExact (key : String) (bytes : List UInt8)
  | flush (key : String)
  /-- Read without timing. -/
  | readInner (key : String) (n : Nat)
  /-- Write without timing. -/
  | writeInner (key : String) (bytes : List UInt8)
  /-- The acts left in the script of a device. -/
  | left (key : String)
  /-- The bytes that a device has received. -/
  | received (key : String)
  /-- Give up a channel for its device. -/
  | close (key : String)

/-- What concerns call stacks. -/
inductive StackAction where
  | push (key : String) (site : CallSite)
  | endFrame (key : String)
  | observe (key : String)
  | look (key : String)
  /-- Compare a call site with the innermost frame. -/
  | compare (site : CallSite)

/-- How a new sampler is to be. What is not given is left at its default. -/
structure SamplerPlan where
  name : String := ""
  interval : Duration := Sampler.defaultInterval
  /-- The key of an observed thread; by default the thread itself is observed. -/
  target? : Option String := none
  enabled : Bool := true

/-- What concerns samplers. -/
inductive SamplerAction where
  | create (key : String) (plan : SamplerPlan) (started : Bool)
  | start (key : String)
  | stop (key : String)
  | inspect (key : String)
  /-- Let the interval of a sampler be over some times. -/
  | wake (key : String) (times : Nat)
  /-- Report on the samples, and on some labels in particular. -/
  | dump (key : String) (labels : List String)
  | discard (key : String)

/-- What a step does. -/
inductive Action where
  | clock (change : Clock.Change)
  | recall (key : String)
  | thread (action : ThreadAction)
  | handle (action : HandleAction)
  | request (handle : String) (request : Request)
  | channel (action : ChannelAction)
  | stack (action : StackAction)
  | sampler (action : SamplerAction)

/-- Something that a thread does. -/
structure Step where
  thread : String
  action : Action

/-- What a step is answered. -/
inductive Answer where
  | done
  /-- The step named an object that does not exist. -/
  | missing
  /-- The step crashed before it changed anything. -/
  | crashed (message : String)
  | recalled (report : Report)
  | response (response : Response)
  /-- Whether a registry is enabled and, unless it is the shared one, what else it shows. -/
  | registry (enabled : Bool) (details? : Option (Nat × String))
  | enabled (enabled : Bool)
  | same (same : Bool)
  | previous (existed : Bool)
  | removed (existed : Bool)
  | ended (existed : Bool)
  | discarded (existed : Bool)
  /-- The innermost frame of the thread. -/
  | top (top? : Option CallSite)
  | frameEnded (existed : Bool) (top? : Option CallSite)
  | thread (name : String) (alive : Bool) (top? : Option CallSite)
  | site (site : CallSite) (isTop : Bool)
  | read (call : CallResult (List UInt8))
  | wrote (call : CallResult Nat)
  | completed (call : CallResult Unit)
  | left (acts : Nat)
  | received (bytes : List UInt8)
  /-- A sampler, and whether its target is alive. -/
  | sampler (sampler : Sampler) (targetAlive : Bool)
  | slept (interval : Duration)
  /-- The samples, and how often some labels were seen. -/
  | samples (result : Except Fault (SampleReport × List Count))

/-- The answer to a step and the events that the step gave rise to. -/
structure Reply where
  answer : Answer
  events : List Event := []

end Profiler.Session
