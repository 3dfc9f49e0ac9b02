import Profiler.Session.Basic

/-!
# Timed calls of devices

Every call of a channel's device is one span of the channel's region, on the instrument that the
channel's source has for the calling thread at that moment. The span is ended however the call
ends. `Session.timed` brackets one call; `Session.readExact` and `Session.writeExact` make as many
calls as they need.
-/

namespace Profiler

/-- What one or more calls of a channel's device lead to. -/
structure Called (α : Type) where
  call : CallResult α
  events : List Event
  channel : Channel
  session : Session

/-- The same with events before it. -/
def Called.after {α : Type} (called : Called α) (events : List Event) : Called α :=
  { called with events := events ++ called.events }

namespace Session

/-- The handle that a source has for a thread. -/
def resolve (session : Session) (source : Source) (thread : ThreadId) :
    Handle × List Event × Session :=
  match source with
  | .pinned handle => (handle, [], session)
  | .perThread id => session.handleFor id thread

/-- Calls the device of a channel without timing it. -/
def untimed {α : Type} (session : Session) (channel : Channel) (operation : Operation α) :
    Called α :=
  let (call, device, clock) := operation channel.device session.clock
  ⟨call, [], { channel with device }, { session with clock }⟩

/-- Calls the device of a channel inside a span of the channel's region. -/
def timed {α : Type} (session : Session) (channel : Channel) (thread : ThreadId)
    (operation : Operation α) : Called α :=
  let (handle, created, resolved) := session.resolve channel.source thread
  let called := (resolved.enter handle channel.region).untimed channel operation
  let (ended, after) := called.session.exit handle channel.region
  { called with events := created ++ ended, session := after }

/-- Reads until `wanted` more bytes have come, with at most `fuel` calls. Interrupted calls are
made again. -/
def readLoop (thread : ThreadId) :
    Nat → Session → Channel → Nat → List UInt8 → Called (List UInt8)
  | _, session, channel, 0, got => ⟨.done got, [], channel, session⟩
  | 0, session, channel, _ + 1, _ => ⟨.failed .bufferNotFilled, [], channel, session⟩
  | fuel + 1, session, channel, wanted + 1, got =>
    let called := session.timed channel thread (Device.read (wanted + 1))
    match called.call with
    | .done [] => { called with call := .failed .bufferNotFilled }
    | .done (byte :: more) =>
      (readLoop thread fuel called.session called.channel (wanted - more.length)
        (got ++ byte :: more)).after called.events
    | .failed failure =>
      if failure.kind = .interrupted then
        (readLoop thread fuel called.session called.channel (wanted + 1) got).after called.events
      else
        called
    | .crashed _ => called

/-- Reads exactly `n` bytes. Each call but the last uses up an act of the device's script. -/
def readExact (session : Session) (channel : Channel) (thread : ThreadId) (n : Nat) :
    Called (List UInt8) :=
  readLoop thread (channel.device.script.length + 1) session channel n []

/-- Writes until all bytes are taken, with at most `fuel` calls. Interrupted calls are made
again. -/
def writeLoop (thread : ThreadId) : Nat → Session → Channel → List UInt8 → Called Unit
  | _, session, channel, [] => ⟨.done (), [], channel, session⟩
  | 0, session, channel, _ :: _ => ⟨.failed .bufferNotWritten, [], channel, session⟩
  | fuel + 1, session, channel, byte :: rest =>
    let called := session.timed channel thread (Device.write (byte :: rest))
    let again := fun (bytes : List UInt8) =>
      (writeLoop thread fuel called.session called.channel bytes).after called.events
    match called.call with
    | .done 0 => { called with call := .failed .bufferNotWritten }
    | .done (taken + 1) => again (rest.drop taken)
    | .failed failure =>
      if failure.kind = .interrupted then again (byte :: rest)
      else { called with call := .failed failure }
    | .crashed message => { called with call := .crashed message }

/-- Writes all of `bytes`. Each call but the last uses up an act of the device's script. -/
def writeExact (session : Session) (channel : Channel) (thread : ThreadId)
    (bytes : List UInt8) : Called Unit :=
  writeLoop thread (channel.device.script.length + 1) session channel bytes

end Session

end Profiler
