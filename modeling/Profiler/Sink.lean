import Profiler.Failure

/-!
# Sinks for text

A `Sink` takes bytes, perhaps only a few in one call and perhaps only up to a limit.
`Sink.writeAll` calls it until everything is written or a call fails, and `Sink.writeFragments`
writes one fragment after the other, up to the first that fails.
-/

namespace Profiler

/-- What becomes of a call to a sink that is full. -/
inductive WhenFull where
  /-- It fails. -/
  | refuse
  /-- It succeeds and takes nothing. -/
  | takeNothing
deriving DecidableEq

/-- Something that takes bytes. -/
structure Sink where
  /-- How many bytes it takes in all. -/
  limit? : Option Nat := none
  /-- How many bytes it takes in one call. -/
  piece? : Option Nat := none
  whenFull : WhenFull := .refuse
  received : Array UInt8 := #[]

namespace Sink

/-- The first bytes, at most as many as given. -/
def upTo (n? : Option Nat) (bytes : List UInt8) : List UInt8 :=
  match n? with
  | none => bytes
  | some n => bytes.take n

/-- How many bytes the sink can still take, if there is a limit. -/
def room? (sink : Sink) : Option Nat := sink.limit?.map (· - sink.received.size)

/-- The bytes that one call takes of those it is given. -/
def chunk (sink : Sink) (bytes : List UInt8) : List UInt8 :=
  upTo sink.room? (upTo sink.piece? bytes)

/-- One call: the number of bytes taken, and the sink that has them. -/
def write (sink : Sink) (bytes : List UInt8) : Except Failure Nat × Sink :=
  if sink.room? = some 0 ∧ bytes ≠ [] then
    match sink.whenFull with
    | .refuse => (.error .sinkFull, sink)
    | .takeNothing => (.ok 0, sink)
  else
    let taken := sink.chunk bytes
    (.ok taken.length, { sink with received := sink.received ++ taken.toArray })

/-- At most `fuel` calls, until all bytes are written or a call fails or takes nothing. -/
def writeLoop : Nat → Sink → List UInt8 → Except Failure Unit × Sink
  | _, sink, [] => (.ok (), sink)
  | 0, sink, _ :: _ => (.error .bufferNotWritten, sink)
  | fuel + 1, sink, byte :: rest =>
    match sink.write (byte :: rest) with
    | (.error failure, after) => (.error failure, after)
    | (.ok 0, after) => (.error .bufferNotWritten, after)
    | (.ok (taken + 1), after) => writeLoop fuel after (rest.drop taken)

/-- Writes all bytes. Each call takes at least one or is the last, so there is one call for each
byte at the most. -/
def writeAll (sink : Sink) (bytes : List UInt8) : Except Failure Unit × Sink :=
  writeLoop bytes.length sink bytes

/-- Writes fragments in their order, up to the first that fails. -/
def writeFragments (sink : Sink) : List (List UInt8) → Except Failure Unit × Sink
  | [] => (.ok (), sink)
  | fragment :: rest =>
    match sink.writeAll fragment with
    | (.error failure, after) => (.error failure, after)
    | (.ok (), after) => after.writeFragments rest

end Sink

end Profiler
