/-!
# Failures of input and output

A `Failure` is what a reader, writer or sink answers when a call does not succeed. Its kind is what
callers act on, its message is what people read.
-/

namespace Profiler

/-- The kinds of failure that callers tell apart. -/
inductive FailureKind where
  /-- The call was interrupted and can be made again. -/
  | interrupted
  | wouldBlock
  | brokenPipe
  | invalidData
  | timedOut
  /-- The input ended before all that was asked for had come. -/
  | unexpectedEnd
  /-- A writer took nothing of what it was given. -/
  | nothingTaken
  /-- There is no room left. -/
  | storageFull
  | other
deriving DecidableEq

/-- Why a call did not succeed. -/
structure Failure where
  kind : FailureKind
  message : String
deriving DecidableEq

namespace Failure

/-- The input ended before a buffer was full. -/
def bufferNotFilled : Failure := ⟨.unexpectedEnd, "failed to fill whole buffer"⟩

/-- A writer stopped taking bytes before a buffer was written. -/
def bufferNotWritten : Failure := ⟨.nothingTaken, "failed to write whole buffer"⟩

/-- A sink has taken all that it has room for. -/
def sinkFull : Failure := ⟨.storageFull, "sink is full"⟩

end Failure

end Profiler
