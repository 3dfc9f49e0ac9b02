import Profiler.CallStack
import Profiler.Keyed
import Profiler.Text.Utf8

/-!
# Threads

A `Thread` keeps its call stack and the guards of its frames. A guard knows the depth that the
stack had before its frame was pushed; to end the frame is to cut the stack down to that depth,
whether or not the frame is still there. A thread that has ended has no frames and is never alive
again.

The name of a thread is kept with a NUL as its end and so may not hold one: `Thread.nameCrash?` is
what becomes of a program that asks for such a name.
-/

namespace Profiler

/-- The number of a thread. No two threads of a program ever have the same. -/
abbrev ThreadId := Nat

/-- A thread. -/
structure Thread where
  name : String
  alive : Bool := true
  stack : CallStack := {}
  /-- The depths to which the frames that are yet to be ended cut the stack, by key. -/
  guards : Keyed String Nat := .empty

namespace Thread

/-- The message of the crash that a name causes if it has a NUL in it. It tells the index of the
first NUL among the bytes of the name, and all of these bytes. -/
def nameCrash? (name : String) : Option String :=
  let bytes := utf8 name.toList
  (bytes.findIdx? (· = 0)).map fun index =>
    "thread name may not contain interior null bytes: NulError(" ++ toString index ++ ", ["
      ++ ", ".intercalate (bytes.map fun byte => toString byte.toNat) ++ "])"

/-- The thread after it has entered a function; the guard of the frame is kept under a key. If
there was another guard under that key, its frame is ended afterwards. -/
def push (thread : Thread) (key : String) (site : CallSite) : Thread :=
  let pushed := thread.stack.push site
  { thread with
    stack := match thread.guards.get? key with
      | none => pushed
      | some depth => pushed.truncate depth
    guards := thread.guards.insert key thread.stack.depth }

/-- The thread after the frame under a key was ended, if there is a guard under that key. -/
def endFrame? (thread : Thread) (key : String) : Option Thread :=
  (thread.guards.get? key).map fun depth =>
    { thread with stack := thread.stack.truncate depth, guards := thread.guards.erase key }

/-- The thread after its end. -/
def finish (thread : Thread) : Thread :=
  { thread with alive := false, stack := {}, guards := .empty }

/-- The innermost frame, of which a thread that has ended has none. -/
def top? (thread : Thread) : Option CallSite := if thread.alive then thread.stack.top? else none

end Thread

/-- A thread as an observer knows it. -/
structure ObservedThread where
  id : ThreadId
  name : String
deriving DecidableEq

end Profiler
