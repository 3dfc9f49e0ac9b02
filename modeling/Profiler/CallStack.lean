/-!
# Call stacks

A thread that wants to be seen keeps a `CallStack` itself: it pushes a frame when it enters a
function and gets back the depth of the frame, and ending the frame cuts the stack down to that
depth, whatever was pushed on top of it since.
-/

namespace Profiler

/-- A function as samples know it. -/
structure CallSite where
  declaringType : String
  method : String
deriving DecidableEq

/-- The text by which samples count a function. -/
def CallSite.label (site : CallSite) : String := site.declaringType ++ "." ++ site.method

/-- The frames of a thread, the outermost first. -/
structure CallStack where
  frames : List CallSite := []
deriving DecidableEq

namespace CallStack

/-- The innermost frame. -/
def top? (stack : CallStack) : Option CallSite := stack.frames.getLast?

/-- The depth at which the next frame will be. -/
def depth (stack : CallStack) : Nat := stack.frames.length

/-- The stack with a new innermost frame. -/
def push (stack : CallStack) (site : CallSite) : CallStack := ⟨stack.frames ++ [site]⟩

/-- The stack with its outermost `depth` frames only. -/
def truncate (stack : CallStack) (depth : Nat) : CallStack := ⟨stack.frames.take depth⟩

@[simp] theorem frames_push (stack : CallStack) (site : CallSite) :
    (stack.push site).frames = stack.frames ++ [site] := rfl

@[simp] theorem frames_truncate (stack : CallStack) (depth : Nat) :
    (stack.truncate depth).frames = stack.frames.take depth := rfl

@[simp] theorem top?_push (stack : CallStack) (site : CallSite) :
    (stack.push site).top? = some site := by
  simp [top?]

end CallStack

end Profiler
