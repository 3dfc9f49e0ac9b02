import Profiler.Clock
import Profiler.Event
import Profiler.Sampler.Report
import Profiler.Thread

/-!
# Samplers

A `Sampler` looks at the innermost frame of one thread again and again. It is started once and
stopped once: `Phase` says where it is in its life and holds what it has at that point. It takes a
sample when it starts and one each time that its interval is over.

A sampler runs on a thread of its own, which is named after it. If the thread cannot have that name,
to start the sampler is to crash (`Sampler.startCrash?`), and it stays as it is.
-/

namespace Profiler

/-- Where a sampler is in its life. -/
inductive Phase where
  | created
  | running (startedAt : Duration) (samples : Histogram)
  | stopped (elapsed : Duration) (samples : Histogram)

/-- What counts how often a thread is in which function. -/
structure Sampler where
  name : String
  interval : Duration
  target : ObservedThread
  enabled : Bool
  phase : Phase := .created

namespace Sampler

/-- The time between two samples unless another is asked for. -/
def defaultInterval : Duration := .ofParts 0 (10 * nanosPerMilli)

/-- A histogram with one more sample: the innermost frame of the target, if there is one. -/
def sample (samples : Histogram) : Option CallSite → Histogram
  | some site => samples.record site.label
  | none => samples

/-- The name of the thread that the sampler runs on. -/
def threadName (sampler : Sampler) : String := "sampler-" ++ sampler.name

/-- The message of the crash that an attempt to start the sampler causes. A sampler that is switched
off or was started before needs no thread and so causes none. -/
def startCrash? (sampler : Sampler) : Option String :=
  match sampler.phase with
  | .created => if sampler.enabled then Thread.nameCrash? sampler.threadName else none
  | _ => none

/-- Starts the sampler, which takes its first sample. A sampler that is switched off, was started
before or cannot have its thread stays as it is. -/
def start (sampler : Sampler) (clock : Clock) (top? : Option CallSite) : List Event × Sampler :=
  match sampler.phase with
  | .created =>
    if sampler.enabled ∧ sampler.startCrash? = none then
      ([.samplerStarted sampler.name sampler.target.name],
        { sampler with phase := .running clock.wall (sample .empty top?) })
    else
      ([], sampler)
  | _ => ([], sampler)

/-- The sampler after its interval was over once and it took a sample. -/
def wake (sampler : Sampler) (top? : Option CallSite) : Sampler :=
  match sampler.phase with
  | .running startedAt samples =>
    { sampler with phase := .running startedAt (sample samples top?) }
  | _ => sampler

/-- The sampler after its interval was over `n` times. -/
def wakes (sampler : Sampler) (top? : Option CallSite) : Nat → Sampler
  | 0 => sampler
  | n + 1 => (sampler.wake top?).wakes top? n

/-- Stops the sampler if it is running. -/
def stop (sampler : Sampler) (clock : Clock) : List Event × Sampler :=
  match sampler.phase with
  | .running startedAt samples =>
    ([.samplerExiting sampler.name samples.size],
      { sampler with phase := .stopped (clock.wall - startedAt) samples })
  | _ => ([], sampler)

/-- The report on the samples. It cannot be had while the sampler is running. -/
def report (sampler : Sampler) : Except Fault SampleReport :=
  match sampler.phase with
  | .created => .ok (.ofHistogram sampler.name 0 .empty)
  | .running .. => .error (.samplerRunning sampler.name)
  | .stopped elapsed samples => .ok (.ofHistogram sampler.name elapsed samples)

/-- The report on the samples, and what is said if it cannot be had. -/
def dump (sampler : Sampler) : Except Fault SampleReport × List Event :=
  match sampler.report with
  | .ok report => (.ok report, [])
  | .error fault => (.error fault, [.samplerBusy sampler.name])

end Sampler

end Profiler
