import Profiler.Proofs.Totals
import Profiler.Timer.Basic

/-!
# Gauges

A `Gauge` is a source of readings that only add up: wall time, processor time, and the blocks read
and written. Each has a total in every region, a mark in every node, and a limit at which totals
stop. `Gauge.total_elapse` says once, for all four, what closing a region does to its total.
-/

namespace Profiler

/-- A source of readings whose increments are collected in regions. -/
inductive Gauge where
  | wall
  | cpu
  | reads
  | writes
deriving DecidableEq

namespace Gauge

/-- Whether readings of the gauge are taken. Blocks are read together with processor time. -/
def tracked (gauge : Gauge) (metrics : Metrics) : Bool :=
  match gauge with
  | wall => metrics.wall
  | cpu | reads | writes => metrics.cpu

/-- The largest total. -/
def limit : Gauge → Nat
  | wall | cpu => UInt64.size * nanosPerSecond - 1
  | reads | writes => UInt64.size - 1

/-- What a timer of the scope reads from the clock. -/
def read (gauge : Gauge) (scope : Scope) (clock : Clock) : Nat :=
  match gauge with
  | wall => clock.wall.val
  | cpu => (clock.usage scope).cpu.val
  | reads => (clock.usage scope).reads.val
  | writes => (clock.usage scope).writes.val

def mark (gauge : Gauge) (marks : Marks) : Nat :=
  match gauge with
  | wall => marks.wall.val
  | cpu => marks.usage.cpu.val
  | reads => marks.usage.reads.val
  | writes => marks.usage.writes.val

def total (gauge : Gauge) (totals : Totals) : Nat :=
  match gauge with
  | wall => totals.wall.val
  | cpu => totals.cpu.val
  | reads => totals.reads.val
  | writes => totals.writes.val

/-- Whether an addition goes to the total of the gauge. -/
def takes (gauge : Gauge) : Addition → Bool
  | .wall _ => gauge = wall
  | .cpu _ => gauge = cpu
  | .count _ => false
  | .reads _ => gauge = reads
  | .writes _ => gauge = writes

variable (gauge : Gauge)

theorem read_le_limit (scope : Scope) (clock : Clock) : gauge.read scope clock ≤ gauge.limit := by
  cases gauge <;> exact Capped.val_le _

@[simp] theorem total_countEntry (totals : Totals) (metrics : Metrics) :
    gauge.total (totals.countEntry metrics) = gauge.total totals := by
  unfold Totals.countEntry
  split
  · cases gauge <;> rfl
  · rfl

theorem total_add {addition : Addition} (h : gauge.takes addition = false) (totals : Totals) :
    gauge.total (totals.add addition) = gauge.total totals := by
  cases gauge <;> cases addition <;> first | rfl | cases h

@[simp] theorem total_default : gauge.total (default : Node).region.totals = 0 := by
  cases gauge <;> rfl

/-! ### Gauges of usage -/

section

variable {gauge} (h : gauge ≠ wall)
include h

theorem tracked_of_ne_wall (metrics : Metrics) : gauge.tracked metrics = metrics.cpu := by
  cases gauge with
  | wall => exact absurd rfl h
  | _ => rfl

theorem read_eq_read_of_ne_wall {scope scope' : Scope} {clock clock' : Clock}
    (husage : clock.usage scope = clock'.usage scope') :
    gauge.read scope clock = gauge.read scope' clock' := by
  cases gauge with
  | wall => exact absurd rfl h
  | cpu => exact congrArg (·.cpu.val) husage
  | reads => exact congrArg (·.reads.val) husage
  | writes => exact congrArg (·.writes.val) husage

end

/-! ### What is read since a mark -/

variable {metrics : Metrics} (htracked : gauge.tracked metrics = true)
include htracked

/-- **Closing adds what was read since the mark**, up to the limit. -/
theorem total_elapse (totals : Totals) (marks : Marks) (scope : Scope) (clock : Clock) :
    gauge.total (totals.elapse (marks.tracked metrics) (clock.reading metrics scope)) =
      min (gauge.total totals + (gauge.read scope clock - gauge.mark marks)) gauge.limit := by
  unfold tracked at htracked
  cases gauge <;> simp [Totals.elapse, Marks.tracked, Clock.reading, htracked, total, read, mark,
    limit]

/-- Marks that stand for a reading are that reading. -/
theorem mark_of_tracked {marks : Marks} {scope : Scope} {clock : Clock}
    (h : marks.tracked metrics = clock.reading metrics scope) :
    gauge.mark marks = gauge.read scope clock := by
  unfold tracked at htracked
  cases gauge <;> simp_all [Marks.tracked, Clock.reading, read, mark]

end Gauge

end Profiler
