import Profiler.Proofs.Gauges

/-!
# The five fields of a region

A `Field` is one of the numbers that a region shows: what was collected of a gauge, or how often the
region was entered. Whatever happens to a region adds an amount to each of its fields, up to the
limit of the field, and that amount is all that the field ever learns of it: `Field.of_countEntry`,
`Field.of_elapse` and `Field.of_add` say what it is. Fields that are not tracked get nothing.
-/

namespace Profiler

/-- What a reading says of the gauge, if it was taken. -/
def Gauge.value? (gauge : Gauge) (reading : Reading) : Option Nat :=
  match gauge with
  | wall => reading.wall.map Capped.val
  | cpu => reading.usage.map fun usage => usage.cpu.val
  | reads => reading.usage.map fun usage => usage.reads.val
  | writes => reading.usage.map fun usage => usage.writes.val

theorem Gauge.value?_reading (gauge : Gauge) (clock : Clock) (metrics : Metrics) (scope : Scope) :
    gauge.value? (clock.reading metrics scope) =
      if gauge.tracked metrics then some (gauge.read scope clock) else none := by
  cases hwall : metrics.wall <;> cases hcpu : metrics.cpu <;> cases gauge <;>
    simp [value?, Clock.reading, tracked, read, hwall, hcpu]

/-- A number that a region shows. -/
inductive Field where
  /-- What was collected of a gauge. -/
  | collected (gauge : Gauge)
  /-- How often the region was entered. -/
  | entries
deriving DecidableEq

namespace Field

/-- The value of the field. -/
def of (field : Field) (totals : Totals) : Nat :=
  match field with
  | collected gauge => gauge.total totals
  | entries => totals.count.val

/-- The largest value of the field. -/
def limit : Field → Nat
  | collected gauge => gauge.limit
  | entries => UInt64.size - 1

/-- Whether anything is ever put into the field. -/
def tracked (field : Field) (metrics : Metrics) : Bool :=
  match field with
  | collected gauge => gauge.tracked metrics
  | entries => metrics.count

/-- What an entry adds to the field. -/
def perEntry (field : Field) (metrics : Metrics) : Nat :=
  if field = entries ∧ metrics.count = true then 1 else 0

/-- What the field learns of a reading. The number of entries learns nothing. -/
def seen? (field : Field) (reading : Reading) : Option Nat :=
  match field with
  | collected gauge => gauge.value? reading
  | entries => none

/-- What goes by between two readings, as far as both of them tell. -/
def elapsed (field : Field) (entry now : Reading) : Nat :=
  match field.seen? entry, field.seen? now with
  | some start, some stop => stop - start
  | _, _ => 0

/-- What an addition adds to the field. -/
def amount (field : Field) (addition : Addition) : Nat :=
  match field, addition with
  | collected .wall, .wall time => time.val
  | collected .cpu, .cpu time => time.val
  | collected .reads, .reads blocks => blocks.val
  | collected .writes, .writes blocks => blocks.val
  | entries, .count number => number.val
  | _, _ => 0

variable (field : Field)

@[simp] theorem of_default : field.of {} = 0 := by
  rcases field with gauge | _
  · cases gauge <;> rfl
  · rfl

theorem of_le_limit (totals : Totals) : field.of totals ≤ field.limit := by
  rcases field with gauge | _
  · cases gauge <;> exact Capped.val_le _
  · exact totals.count.val_le

/-! ### Changes of totals -/

theorem of_countEntry (totals : Totals) (metrics : Metrics) :
    field.of (totals.countEntry metrics) =
      min (field.of totals + field.perEntry metrics) field.limit := by
  have hle := field.of_le_limit totals
  rcases field with gauge | _
  · show gauge.total (totals.countEntry metrics) = _
    rw [gauge.total_countEntry]
    exact (Nat.min_eq_left hle).symm
  · -- One more entry is one more, up to the limit, if entries are counted at all.
    cases hcount : metrics.count
    · simpa [of, perEntry, Totals.countEntry, hcount] using (Nat.min_eq_left hle).symm
    · simp [of, perEntry, Totals.countEntry, hcount, limit]

theorem of_elapse (totals : Totals) (entry now : Reading) :
    field.of (totals.elapse entry now) =
      min (field.of totals + field.elapsed entry now) field.limit := by
  have hle := field.of_le_limit totals
  rcases field with gauge | _
  · unfold elapsed
    cases gauge
    all_goals
      rcases entry with ⟨_ | _, _ | _⟩ <;> rcases now with ⟨_ | _, _ | _⟩ <;>
        first | rfl | exact (Nat.min_eq_left hle).symm
  · exact (Nat.min_eq_left hle).symm

theorem of_add (totals : Totals) (addition : Addition) :
    field.of (totals.add addition) =
      min (field.of totals + field.amount addition) field.limit := by
  have hle := field.of_le_limit totals
  rcases field with gauge | _
  · cases gauge <;> cases addition <;> first | rfl | exact (Nat.min_eq_left hle).symm
  · cases addition <;> first | rfl | exact (Nat.min_eq_left hle).symm

/-! ### Fields that are not tracked -/

section

variable {field : Field} {metrics : Metrics} (h : field.tracked metrics = false)
include h

theorem perEntry_of_not_tracked : field.perEntry metrics = 0 := by
  unfold perEntry
  rw [if_neg]
  rintro ⟨rfl, hcount⟩
  exact Bool.false_ne_true (h.symm.trans hcount)

theorem seen?_of_not_tracked (clock : Clock) (scope : Scope) :
    field.seen? (clock.reading metrics scope) = none := by
  rcases field with gauge | _
  · have hgauge : gauge.tracked metrics = false := h
    rw [seen?, gauge.value?_reading, hgauge]
    rfl
  · rfl

theorem elapsed_of_not_tracked (entry : Reading) (clock : Clock) (scope : Scope) :
    field.elapsed entry (clock.reading metrics scope) = 0 := by
  unfold elapsed
  rw [seen?_of_not_tracked h clock scope]
  split <;> simp_all

/-- An addition that is accepted goes to a field that is tracked. -/
theorem amount_of_not_tracked {addition : Addition} (haccepts : metrics.accepts addition = true) :
    field.amount addition = 0 := by
  unfold amount
  split
  all_goals first | rfl | exact absurd (h.symm.trans haccepts) Bool.false_ne_true

end

end Field

end Profiler
