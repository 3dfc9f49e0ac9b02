/-!
# Numbers that stop at a limit

`Capped cap` holds the natural numbers up to `cap`. A sum that would pass the limit stays at it,
and a difference that would fall below zero stays at zero, so no operation wraps around:
`Capped.val_add` and `Capped.val_sub` say so. The profiler uses two limits, `Count` for entries
and blocks and `Duration` for times.
-/

namespace Profiler

/-- A natural number of at most `cap`. -/
structure Capped (cap : Nat) where
  val : Nat
  val_le : val ≤ cap
deriving DecidableEq

namespace Capped

variable {cap : Nat}

@[ext] theorem ext {a b : Capped cap} (h : a.val = b.val) : a = b := by
  cases a; cases b; cases h; rfl

/-- The closest number to `n` that is within the limit. -/
def ofNat (n : Nat) : Capped cap := ⟨min n cap, Nat.min_le_right n cap⟩

instance : Zero (Capped cap) := ⟨⟨0, Nat.zero_le cap⟩⟩
instance : Inhabited (Capped cap) := ⟨0⟩

/-- Sums stay at the limit. -/
instance : Add (Capped cap) := ⟨fun a b => ofNat (a.val + b.val)⟩

/-- Differences stay at zero. -/
instance : Sub (Capped cap) := ⟨fun a b => ⟨a.val - b.val, Nat.le_trans (Nat.sub_le _ _) a.val_le⟩⟩

instance : LE (Capped cap) := ⟨fun a b => a.val ≤ b.val⟩
instance (a b : Capped cap) : Decidable (a ≤ b) := inferInstanceAs (Decidable (a.val ≤ b.val))

@[simp] theorem val_ofNat (n : Nat) : (ofNat n : Capped cap).val = min n cap := rfl
@[simp] theorem val_zero : (0 : Capped cap).val = 0 := rfl
@[simp] theorem val_add (a b : Capped cap) : (a + b).val = min (a.val + b.val) cap := rfl
@[simp] theorem val_sub (a b : Capped cap) : (a - b).val = a.val - b.val := rfl

theorem le_def {a b : Capped cap} : a ≤ b ↔ a.val ≤ b.val := Iff.rfl

/-- Two increments in a row are one, also when the sum reaches the limit. -/
theorem add_sub_add_sub {a b c : Capped cap} (total : Capped cap) (hab : a ≤ b) (hbc : b ≤ c) :
    total + (b - a) + (c - b) = total + (c - a) := by
  have hlimit := total.val_le
  rw [le_def] at hab hbc
  apply ext
  simp only [val_add, val_sub]
  omega

@[simp] theorem add_sub_self (total a : Capped cap) : total + (a - a) = total := by
  have hlimit := total.val_le
  apply ext
  simp only [val_add, val_sub]
  omega

end Capped

/-- How often something happened: at most `2 ^ 64 - 1` times. -/
abbrev Count := Capped (UInt64.size - 1)

def nanosPerMilli : Nat := 1000000

def nanosPerSecond : Nat := 1000000000

/-- A length of time in nanoseconds: less than `2 ^ 64` seconds. -/
abbrev Duration := Capped (UInt64.size * nanosPerSecond - 1)

namespace Duration

/-- The duration of `secs` seconds and `nanos` nanoseconds. -/
def ofParts (secs nanos : Nat) : Duration := Capped.ofNat (secs * nanosPerSecond + nanos)

/-- The whole seconds of a duration. -/
def secs (d : Duration) : Nat := d.val / nanosPerSecond

/-- What is left of a duration after its whole seconds, in nanoseconds. -/
def nanos (d : Duration) : Nat := d.val % nanosPerSecond

/-- The whole milliseconds of a duration. -/
def millis (d : Duration) : Nat := d.val / nanosPerMilli

end Duration

end Profiler
