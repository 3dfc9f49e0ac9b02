/-!
# The nearest whole number to a quotient

`nearest num den` rounds `num / den` to the nearest whole number; a quotient halfway between two
goes to the even one. It is never off by more than half a unit: `nearest_mul_le` and
`le_nearest_mul`.
-/

namespace Profiler.Decimal

/-- The whole number nearest to `num / den`, of two the even one. -/
def nearest (num den : Nat) : Nat :=
  if 2 * (num % den) < den ∨ 2 * (num % den) = den ∧ num / den % 2 = 0 then num / den
  else num / den + 1

theorem nearest_mul_le (num den : Nat) : 2 * (nearest num den * den) ≤ 2 * num + den := by
  have h := Nat.div_add_mod num den
  rw [Nat.mul_comm] at h
  unfold nearest
  split
  · omega
  · rw [Nat.add_mul]; omega

theorem le_nearest_mul (num : Nat) {den : Nat} (hden : 0 < den) :
    2 * num ≤ 2 * (nearest num den * den) + den := by
  have h := Nat.div_add_mod num den
  have hlt := Nat.mod_lt num hden
  rw [Nat.mul_comm] at h
  unfold nearest
  split
  · omega
  · rw [Nat.add_mul]; omega

end Profiler.Decimal
