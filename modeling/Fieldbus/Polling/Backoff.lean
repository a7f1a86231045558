import Fieldbus.Time

/-!
# Backoff

Each failure in a row doubles the time until a group is polled again, up to a ceiling.
-/

namespace Fieldbus

/-- The number of doublings that a 32-bit factor can express. -/
def maxDoublings : Nat := 31

/-- The time between two polls after some failures in a row, or nothing when the doubled period
cannot be expressed.  A period above the ceiling is not shortened. -/
def backoff? (period : Nanoseconds) (failures : Nat) (ceiling : Nanoseconds) :
    Option Nanoseconds :=
  if failures = 0 then some period
  else if failures ≤ maxDoublings ∧ period <<< failures ≤ longestDuration then
    some (min (period <<< failures) (max ceiling period))
  else none

theorem backoff?_le {period ceiling delay : Nanoseconds} {failures : Nat}
    (hdelay : backoff? period failures ceiling = some delay) : delay ≤ max ceiling period := by
  unfold backoff? at hdelay
  split at hdelay
  · obtain rfl := Option.some.inj hdelay
    exact Nat.le_max_right _ _
  · split at hdelay
    · obtain rfl := Option.some.inj hdelay
      exact Nat.min_le_right _ _
    · exact absurd hdelay (by simp)

theorem le_backoff? {period ceiling delay : Nanoseconds} {failures : Nat}
    (hdelay : backoff? period failures ceiling = some delay) : period ≤ delay := by
  unfold backoff? at hdelay
  split at hdelay
  · obtain rfl := Option.some.inj hdelay
    exact Nat.le_refl _
  · split at hdelay
    · obtain rfl := Option.some.inj hdelay
      rw [Nat.shiftLeft_eq]
      exact Nat.le_min.mpr
        ⟨Nat.le_mul_of_pos_right _ (Nat.two_pow_pos _), Nat.le_max_right _ _⟩
    · exact absurd hdelay (by simp)

end Fieldbus
