import Fieldbus.Time

/-!
# Write activity

What the scheduler knows of the writes: how many are under way and when the last one ended.
-/

namespace Fieldbus

structure WriteTrace where
  pending : Nat := 0
  lastEndAt : Option Instant := none
  deriving DecidableEq, Repr

namespace WriteTrace

def start (trace : WriteTrace) : WriteTrace := { trace with pending := trace.pending + 1 }

def finish (now : Instant) (trace : WriteTrace) : WriteTrace :=
  { pending := trace.pending - 1, lastEndAt := some now }

/-- The end of the quiet time after the last write. -/
def quietUntil? (quiet : Nanoseconds) (trace : WriteTrace) : Option Instant :=
  trace.lastEndAt.map (· + quiet)

/-- A write is under way, or the last one ended less than `quiet` ago. -/
def shouldDefer (now : Instant) (quiet : Nanoseconds) (trace : WriteTrace) : Bool :=
  0 < trace.pending ||
    match trace.quietUntil? quiet with
    | some stop => now < stop
    | none => false

theorem shouldDefer_iff {trace : WriteTrace} {now : Instant} {quiet : Nanoseconds} :
    trace.shouldDefer now quiet = true ↔
      0 < trace.pending ∨ ∃ last, trace.lastEndAt = some last ∧ now < last + quiet := by
  rw [shouldDefer, Bool.or_eq_true, decide_eq_true_eq, quietUntil?]
  cases trace.lastEndAt <;> simp

end WriteTrace

end Fieldbus
