import Fieldbus.Proofs.Polling.Layout
import Fieldbus.Proofs.Polling.Publication
import Mathlib.Data.List.Chain
import Mathlib.Data.Nat.Find
import Mathlib.Data.Nat.ModEq

/-!
# The pace of polls

How long a group waits between two polls is a function of its period, the ceiling and the number of
polls that have failed in a row.  The count of failures that the group keeps follows that number
only up to the doublings that can be expressed, after which it starts anew; so the waiting times of
a group that keeps failing go round in a cycle.
-/

namespace Fieldbus

section Waiting

variable {period ceiling : Nanoseconds} {doublings failed other : Nat}

/-- The factor has more than 32 bits, or the product is longer than any duration. -/
def Inexpressible (period : Nanoseconds) (doublings : Nat) : Prop :=
  UInt32.size ≤ 2 ^ doublings ∨ longestDuration < period * 2 ^ doublings

instance (period : Nanoseconds) : DecidablePred (Inexpressible period) :=
  fun _ => inferInstanceAs (Decidable (_ ∨ _))

theorem exists_inexpressible (period : Nanoseconds) :
    ∃ doublings, Inexpressible period doublings :=
  ⟨maxDoublings + 1, .inl (Nat.le_refl _)⟩

/-- The least number of doublings that cannot be expressed. -/
def backoffCycle (period : Nanoseconds) : Nat := Nat.find (exists_inexpressible period)

/-- The time between two polls after so many failed polls in a row. -/
def pollWait (period ceiling : Nanoseconds) (failed : Nat) : Nanoseconds :=
  min (period * 2 ^ (failed % backoffCycle period)) (max ceiling period)

theorem Inexpressible.mono (hle : doublings ≤ other) (hout : Inexpressible period doublings) :
    Inexpressible period other := by
  have hpow : 2 ^ doublings ≤ 2 ^ other := Nat.pow_le_pow_right (by decide) hle
  rcases hout with hfactor | hproduct
  · exact .inl (hfactor.trans hpow)
  · exact .inr (hproduct.trans_le (Nat.mul_le_mul_left period hpow))

theorem inexpressible_iff : Inexpressible period doublings ↔ backoffCycle period ≤ doublings := by
  constructor
  · exact Nat.find_min' _
  · intro hle
    exact (Nat.find_spec (exists_inexpressible period)).mono hle

theorem backoffCycle_le (period : Nanoseconds) : backoffCycle period ≤ maxDoublings + 1 :=
  Nat.find_min' _ (.inl (Nat.le_refl _))

theorem backoffCycle_pos (hperiod : period ≤ longestDuration) : 0 < backoffCycle period := by
  rw [← Nat.not_le, ← inexpressible_iff]
  rintro (hfactor | hproduct)
  · exact absurd hfactor (by decide)
  · rw [Nat.pow_zero, Nat.mul_one] at hproduct
    exact Nat.not_lt.mpr hperiod hproduct

theorem pollWait_le (period ceiling : Nanoseconds) (failed : Nat) :
    pollWait period ceiling failed ≤ max ceiling period :=
  Nat.min_le_right _ _

theorem le_pollWait (period ceiling : Nanoseconds) (failed : Nat) :
    period ≤ pollWait period ceiling failed :=
  Nat.le_min.mpr ⟨Nat.le_mul_of_pos_right _ (Nat.two_pow_pos _), Nat.le_max_right _ _⟩

theorem pollWait_zero (period ceiling : Nanoseconds) : pollWait period ceiling 0 = period := by
  rw [pollWait, Nat.zero_mod, Nat.pow_zero, Nat.mul_one, Nat.min_eq_left (Nat.le_max_right _ _)]

theorem backoffCycle_modEq_zero (period : Nanoseconds) :
    backoffCycle period ≡ 0 [MOD backoffCycle period] :=
  Nat.modEq_zero_iff_dvd.mpr dvd_rfl

theorem pollWait_congr (hsame : failed ≡ other [MOD backoffCycle period]) :
    pollWait period ceiling failed = pollWait period ceiling other := by
  rw [pollWait, pollWait, hsame]

/-- The doublings of a second start anew after 32 failures. -/
example : backoffCycle second = 32 ∧ pollWait second (60 * second) 3 = 8 * second ∧
    pollWait second (60 * second) 31 = 60 * second ∧
      pollWait second (60 * second) 32 = second := by decide +kernel

/-- A backoff ends with the doublings that can be expressed. -/
theorem backoff?_eq (hperiod : period ≤ longestDuration) (ceiling : Nanoseconds) (failed : Nat) :
    backoff? period failed ceiling =
      if failed < backoffCycle period then some (pollWait period ceiling failed) else none := by
  have hexpress : (failed ≤ maxDoublings ∧ period <<< failed ≤ longestDuration) ↔
      failed < backoffCycle period := by
    have hfactor : UInt32.size ≤ 2 ^ failed ↔ maxDoublings < failed := by
      have hsize : UInt32.size = 2 ^ (maxDoublings + 1) := rfl
      rw [hsize, Nat.pow_le_pow_iff_right (by decide), Nat.succ_le_iff]
    rw [← Nat.not_le, ← inexpressible_iff, Inexpressible, hfactor, not_or, Nat.not_lt, Nat.not_lt,
      Nat.shiftLeft_eq]
  rw [backoff?]
  split
  · next hzero =>
      subst hzero
      rw [if_pos (backoffCycle_pos hperiod), pollWait_zero]
  · split
    · next hfits =>
        rw [if_pos (hexpress.mp hfits), pollWait, Nat.mod_eq_of_lt (hexpress.mp hfits),
          Nat.shiftLeft_eq]
    · next hout => rw [if_neg (fun hlt => hout (hexpress.mpr hlt))]

end Waiting

namespace PollOutcome

/-- The group was polled, whatever came of it. -/
def isPoll : PollOutcome → Bool
  | polled | failed _ => true
  | notDue | deferred => false

/-- The poll is recorded: it did not fail because the connection ends. -/
def isRecorded : PollOutcome → Bool
  | polled => true
  | failed error => !error.isEnding
  | notDue | deferred => false

theorem isPoll_of_isRecorded {outcome : PollOutcome} (hrecorded : outcome.isRecorded = true) :
    outcome.isPoll = true := by
  cases outcome <;> first | rfl | exact hrecorded

end PollOutcome

/-- The visits that have gone into the record of the polls. -/
def recorded (visits : List (Instant × PollOutcome)) : List (Instant × PollOutcome) :=
  visits.filter (·.2.isRecorded)

theorem recorded_concat (visits : List (Instant × PollOutcome)) (instant : Instant)
    (outcome : PollOutcome) :
    recorded (visits ++ [(instant, outcome)]) =
      if outcome.isRecorded then recorded visits ++ [(instant, outcome)] else recorded visits := by
  cases hrecorded : outcome.isRecorded <;> simp [recorded, hrecorded]

/-- The failed polls after the last one that has succeeded. -/
def failuresInRow (polls : List (Instant × PollOutcome)) : Nat :=
  (polls.reverse.takeWhile (·.2 != .polled)).length

theorem failuresInRow_polled (polls : List (Instant × PollOutcome)) (instant : Instant) :
    failuresInRow (polls ++ [(instant, .polled)]) = 0 := by
  simp [failuresInRow]

theorem failuresInRow_failed (polls : List (Instant × PollOutcome)) (instant : Instant)
    (error : RequestError) :
    failuresInRow (polls ++ [(instant, .failed error)]) = failuresInRow polls + 1 := by
  simp [failuresInRow]

namespace PollGroup

variable {ceiling : Nanoseconds} {instant : Instant} {group first kept : PollGroup}
variable {outcome : PollOutcome} {visits polls : List (Instant × PollOutcome)}

/-- What a visit leaves of a group. -/
inductive Visited (ceiling : Nanoseconds) (instant : Instant) (group : PollGroup) :
    PollOutcome → PollGroup → Prop where
  | notDue (hdue : group.isDue instant ceiling = false) :
      Visited ceiling instant group .notDue (group.asked ceiling)
  | deferred (hdue : group.isDue instant ceiling = true) :
      Visited ceiling instant group .deferred (group.asked ceiling)
  | polled (hdue : group.isDue instant ceiling = true) :
      Visited ceiling instant group .polled ((group.asked ceiling).recordSuccess instant)
  | failed {error : RequestError} (hdue : group.isDue instant ceiling = true)
      (hcounts : error.isEnding = false) :
      Visited ceiling instant group (.failed error) ((group.asked ceiling).recordFailure instant)
  | aborted {error : RequestError} (hdue : group.isDue instant ceiling = true)
      (hending : error.isEnding = true) :
      Visited ceiling instant group (.failed error) (group.asked ceiling)

/-- What all the visits to a group leave of it, from the beginning. -/
inductive Course (ceiling : Nanoseconds) (first : PollGroup) :
    List (Instant × PollOutcome) → PollGroup → Prop where
  | nil : Course ceiling first [] first.task
  | snoc {visits : List (Instant × PollOutcome)} {group kept : PollGroup} {instant : Instant}
      {outcome : PollOutcome} (hcourse : Course ceiling first visits group)
      (hvisited : group.Visited ceiling instant outcome kept) :
      Course ceiling first (visits ++ [(instant, outcome)]) kept

/-- The group is polled when it has waited long enough since the last poll. -/
structure Paced (ceiling : Nanoseconds) (polls : List (Instant × PollOutcome))
    (group : PollGroup) : Prop where
  /-- The wait depends on the polls that have failed in a row. -/
  due : ∀ instant, group.isDue instant ceiling = true ↔ ∀ last ∈ polls.getLast?,
    last.1 + pollWait group.period ceiling (failuresInRow polls) ≤ instant
  /-- Two polls in a row are at least a period apart. -/
  apart : polls.IsChain fun earlier later => earlier.1 + group.period ≤ later.1
  /-- The wait has a limit. -/
  bounded : pollWait group.period ceiling (failuresInRow polls) ≤ max ceiling group.period

/-- What the record of a group tells of its polls.  The failures are counted as far as the
doublings can be expressed. -/
structure Recalls (polls : List (Instant × PollOutcome)) (group : PollGroup) : Prop where
  period : group.period ≤ longestDuration
  last : group.lastPollAt = polls.getLast?.map (·.1)
  failures : group.failures ≡ failuresInRow polls [MOD backoffCycle group.period]
  failures_le : group.failures ≤ backoffCycle group.period
  -- Before the first poll the count is never started anew.
  unpolled : group.lastPollAt = none → group.failures = 0

theorem Recalls.effectivePeriod_eq (hrecalls : group.Recalls polls) (ceiling : Nanoseconds) :
    group.effectivePeriod ceiling = pollWait group.period ceiling (failuresInRow polls) := by
  rw [← pollWait_congr hrecalls.failures, effectivePeriod, backoff?_eq hrecalls.period]
  split
  · rfl
  · next hover =>
      have hfull : group.failures = backoffCycle group.period :=
        Nat.le_antisymm hrecalls.failures_le (Nat.not_lt.mp hover)
      rw [Option.getD_none, hfull, pollWait_congr (backoffCycle_modEq_zero _), pollWait_zero]

theorem Recalls.isDue_iff (hrecalls : group.Recalls polls) (instant : Instant)
    (ceiling : Nanoseconds) :
    group.isDue instant ceiling = true ↔ ∀ last ∈ polls.getLast?,
      last.1 + pollWait group.period ceiling (failuresInRow polls) ≤ instant := by
  rw [isDue, nextPollAt?, hrecalls.effectivePeriod_eq, hrecalls.last]
  cases polls.getLast? with
  | none => simp
  | some last => simp

theorem Recalls.forgets_iff (hrecalls : group.Recalls polls) (ceiling : Nanoseconds) :
    group.forgets ceiling = true ↔ group.failures = backoffCycle group.period := by
  rw [forgets, Bool.and_eq_true, overflows, backoff?_eq hrecalls.period]
  constructor
  · rintro ⟨-, hover⟩
    apply Nat.le_antisymm hrecalls.failures_le
    by_contra hfits
    simp [Nat.not_le.mp hfits] at hover
  · intro hfull
    refine ⟨?_, by simp [hfull]⟩
    rw [Option.isSome_iff_ne_none]
    intro hnever
    have hnone := hrecalls.unpolled hnever
    exact absurd (hfull.symm.trans hnone) (Nat.ne_of_gt (backoffCycle_pos hrecalls.period))

theorem period_asked (ceiling : Nanoseconds) (group : PollGroup) :
    (group.asked ceiling).period = group.period := by
  have hperiod := congrArg PollGroup.period (task_asked ceiling group)
  exact hperiod

theorem Recalls.asked (hrecalls : group.Recalls polls) (ceiling : Nanoseconds) :
    (group.asked ceiling).Recalls polls := by
  rw [PollGroup.asked]
  split
  · next hforgets =>
      have hround := hrecalls.failures
      rw [(hrecalls.forgets_iff ceiling).mp hforgets] at hround
      have hanew := (backoffCycle_modEq_zero group.period).symm.trans hround
      exact ⟨hrecalls.period, hrecalls.last, hanew, Nat.zero_le _, fun _ => rfl⟩
  · exact hrecalls

/-- The question whether a group is due leaves room for one more failure. -/
theorem Recalls.failures_asked_lt (hrecalls : group.Recalls polls) (ceiling : Nanoseconds) :
    (group.asked ceiling).failures < backoffCycle (group.asked ceiling).period := by
  rw [period_asked, PollGroup.asked]
  split
  · exact backoffCycle_pos hrecalls.period
  · next hkeeps =>
      apply Nat.lt_of_le_of_ne hrecalls.failures_le
      exact fun hfull => hkeeps ((hrecalls.forgets_iff ceiling).mpr hfull)

theorem Recalls.recordSuccess (hrecalls : group.Recalls polls) (instant : Instant) :
    (group.recordSuccess instant).Recalls (polls ++ [(instant, .polled)]) where
  period := hrecalls.period
  last := by rw [List.getLast?_concat, PollGroup.recordSuccess, Option.map_some]
  failures := by
    rw [failuresInRow_polled]
    rfl
  failures_le := Nat.zero_le _
  unpolled hnever := by simp [PollGroup.recordSuccess] at hnever

theorem Recalls.recordFailure (hrecalls : group.Recalls polls)
    (hroom : group.failures < backoffCycle group.period) (instant : Instant)
    (error : RequestError) :
    (group.recordFailure instant).Recalls (polls ++ [(instant, .failed error)]) := by
  have hcount : (group.recordFailure instant).failures = group.failures + 1 := by
    have hlimit : maxDoublings + 1 ≤ maxFailures := by decide
    exact Nat.min_eq_left ((hroom.trans_le (backoffCycle_le group.period)).trans_le hlimit)
  constructor
  · exact hrecalls.period
  · rw [List.getLast?_concat, PollGroup.recordFailure, Option.map_some]
  · rw [failuresInRow_failed, hcount]
    exact hrecalls.failures.add_right 1
  · rw [hcount]
    exact hroom
  · intro hnever
    simp [PollGroup.recordFailure] at hnever

theorem Visited.period_eq (hvisited : group.Visited ceiling instant outcome kept) :
    kept.period = group.period := by
  cases hvisited <;> exact period_asked ceiling group

/-- Only a group that is due is polled. -/
theorem Visited.isDue (hvisited : group.Visited ceiling instant outcome kept)
    (hpoll : outcome.isPoll = true) : group.isDue instant ceiling = true := by
  cases hvisited with
  | notDue | deferred => simp [PollOutcome.isPoll] at hpoll
  | polled hdue | failed hdue | aborted hdue => exact hdue

/-- A visit keeps the record of a group true. -/
theorem Visited.recalls (hvisited : group.Visited ceiling instant outcome kept)
    (hrecalls : group.Recalls (recorded visits)) :
    kept.Recalls (recorded (visits ++ [(instant, outcome)])) := by
  have hasked := hrecalls.asked ceiling
  rw [recorded_concat]
  cases hvisited with
  | notDue | deferred => exact hasked
  | polled => exact hasked.recordSuccess instant
  | failed hdue hcounts =>
      rw [if_pos (by simp [PollOutcome.isRecorded, hcounts])]
      exact hasked.recordFailure (hrecalls.failures_asked_lt ceiling) instant _
  | aborted hdue hending =>
      rw [if_neg (by simp [PollOutcome.isRecorded, hending])]
      exact hasked

theorem Course.recalls (hcourse : Course ceiling first visits group)
    (hperiod : first.period ≤ longestDuration) : group.Recalls (recorded visits) := by
  induction hcourse with
  | nil => exact ⟨hperiod, rfl, rfl, Nat.zero_le _, fun _ => rfl⟩
  | snoc _ hvisited ih => exact hvisited.recalls ih

theorem Course.apart (hcourse : Course ceiling first visits group)
    (hperiod : first.period ≤ longestDuration) :
    (recorded visits).IsChain fun earlier later => earlier.1 + group.period ≤ later.1 := by
  induction hcourse with
  | nil => exact .nil
  | snoc hearlier hvisited ih =>
      rw [recorded_concat, hvisited.period_eq]
      split
      · next hrecorded =>
          have hdue := hvisited.isDue (PollOutcome.isPoll_of_isRecorded hrecorded)
          have hwaited := ((hearlier.recalls hperiod).isDue_iff _ _).mp hdue
          refine List.isChain_append.mpr ⟨ih, List.isChain_singleton _, ?_⟩
          intro last hlast next hnext
          obtain rfl := Option.some.inj hnext
          exact (Nat.add_le_add_left (le_pollWait _ _ _) last.1).trans (hwaited last hlast)
      · exact ih

/-- Every group that has been visited from the beginning on keeps the pace. -/
theorem Course.paced (hcourse : Course ceiling first visits group)
    (hperiod : first.period ≤ longestDuration) : Paced ceiling (recorded visits) group where
  due instant := (hcourse.recalls hperiod).isDue_iff instant ceiling
  apart := hcourse.apart hperiod
  bounded := pollWait_le _ _ _

end PollGroup

end Fieldbus
