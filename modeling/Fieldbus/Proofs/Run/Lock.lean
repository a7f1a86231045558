import Fieldbus.Connection.Lock
import Mathlib.Data.List.Basic

/-!
# What a fair lock guarantees

Every actor stands in some way to a lock.  A lock that keeps count of the stances of all actors has
at most one actor inside, and the changes of stance that its operations go with keep the count.
-/

namespace Fieldbus

/-- How an actor stands to a lock. -/
inductive Stance where
  | away
  /-- It waits for the lock, or the lock has been given to it and it has not gone on yet. -/
  | queued
  /-- It relies on holding the lock. -/
  | inside
  deriving DecidableEq, Repr

namespace FairLock

variable {lock : FairLock} {stance : Actor → Stance} {actor other : Actor}

/-- The actors that hold the lock or wait for it, in their order. -/
def members (lock : FairLock) : List Actor := lock.holder.toList ++ lock.waiting

theorem isHeldBy_iff : lock.isHeldBy actor = true ↔ lock.holder = some actor := by
  simp [isHeldBy]

theorem members_eq_cons (hholder : lock.holder = some actor) :
    lock.members = actor :: lock.waiting := by
  simp [members, hholder]

/-- Nobody waits for the lock while nobody holds it. -/
def Prompt (lock : FairLock) : Prop := lock.holder = none → lock.waiting = []

theorem prompt_request (actor : Actor) (lock : FairLock) : (lock.request actor).Prompt := by
  unfold request Prompt
  cases lock.holder <;> simp

theorem prompt_release (lock : FairLock) : lock.release.Prompt := by
  unfold release Prompt
  cases lock.waiting <;> simp

theorem Prompt.withdraw (hprompt : lock.Prompt) (actor : Actor) : (lock.withdraw actor).Prompt := by
  unfold FairLock.withdraw
  split
  · exact prompt_release lock
  · intro hnone
    simp [hprompt hnone]

theorem Prompt.exists_holder (hprompt : lock.Prompt) (hmem : actor ∈ lock.members) :
    ∃ first, lock.holder = some first := by
  cases hholder : lock.holder with
  | some first => exact ⟨first, rfl⟩
  | none => simp [members, hholder, hprompt hholder] at hmem

/-- Who asks for the lock comes last. -/
theorem Prompt.members_request (hprompt : lock.Prompt) (actor : Actor) :
    (lock.request actor).members = lock.members ++ [actor] := by
  unfold request members
  cases hholder : lock.holder with
  | none => simp [hprompt hholder]
  | some first => simp

theorem members_release (lock : FairLock) : lock.release.members = lock.waiting := by
  unfold release members
  cases lock.waiting <;> rfl

theorem members_withdraw (hnodup : lock.members.Nodup) (actor : Actor) :
    (lock.withdraw actor).members = lock.members.filter (· ≠ actor) := by
  unfold withdraw
  split
  · next hheld =>
      have hholder := isHeldBy_iff.mp hheld
      rw [members_eq_cons hholder, List.nodup_cons] at hnodup
      have hothers : ∀ waiter ∈ lock.waiting, waiter ≠ actor := fun waiter hwaiter heq =>
        hnodup.1 (heq ▸ hwaiter)
      rw [members_release, members_eq_cons hholder]
      simp only [ne_eq, not_true_eq_false, decide_false, Bool.false_eq_true, not_false_eq_true,
        List.filter_cons_of_neg]
      exact (List.filter_eq_self.mpr (by simpa using hothers)).symm
  · next hheld =>
      have hholder := mt isHeldBy_iff.mpr hheld
      have hkept : lock.holder.toList.filter (· ≠ actor) = lock.holder.toList := by
        refine List.filter_eq_self.mpr fun first hfirst => ?_
        rw [Option.mem_toList] at hfirst
        simp only [ne_eq, decide_eq_true_eq]
        rintro rfl
        exact hholder hfirst
      change lock.holder.toList ++ lock.waiting.filter (· ≠ actor) =
        (lock.holder.toList ++ lock.waiting).filter (· ≠ actor)
      rw [List.filter_append, hkept]

/-- The lock knows exactly the actors that are not away, one that is inside holds it, and nobody
waits for it while it is free. -/
structure Guards (lock : FairLock) (stance : Actor → Stance) : Prop where
  mem_iff : ∀ actor, actor ∈ lock.members ↔ stance actor ≠ .away
  nodup : lock.members.Nodup
  holder_of_inside : ∀ actor, stance actor = .inside → lock.holder = some actor
  prompt : lock.Prompt

namespace Guards

theorem initial : ({} : FairLock).Guards fun _ => .away where
  mem_iff := by simp [members]
  nodup := by simp [members]
  holder_of_inside := by simp
  prompt _ := rfl

/-- At most one actor is inside. -/
theorem inside_unique (hguards : lock.Guards stance) (hactor : stance actor = .inside)
    (hother : stance other = .inside) : actor = other := by
  have hholder := hguards.holder_of_inside actor hactor
  rw [hguards.holder_of_inside other hother] at hholder
  exact (Option.some.inj hholder).symm

theorem not_inside_of_holder (hguards : lock.Guards stance) (hholder : lock.holder = some actor)
    (hne : other ≠ actor) : stance other ≠ .inside := by
  intro hinside
  have hother := hguards.holder_of_inside other hinside
  rw [hholder] at hother
  exact hne (Option.some.inj hother).symm

theorem ne_away_of_holder (hguards : lock.Guards stance) (hholder : lock.holder = some actor) :
    stance actor ≠ .away :=
  (hguards.mem_iff actor).mp (by simp [members_eq_cons hholder])

/-- An actor that is away queues. -/
theorem request (hguards : lock.Guards stance) (haway : stance actor = .away) :
    (lock.request actor).Guards (Function.update stance actor .queued) where
  mem_iff other := by
    rw [hguards.prompt.members_request, List.mem_append, List.mem_singleton, hguards.mem_iff]
    by_cases hother : other = actor
    · simp [hother]
    · simp [hother]
  nodup := by
    rw [hguards.prompt.members_request, (List.perm_append_singleton actor _).nodup_iff,
      List.nodup_cons, hguards.mem_iff]
    exact ⟨fun hne => hne haway, hguards.nodup⟩
  holder_of_inside other hinside := by
    have hother : other ≠ actor := by
      rintro rfl
      simp at hinside
    rw [Function.update_of_ne hother] at hinside
    have hholder := hguards.holder_of_inside other hinside
    simp [FairLock.request, hholder]
  prompt := prompt_request actor lock

/-- The holder goes inside. -/
theorem enter (hguards : lock.Guards stance) (hholder : lock.holder = some actor) :
    lock.Guards (Function.update stance actor .inside) where
  mem_iff other := by
    rw [hguards.mem_iff]
    by_cases hother : other = actor
    · simpa [hother] using hguards.ne_away_of_holder hholder
    · simp [hother]
  nodup := hguards.nodup
  holder_of_inside other hinside := by
    by_cases hother : other = actor
    · rw [hother, hholder]
    · rw [Function.update_of_ne hother] at hinside
      exact hguards.holder_of_inside other hinside
  prompt := hguards.prompt

/-- The holder gives the lock back. -/
theorem release (hguards : lock.Guards stance) (hholder : lock.holder = some actor) :
    lock.release.Guards (Function.update stance actor .away) := by
  have hnodup := hguards.nodup
  rw [members_eq_cons hholder, List.nodup_cons] at hnodup
  refine ⟨fun other => ?_, ?_, fun other hinside => ?_, prompt_release lock⟩
  · rw [members_release]
    by_cases hother : other = actor
    · simpa [hother] using hnodup.1
    · rw [Function.update_of_ne hother, ← hguards.mem_iff, members_eq_cons hholder]
      simp [hother]
  · rw [members_release]
    exact hnodup.2
  · have hother : other ≠ actor := by
      rintro rfl
      simp at hinside
    rw [Function.update_of_ne hother] at hinside
    exact absurd hinside (hguards.not_inside_of_holder hholder hother)

/-- An actor goes away, wherever it was. -/
theorem withdraw (hguards : lock.Guards stance) (actor : Actor) :
    (lock.withdraw actor).Guards (Function.update stance actor .away) := by
  have hmembers := members_withdraw hguards.nodup actor
  refine ⟨fun other => ?_, ?_, fun other hinside => ?_, hguards.prompt.withdraw actor⟩
  · rw [hmembers, List.mem_filter, hguards.mem_iff]
    by_cases hother : other = actor <;> simp [hother]
  · rw [hmembers]
    exact hguards.nodup.filter _
  · have hother : other ≠ actor := by
      rintro rfl
      simp at hinside
    rw [Function.update_of_ne hother] at hinside
    have hholder := hguards.holder_of_inside other hinside
    have hheld : lock.isHeldBy actor = false := by simp [isHeldBy, hholder, hother]
    simp [FairLock.withdraw, hheld, hholder]

/-- The lock passes to an actor that has waited for it. -/
theorem queued_of_release (hguards : lock.Guards stance) (hholder : lock.holder = some actor)
    (hnext : lock.release.holder = some other) : other ≠ actor ∧ stance other = .queued := by
  have hmembers := members_eq_cons hholder
  have hwaited : other ∈ lock.waiting := by
    rw [← members_release, members_eq_cons hnext]
    exact List.mem_cons_self
  have hne : other ≠ actor := by
    rintro rfl
    have hnodup := hguards.nodup
    rw [hmembers, List.nodup_cons] at hnodup
    exact hnodup.1 hwaited
  refine ⟨hne, ?_⟩
  have hpresent := (hguards.mem_iff other).mp (hmembers ▸ List.mem_cons_of_mem _ hwaited)
  have houtside := hguards.not_inside_of_holder hholder hne
  cases hstance : stance other with
  | away => exact absurd hstance hpresent
  | queued => rfl
  | inside => exact absurd hstance houtside

end Guards

/-- How often the lock changes hands before it comes to the actor. -/
def place (actor : Actor) (lock : FairLock) : Nat := lock.members.idxOf actor

theorem mem_release (hholder : lock.holder = some other) (hmem : actor ∈ lock.members)
    (hne : actor ≠ other) : actor ∈ lock.release.members := by
  rw [members_eq_cons hholder] at hmem
  rw [members_release]
  exact (List.mem_cons.mp hmem).resolve_left hne

theorem place_release (hholder : lock.holder = some other) (hne : actor ≠ other) :
    lock.release.place actor + 1 = lock.place actor := by
  rw [place, place, members_release, members_eq_cons hholder, List.idxOf_cons_ne _ hne.symm]

/-- At most one actor has come, and nobody has gone. -/
def Joined (lock after : FairLock) : Prop := after = lock ∨ ∃ other, after = lock.request other

namespace Joined

variable {after : FairLock}

theorem holder_eq (hjoined : lock.Joined after) (hholder : lock.holder = some actor) :
    after.holder = some actor := by
  rcases hjoined with rfl | ⟨other, rfl⟩
  · exact hholder
  · simp [request, hholder]

theorem mem (hjoined : lock.Joined after) (hprompt : lock.Prompt) (hmem : actor ∈ lock.members) :
    actor ∈ after.members := by
  rcases hjoined with rfl | ⟨other, rfl⟩
  · exact hmem
  · rw [hprompt.members_request]
    exact List.mem_append_left _ hmem

/-- Nobody overtakes. -/
theorem place_eq (hjoined : lock.Joined after) (hprompt : lock.Prompt)
    (hmem : actor ∈ lock.members) : after.place actor = lock.place actor := by
  rcases hjoined with rfl | ⟨other, rfl⟩
  · rfl
  · rw [place, place, hprompt.members_request, List.idxOf_append_of_mem hmem]

end Joined

end FairLock

end Fieldbus
