import Fieldbus.Proofs.Polling.Pace
import Fieldbus.Proofs.Polling.Visits

/-!
# The pace of a connection

The scheduler leaves the record of a group alone between two visits.  The visits to a group on a
path are therefore a course of it, and every group of a connection keeps its pace.
-/

namespace Fieldbus

/-- The concluded visits of a tick, each with the number of its group. -/
def Tick.visits (tick : Tick) : List (Nat × Instant × PollOutcome) :=
  tick.outcomes.map fun entry => (entry.1, tick.instant, entry.2)

def SchedulerPhase.visits (phase : SchedulerPhase) : List (Nat × Instant × PollOutcome) :=
  phase.tick?.elim [] Tick.visits

/-- The visits that have been concluded between two phases. -/
def SchedulerPhase.visitsSince (before after : SchedulerPhase) :
    List (Nat × Instant × PollOutcome) :=
  after.visits.drop before.visits.length

def Transition.visits (transition : Transition) : List (Nat × Instant × PollOutcome) :=
  transition.before.scheduler.phase.visitsSince transition.after.scheduler.phase

/-- The visits to one group. -/
def visitsOf (index : Nat) (visits : List (Nat × Instant × PollOutcome)) :
    List (Instant × PollOutcome) :=
  (visits.filter (·.1 == index)).map (·.2)

/-- The visits to one group on a path, in their order. -/
def visitsTo (index : Nat) (path : List Transition) : List (Instant × PollOutcome) :=
  visitsOf index (path.flatMap Transition.visits)

theorem visitsTo_concat (index : Nat) (path : List Transition) (last : Transition) :
    visitsTo index (path ++ [last]) = visitsTo index path ++ visitsOf index last.visits := by
  simp [visitsTo, visitsOf]

namespace SchedulerPhase

variable {before after : SchedulerPhase} {tick : Tick} {reported : List DeviceId}
variable {outcome : PollOutcome}

theorem visitsSince_eq_nil (hkeeps : after.tick? = before.tick? ∨ after.visits = []) :
    before.visitsSince after = [] := by
  rw [visitsSince]
  rcases hkeeps with hsame | hnone
  · rw [visits, visits, hsame]
    exact List.drop_length
  · rw [hnone]
    exact List.drop_nil

theorem visitsSince_concluded (hbefore : before.tick? = some tick)
    (hafter : after.tick? = some ({ tick with reported }.concluded outcome)) :
    before.visitsSince after = [(tick.next, tick.instant, outcome)] := by
  rw [visitsSince, visits, visits, hbefore, hafter]
  simp [Tick.visits, Tick.concluded]

/-- The tick of a visit that is under way, and whether its poll has been answered. -/
def underWay? : SchedulerPhase → Option (Tick × Bool)
  | requesting tick | awaitingLink tick | polling tick => some (tick, false)
  | publishing tick _ | delivering tick _ _ => some (tick, true)
  | idle | visiting _ | applying _ _ | stopping | awaitingShutdown | ended => none

theorem underWay?_attending (interrupted : Option Tick) :
    (attending interrupted).underWay? = none := by
  cases interrupted <;> rfl

end SchedulerPhase

theorem RequestError.not_isEnding_of_isOpenFailure {error : RequestError}
    (hopens : error.isOpenFailure = true) : error.isEnding = false := by
  cases error <;> first | rfl | simp [isOpenFailure] at hopens

/-- What a step makes of the groups, with the visit that it concludes. -/
inductive VisitStep (ceiling : Nanoseconds) (before after : Scheduler) :
    List (Nat × Instant × PollOutcome) → Prop where
  | keep (hphase : after.phase.underWay? = before.phase.underWay?)
      (hgroups : after.groups = before.groups) : VisitStep ceiling before after []
  /-- The visit is over at once. -/
  | pass {tick : Tick} {group kept : PollGroup} {outcome : PollOutcome}
      (hbefore : before.phase.underWay? = none) (hafter : after.phase.underWay? = none)
      (hfound : before.groups[tick.next]? = some group)
      (hvisited : group.Visited ceiling tick.instant outcome kept)
      (hgroups : after.groups = before.groups.set tick.next kept) :
      VisitStep ceiling before after [(tick.next, tick.instant, outcome)]
  | ask {tick : Tick} {group : PollGroup} (hbefore : before.phase.underWay? = none)
      (hafter : after.phase.underWay? = some (tick, false))
      (hfound : before.groups[tick.next]? = some group)
      (hdue : group.isDue tick.instant ceiling = true)
      (hgroups : after.groups = before.groups.set tick.next (group.asked ceiling)) :
      VisitStep ceiling before after []
  | answer {tick : Tick} {group : PollGroup} (hbefore : before.phase.underWay? = some (tick, false))
      (hafter : after.phase.underWay? = some (tick, true))
      (hfound : before.groups[tick.next]? = some group)
      (hgroups : after.groups = before.groups.set tick.next (group.recordSuccess tick.instant)) :
      VisitStep ceiling before after []
  | fail {tick : Tick} {group : PollGroup} {error : RequestError}
      (hbefore : before.phase.underWay? = some (tick, false))
      (hafter : after.phase.underWay? = none)
      (hfound : before.groups[tick.next]? = some group) (hcounts : error.isEnding = false)
      (hgroups : after.groups = before.groups.set tick.next (group.recordFailure tick.instant)) :
      VisitStep ceiling before after [(tick.next, tick.instant, .failed error)]
  | abort {tick : Tick} {error : RequestError}
      (hbefore : before.phase.underWay? = some (tick, false))
      (hafter : after.phase.underWay? = none) (hending : error.isEnding = true)
      (hgroups : after.groups = before.groups) :
      VisitStep ceiling before after [(tick.next, tick.instant, .failed error)]
  | conclude {tick : Tick} (hbefore : before.phase.underWay? = some (tick, true))
      (hafter : after.phase.underWay? = none) (hgroups : after.groups = before.groups) :
      VisitStep ceiling before after [(tick.next, tick.instant, .polled)]
  /-- There is no such group. -/
  | leave {tick : Tick} (hbefore : before.phase.underWay? = some (tick, false))
      (hafter : after.phase.underWay? = none) (hnone : before.groups[tick.next]? = none)
      (hgroups : after.groups = before.groups) : VisitStep ceiling before after []

theorem SchedulerStep.visitStep {c : Connection} {action : Action} {shown : List Event}
    {next : Scheduler} (hstep : SchedulerStep c action shown next)
    (hopens : ∀ tick error, c.scheduler.phase = .visiting tick →
      tick.openFailure = some error → error.isOpenFailure = true) :
    VisitStep c.ceiling c.scheduler next (c.scheduler.phase.visitsSince next.phase) := by
  have hkeep {phase other : SchedulerPhase} {enabled : Bool} {decode : DecodeLevel}
      {nextTick : Option Instant} (hphase : c.scheduler.phase = phase)
      (hvisits : other.tick? = phase.tick? ∨ other.visits = [])
      (hunder : other.underWay? = phase.underWay?) :
      VisitStep c.ceiling c.scheduler
        { c.scheduler with enabled, decode, nextTick, phase := other }
        (c.scheduler.phase.visitsSince other) := by
    rw [hphase, SchedulerPhase.visitsSince_eq_nil hvisits]
    exact .keep (hphase ▸ hunder) rfl
  have hconclude {phase : SchedulerPhase} {tick : Tick} {reported : List DeviceId}
      {outcome : PollOutcome} (hphase : c.scheduler.phase = phase)
      (htick : phase.tick? = some tick) :
      c.scheduler.phase.visitsSince (.visiting ({ tick with reported }.concluded outcome)) =
        [(tick.next, tick.instant, outcome)] := by
    rw [hphase]
    exact SchedulerPhase.visitsSince_concluded htick rfl
  cases hstep with
  | keep => exact hkeep rfl (.inl rfl) rfl
  | switch haction hphase => exact hkeep hphase (.inl rfl) rfl
  | seekSetting haction hphase =>
      exact hkeep hphase (.inl (SchedulerPhase.tick?_attending _).symm)
        (SchedulerPhase.underWay?_attending _).symm
  | applied hphase =>
      exact hkeep hphase (.inl (SchedulerPhase.tick?_attending _))
        (SchedulerPhase.underWay?_attending _)
  | halt haction hphase => exact hkeep hphase (.inr rfl) (SchedulerPhase.underWay?_attending _).symm
  | seekShutdown hphase => exact hkeep hphase (.inr rfl) rfl
  | endScheduler hphase => exact hkeep hphase (.inr rfl) rfl
  | beginTick hphase => exact hkeep hphase (.inr rfl) rfl
  | endTick hphase hends =>
      rcases hphase with hphase | ⟨hphase, hnone⟩
      · exact hkeep hphase (.inr rfl) rfl
      · rw [SchedulerPhase.visitsSince_eq_nil (.inr rfl)]
        exact .leave (by rw [hphase]; rfl) rfl hnone rfl
  | notDue hvisits hdue =>
      rw [hconclude hvisits.phase rfl]
      exact .pass (by rw [hvisits.phase]; rfl) rfl hvisits.found (.notDue hdue) rfl
  | skip hvisits hdue hfailure =>
      rw [hconclude hvisits.phase rfl]
      have hcounts := RequestError.not_isEnding_of_isOpenFailure (hopens _ _ hvisits.phase hfailure)
      exact .pass (by rw [hvisits.phase]; rfl) rfl hvisits.found (.failed hdue hcounts) rfl
  | defer hvisits hdue =>
      rw [hconclude hvisits.phase rfl]
      exact .pass (by rw [hvisits.phase]; rfl) rfl hvisits.found (.deferred hdue) rfl
  | clear hvisits hdue =>
      rw [SchedulerPhase.visitsSince_eq_nil (.inl (by rw [hvisits.phase]; rfl))]
      exact .ask (by rw [hvisits.phase]; rfl) rfl hvisits.found hdue rfl
  | seekLink hphase => exact hkeep hphase (.inl rfl) rfl
  | poll hphase => exact hkeep hphase (.inl rfl) rfl
  | giveUp hphase =>
      rcases hphase with hphase | hphase
      · rw [hconclude hphase rfl]
        exact .abort (by rw [hphase]; rfl) rfl rfl rfl
      · rw [hconclude hphase rfl]
        exact .abort (by rw [hphase]; rfl) rfl rfl rfl
  | read hhears =>
      rw [SchedulerPhase.visitsSince_eq_nil (.inl (by rw [hhears.phase]; rfl))]
      exact .answer (by rw [hhears.phase]; rfl) rfl hhears.found rfl
  | fail hhears hcounts =>
      rw [hconclude hhears.phase rfl]
      exact .fail (by rw [hhears.phase]; rfl) rfl hhears.found hcounts rfl
  | abort hhears hending =>
      rw [hconclude hhears.phase rfl]
      exact .abort (by rw [hhears.phase]; rfl) rfl hending rfl
  | sample hphase => exact hkeep hphase (.inl rfl) rfl
  | pass hphase => exact hkeep hphase (.inl rfl) rfl
  | deliver hphase => exact hkeep hphase (.inl rfl) rfl
  | conclude hphase =>
      rw [hconclude hphase rfl]
      exact .conclude (by rw [hphase]; rfl) rfl rfl

/-! ## Courses on a path -/

/-- No visit to the group is under way. -/
def Scheduler.Away (index : Nat) (scheduler : Scheduler) : Prop :=
  ∀ tick answered, scheduler.phase.underWay? = some (tick, answered) → tick.next ≠ index

/-- How a group stands after some visits to it: no visit is under way, or the group has been asked
whether it is due, or its poll has been answered. -/
inductive Scheduler.Stands (ceiling : Nanoseconds) (first : PollGroup) (index : Nat)
    (visits : List (Instant × PollOutcome)) (scheduler : Scheduler) : Prop where
  | settled {group : PollGroup} (hcourse : PollGroup.Course ceiling first visits group)
      (hfound : scheduler.groups[index]? = some group) (haway : scheduler.Away index)
  | asked {tick : Tick} {group : PollGroup} (hcourse : PollGroup.Course ceiling first visits group)
      (hfound : scheduler.groups[index]? = some (group.asked ceiling))
      (hphase : scheduler.phase.underWay? = some (tick, false)) (hnext : tick.next = index)
      (hdue : group.isDue tick.instant ceiling = true)
  | answered {tick : Tick} {group : PollGroup}
      (hcourse : PollGroup.Course ceiling first visits group)
      (hfound : scheduler.groups[index]? =
        some ((group.asked ceiling).recordSuccess tick.instant))
      (hphase : scheduler.phase.underWay? = some (tick, true)) (hnext : tick.next = index)
      (hdue : group.isDue tick.instant ceiling = true)

namespace Scheduler

variable {ceiling : Nanoseconds} {first group : PollGroup} {index : Nat} {tick : Tick}
variable {visits : List (Instant × PollOutcome)} {before after : Scheduler}
variable {concluded : List (Nat × Instant × PollOutcome)}

theorem away_of_none (hphase : before.phase.underWay? = none) : before.Away index := by
  intro tick answered hunder
  simp [hphase] at hunder

theorem away_of_other {answered : Bool} (hphase : before.phase.underWay? = some (tick, answered))
    (hother : tick.next ≠ index) : before.Away index := by
  intro later answer hunder
  obtain ⟨rfl, -⟩ := Prod.mk.inj (Option.some.inj (hphase.symm.trans hunder))
  exact hother

/-- Without a visit under way the group is what its course has made of it. -/
theorem Stands.exists_settled (hstands : Stands ceiling first index visits before)
    (haway : before.Away index) :
    ∃ group, PollGroup.Course ceiling first visits group ∧
      before.groups[index]? = some group := by
  cases hstands with
  | settled hcourse hfound => exact ⟨_, hcourse, hfound⟩
  | asked _ _ hphase hnext | answered _ _ hphase hnext => exact (haway _ _ hphase hnext).elim

/-- In a visit whose poll is not answered the group has been asked. -/
theorem Stands.exists_asked (hstands : Stands ceiling first index visits before)
    (hphase : before.phase.underWay? = some (tick, false)) (hnext : tick.next = index) :
    ∃ group, PollGroup.Course ceiling first visits group ∧
      before.groups[index]? = some (group.asked ceiling) ∧
        group.isDue tick.instant ceiling = true := by
  cases hstands with
  | settled _ _ haway => exact (haway tick false hphase hnext).elim
  | asked hcourse hfound hunder _ hdue =>
      obtain ⟨rfl, -⟩ := Prod.mk.inj (Option.some.inj (hphase.symm.trans hunder))
      exact ⟨_, hcourse, hfound, hdue⟩
  | answered _ _ hunder => simp [hphase] at hunder

/-- In a visit whose poll is answered the success is recorded. -/
theorem Stands.exists_answered (hstands : Stands ceiling first index visits before)
    (hphase : before.phase.underWay? = some (tick, true)) (hnext : tick.next = index) :
    ∃ group, PollGroup.Course ceiling first visits group ∧
      before.groups[index]? = some ((group.asked ceiling).recordSuccess tick.instant) ∧
        group.isDue tick.instant ceiling = true := by
  cases hstands with
  | settled _ _ haway => exact (haway tick true hphase hnext).elim
  | asked _ _ hunder => simp [hphase] at hunder
  | answered hcourse hfound hunder _ hdue =>
      obtain ⟨rfl, -⟩ := Prod.mk.inj (Option.some.inj (hphase.symm.trans hunder))
      exact ⟨_, hcourse, hfound, hdue⟩

/-- A step between visits to other groups. -/
theorem Stands.of_away (hstands : Stands ceiling first index visits before)
    (hbefore : before.Away index) (hafter : after.Away index)
    (hgroups : after.groups[index]? = before.groups[index]?)
    (hothers : visitsOf index concluded = []) :
    Stands ceiling first index (visits ++ visitsOf index concluded) after := by
  obtain ⟨group, hcourse, hfound⟩ := hstands.exists_settled hbefore
  rw [hothers, List.append_nil]
  exact .settled hcourse (hgroups.trans hfound) hafter

/-- The visit is over, and the course of the group goes on. -/
theorem stands_snoc {kept : PollGroup} {outcome : PollOutcome}
    (hcourse : PollGroup.Course ceiling first visits group)
    (hvisited : group.Visited ceiling tick.instant outcome kept)
    (hafter : after.phase.underWay? = none) (hfound : after.groups[tick.next]? = some kept) :
    Stands ceiling first tick.next
      (visits ++ visitsOf tick.next [(tick.next, tick.instant, outcome)]) after := by
  have hown : visitsOf tick.next [(tick.next, tick.instant, outcome)] =
      [(tick.instant, outcome)] := by simp [visitsOf]
  rw [hown]
  exact .settled (hcourse.snoc hvisited) hfound (away_of_none hafter)

theorem getElem?_set_of_found {groups : List PollGroup} {old : PollGroup}
    (hfound : groups[index]? = some old) (kept : PollGroup) :
    (groups.set index kept)[index]? = some kept :=
  List.getElem?_set_self (List.getElem?_eq_some_iff.mp hfound).1

end Scheduler

section

open Scheduler

variable {ceiling : Nanoseconds} {first : PollGroup} {index : Nat}
variable {visits : List (Instant × PollOutcome)} {before after : Scheduler}
variable {concluded : List (Nat × Instant × PollOutcome)}

/-- Every step keeps to the course of a group. -/
theorem VisitStep.stands (hstep : VisitStep ceiling before after concluded)
    (hstands : before.Stands ceiling first index visits) :
    after.Stands ceiling first index (visits ++ visitsOf index concluded) := by
  have hothers {other : Nat} {instant : Instant} {outcome : PollOutcome} (hother : other ≠ index) :
      visitsOf index [(other, instant, outcome)] = [] := by
    simp [visitsOf, hother]
  have hnone : visits ++ visitsOf index [] = visits := List.append_nil visits
  cases hstep with
  | keep hphase hgroups =>
      rw [hnone]
      cases hstands with
      | settled hcourse hfound haway =>
          refine .settled hcourse (hgroups ▸ hfound) ?_
          rw [Away, hphase]
          exact haway
      | asked hcourse hfound hunder hnext hdue =>
          exact .asked hcourse (hgroups ▸ hfound) (hphase ▸ hunder) hnext hdue
      | answered hcourse hfound hunder hnext hdue =>
          exact .answered hcourse (hgroups ▸ hfound) (hphase ▸ hunder) hnext hdue
  | @pass tick group kept outcome hbefore hafter hfound hvisited hgroups =>
      by_cases hnext : tick.next = index
      · subst hnext
        obtain ⟨old, hcourse, hold⟩ := hstands.exists_settled (away_of_none hbefore)
        obtain rfl := Option.some.inj (hfound.symm.trans hold)
        exact stands_snoc hcourse hvisited hafter (hgroups ▸ getElem?_set_of_found hfound kept)
      · exact hstands.of_away (away_of_none hbefore) (away_of_none hafter)
          (hgroups ▸ List.getElem?_set_ne hnext) (hothers hnext)
  | @ask tick group hbefore hafter hfound hdue hgroups =>
      by_cases hnext : tick.next = index
      · subst hnext
        obtain ⟨old, hcourse, hold⟩ := hstands.exists_settled (away_of_none hbefore)
        obtain rfl := Option.some.inj (hfound.symm.trans hold)
        rw [hnone]
        exact .asked hcourse (hgroups ▸ getElem?_set_of_found hfound _) hafter rfl hdue
      · exact hstands.of_away (away_of_none hbefore) (away_of_other hafter hnext)
          (hgroups ▸ List.getElem?_set_ne hnext) rfl
  | @answer tick group hbefore hafter hfound hgroups =>
      by_cases hnext : tick.next = index
      · subst hnext
        obtain ⟨old, hcourse, hasked, hdue⟩ := hstands.exists_asked hbefore rfl
        obtain rfl := Option.some.inj (hfound.symm.trans hasked)
        rw [hnone]
        exact .answered hcourse (hgroups ▸ getElem?_set_of_found hfound _) hafter rfl hdue
      · exact hstands.of_away (away_of_other hbefore hnext) (away_of_other hafter hnext)
          (hgroups ▸ List.getElem?_set_ne hnext) rfl
  | @fail tick group error hbefore hafter hfound hcounts hgroups =>
      by_cases hnext : tick.next = index
      · subst hnext
        obtain ⟨old, hcourse, hasked, hdue⟩ := hstands.exists_asked hbefore rfl
        obtain rfl := Option.some.inj (hfound.symm.trans hasked)
        exact stands_snoc hcourse (.failed hdue hcounts) hafter
          (hgroups ▸ getElem?_set_of_found hfound _)
      · exact hstands.of_away (away_of_other hbefore hnext) (away_of_none hafter)
          (hgroups ▸ List.getElem?_set_ne hnext) (hothers hnext)
  | @abort tick error hbefore hafter hending hgroups =>
      by_cases hnext : tick.next = index
      · subst hnext
        obtain ⟨old, hcourse, hasked, hdue⟩ := hstands.exists_asked hbefore rfl
        exact stands_snoc hcourse (.aborted hdue hending) hafter (hgroups ▸ hasked)
      · exact hstands.of_away (away_of_other hbefore hnext) (away_of_none hafter)
          (hgroups ▸ rfl) (hothers hnext)
  | @conclude tick hbefore hafter hgroups =>
      by_cases hnext : tick.next = index
      · subst hnext
        obtain ⟨old, hcourse, hanswered, hdue⟩ := hstands.exists_answered hbefore rfl
        exact stands_snoc hcourse (.polled hdue) hafter (hgroups ▸ hanswered)
      · exact hstands.of_away (away_of_other hbefore hnext) (away_of_none hafter)
          (hgroups ▸ rfl) (hothers hnext)
  | @leave tick hbefore hafter hmissing hgroups =>
      have hnext : tick.next ≠ index := by
        rintro rfl
        obtain ⟨old, -, hasked, -⟩ := hstands.exists_asked hbefore rfl
        simp [hmissing] at hasked
      exact hstands.of_away (away_of_other hbefore hnext) (away_of_none hafter) (hgroups ▸ rfl) rfl

end

theorem Tick.isOpenFailure_of_lastOpenFailure? {tick : Tick} {error : RequestError}
    (hlast : tick.lastOpenFailure? = some error) : error.isOpenFailure = true := by
  obtain ⟨entry, -, hfailure⟩ := List.mem_filterMap.mp (List.mem_of_getLast? hlast)
  cases houtcome : entry.2 with
  | notDue | deferred | polled => simp [houtcome, PollOutcome.openFailure?] at hfailure
  | failed other =>
      rw [houtcome, PollOutcome.openFailure?] at hfailure
      split at hfailure
      · next hopens => exact Option.some.inj hfailure ▸ hopens
      · simp at hfailure

namespace Connection

variable {start final : Connection} {path : List Transition} {tick : Tick} {group : PollGroup}

theorem Path.isOpenFailure_of_visiting {error : RequestError} (hpath : Path start path final)
    (horderly : start.traffic.Orderly) (hidle : start.scheduler.phase = .idle)
    (hphase : final.scheduler.phase = .visiting tick) (hfailure : tick.openFailure = some error) :
    error.isOpenFailure = true := by
  rw [hpath.openFailure_eq horderly hidle (by rw [hphase]; rfl)] at hfailure
  exact Tick.isOpenFailure_of_lastOpenFailure? hfailure

/-- On every path from rest the visits to a group are a course of it. -/
theorem Path.stands (hpath : Path start path final) (horderly : start.traffic.Orderly)
    (hidle : start.scheduler.phase = .idle) {index : Nat}
    (hfound : start.scheduler.groups[index]? = some group) (hfresh : group.task = group) :
    final.scheduler.Stands start.ceiling group index (visitsTo index path) := by
  refine hpath.history (motive := fun past state =>
    state.scheduler.Stands start.ceiling group index (visitsTo index past)) ?_ ?_
  · have hnew : PollGroup.Course start.ceiling group [] group.task := .nil
    rw [hfresh] at hnew
    exact .settled hnew hfound (Scheduler.away_of_none (by rw [hidle]; rfl))
  · intro past before action after events hpast hstands hstep
    have hvisitStep := (scheduler_of_step (hpast.orderly horderly) hstep).visitStep
      fun _ _ => hpast.isOpenFailure_of_visiting horderly hidle
    have hceiling : before.ceiling = start.ceiling := by
      rw [ceiling, hpast.settings_eq horderly, ceiling]
    rw [visitsTo_concat]
    exact (hceiling ▸ hvisitStep).stands hstands

theorem register_subset {kept declared points : List Point} (hkept : kept ⊆ points)
    (hdeclared : declared ⊆ points) : (register kept declared).1 ⊆ points := by
  induction declared generalizing kept with
  | nil => exact hkept
  | cons point rest ih =>
      obtain ⟨hpoint, hrest⟩ := List.cons_subset.mp hdeclared
      rw [register]
      split
      · exact ih hkept hrest
      · split
        · exact ih hkept hrest
        · exact ih (List.append_subset.mpr ⟨hkept, by simpa using hpoint⟩) hrest

/-- A new group has no record, and its period is that of a point. -/
theorem exists_point_of_mem_buildGroups {points : List Point} {maxSpan : UInt16}
    (hgroup : group ∈ buildGroups points maxSpan) :
    group.task = group ∧ ∃ point ∈ points, group.period = point.period := by
  have hformed := (laid_buildGroups points maxSpan).formed group hgroup
  constructor
  · rw [PollGroup.task, ← hformed.lastPollAt, ← hformed.failures]
  · obtain ⟨point, rest, hpoints, -⟩ := hformed.first
    have hpoint : point ∈ group.points := hpoints ▸ List.mem_cons_self
    have hmember : point ∈ PollGroup.members (buildGroups points maxSpan) :=
      List.mem_flatMap.mpr ⟨group, hgroup, hpoint⟩
    have hpolled := (polled_buildGroups points maxSpan).mem_iff.mp hmember
    refine ⟨point, (List.mem_filter.mp hpolled).1, ?_⟩
    exact (congrArg Prod.fst (hformed.kind point hpoint)).symm

/-- A group that is visited has gone through the course of its visits since it was built. -/
theorem exists_course {settings : ConnectionSettings} {codec : ValueCodec} {declared : List Point}
    {earlier later : List Transition} {visit : Transition}
    (hpath : Path (create settings codec declared).1 (earlier ++ visit :: later) final)
    (hvisits : visit.before.Visits tick group) :
    ∃ first, (∃ point ∈ declared, first.period = point.period) ∧
      PollGroup.Course settings.link.maxBackoff first (visitsTo tick.next earlier) group := by
  have hcreate := create_orderly settings codec declared
  obtain ⟨hearlier, -, -⟩ := hpath.split
  have htasks := congrArg (fun tasks => tasks[tick.next]?) (hearlier.tasks_eq hcreate)
  have hfound : visit.before.scheduler.groups[tick.next]? = some group := hvisits.found
  simp only [List.getElem?_map, hfound, Option.map_some] at htasks
  obtain ⟨first, hfirst, -⟩ := Option.map_eq_some_iff.mp htasks.symm
  obtain ⟨hfresh, point, hpoint, hperiod⟩ :=
    exists_point_of_mem_buildGroups (List.mem_of_getElem? hfirst)
  have hdeclared : (register [] declared).1 ⊆ declared :=
    register_subset (List.nil_subset _) (List.Subset.refl _)
  refine ⟨first, ⟨point, hdeclared hpoint, hperiod⟩, ?_⟩
  have hstands := hearlier.stands hcreate rfl hfirst hfresh
  have haway : visit.before.scheduler.Away tick.next :=
    Scheduler.away_of_none (by rw [hvisits.phase]; rfl)
  obtain ⟨kept, hcourse, hkept⟩ := hstands.exists_settled haway
  obtain rfl : group = kept := Option.some.inj (hvisits.found.symm.trans hkept)
  exact hcourse

/-- Every group keeps the pace through any course of visits, and the groups of a connection do so
whatever the connection does. -/
theorem paced_visits :
    (∀ (ceiling : Nanoseconds) (first group : PollGroup) (visits : List (Instant × PollOutcome)),
      first.period ≤ longestDuration → PollGroup.Course ceiling first visits group →
        PollGroup.Paced ceiling (recorded visits) group) ∧
      ∀ (settings : ConnectionSettings) (codec : ValueCodec) (declared : List Point)
        (earlier later : List Transition) (visit : Transition) (final : Connection) (tick : Tick)
        (group : PollGroup), (∀ point ∈ declared, point.period ≤ longestDuration) →
          Path (create settings codec declared).1 (earlier ++ visit :: later) final →
            visit.before.Visits tick group →
              PollGroup.Paced settings.link.maxBackoff (recorded (visitsTo tick.next earlier))
                group := by
  constructor
  · intro ceiling first group visits hperiod hcourse
    exact hcourse.paced hperiod
  · intro settings codec declared earlier later visit final tick group hperiods hpath hvisits
    obtain ⟨first, ⟨point, hpoint, hperiod⟩, hcourse⟩ := exists_course hpath hvisits
    exact hcourse.paced (hperiod ▸ hperiods point hpoint)

end Connection

/-- A tick in which the transport fails to open, and the beginning of the next one. -/
def Action.failAndReturn : List Action := failingTick ++ [.tick]

/-- A poll that fails because the link closes, and the beginning of the next tick. -/
def Action.closeAndReturn : List Action :=
  openForPoll ++
    [.openDone (.ok ()), .exchangeDone (.error .closed), .run .scheduler,
      .elapse (500 * millisecond), .tick]

namespace Connection

def sampleRetry : Transition := (sample.stop Action.failAndReturn).next (.run .scheduler)

theorem path_sampleRetry :
    Path sample (sample.walk Action.failAndReturn ++ sampleRetry :: []) sampleRetry.after := by
  have hfails := path_walk
    (show (sample.run Action.failAndReturn).isSome = true by decide +kernel)
  exact hfails.append (.cons_next (by decide +kernel) (.nil _))

/-- The only group, after one failure. -/
def sampleFailedOnce : PollGroup :=
  { PollGroup.single 0 Point.sample ⟨4, 1⟩ with lastPollAt := some 0, failures := 1 }

theorem sampleRetry_visits :
    sampleRetry.before.Visits { instant := second } sampleFailedOnce := by
  constructor <;> decide +kernel

/-- The group keeps the pace after one failure, and so does a group after one success. -/
theorem sampleRetry_paced :
    PollGroup.Paced (60 * second) [(0, .failed (.openFailed .other))] sampleFailedOnce ∧
      PollGroup.Paced (60 * second) [(0, .polled)]
        (((PollGroup.single 0 Point.sample ⟨4, 1⟩).asked (60 * second)).recordSuccess 0) := by
  have hperiod : Point.sample.period ≤ longestDuration := by decide
  constructor
  · have hpolls : recorded (visitsTo 0 (sample.walk Action.failAndReturn)) =
        [(0, .failed (.openFailed .other))] := by decide +kernel
    have hpaced := paced_visits.2 {} Codec.registerCodec [Point.sample] _ _ _ _ _ _
      (by simpa using hperiod) path_sampleRetry sampleRetry_visits
    rwa [hpolls] at hpaced
  · have hnew : (PollGroup.single 0 Point.sample ⟨4, 1⟩).isDue 0 (60 * second) = true := rfl
    have hcourse : PollGroup.Course (60 * second) (.single 0 Point.sample ⟨4, 1⟩) ([] ++ _) _ :=
      .snoc .nil (.polled hnew)
    exact paced_visits.1 _ _ _ _ hperiod hcourse

/-- A connection with two ticks in each period of its point. -/
def sampleQuick : Connection :=
  (create { tick := 500 * millisecond } Codec.registerCodec [Point.sample]).1

def sampleQuickVisit : Transition :=
  (sampleQuick.stop Action.closeAndReturn).next (.run .scheduler)

theorem path_sampleQuickVisit :
    Path sampleQuick (sampleQuick.walk Action.closeAndReturn ++ sampleQuickVisit :: [])
      sampleQuickVisit.after := by
  have hcloses := path_walk
    (show (sampleQuick.run Action.closeAndReturn).isSome = true by decide +kernel)
  exact hcloses.append (.cons_next (by decide +kernel) (.nil _))

/-- The poll that the closing link has ended has left no record. -/
theorem sampleQuickVisit_visits :
    sampleQuickVisit.before.Visits { instant := 500 * millisecond }
      (.single 0 Point.sample ⟨4, 1⟩) := by
  constructor <;> decide +kernel

/-- So a group does not wait after every failed poll. -/
theorem not_paced_by_every_poll :
    ¬∀ (earlier later : List Transition) (visit : Transition) (tick : Tick) (group : PollGroup)
        (final : Connection), Path sampleQuick (earlier ++ visit :: later) final →
          visit.before.Visits tick group →
            PollGroup.Paced (60 * second)
              ((visitsTo tick.next earlier).filter (·.2.isPoll)) group := by
  intro hpaced
  have hpolls : (visitsTo 0 (sampleQuick.walk Action.closeAndReturn)).filter (·.2.isPoll) =
      [(0, .failed .closed)] := by decide +kernel
  have hdue := (hpaced _ _ _ _ _ _ path_sampleQuickVisit sampleQuickVisit_visits).due
  rw [hpolls] at hdue
  have hearly : 0 + pollWait second (60 * second) 1 ≤ 500 * millisecond :=
    (hdue (500 * millisecond)).mp rfl _ rfl
  exact absurd hearly (by decide +kernel)

end Connection

end Fieldbus
