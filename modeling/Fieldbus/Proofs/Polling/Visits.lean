import Fieldbus.Proofs.Polling.Scheduler

/-!
# Visits while polls rest

While a write is under way or has just ended, the visit to a group reads nothing and leaves the
record of the group's polls alone.  Two things still happen: the question whether the group is due
starts a count of failures anew that overflows, and a group that is due after the transport has
failed to open in the same tick shares that failure.
-/

namespace Fieldbus

/-- The tick that the scheduler is in. -/
def SchedulerPhase.tick? : SchedulerPhase → Option Tick
  | visiting tick | requesting tick | awaitingLink tick | polling tick | publishing tick _
  | delivering tick _ _ => some tick
  | applying _ interrupted => interrupted
  | idle | stopping | awaitingShutdown | ended => none

theorem SchedulerPhase.tick?_attending (interrupted : Option Tick) :
    (attending interrupted).tick? = interrupted := by
  cases interrupted <;> rfl

/-- The last failure of the transport to open among the outcomes of a tick. -/
def Tick.lastOpenFailure? (tick : Tick) : Option RequestError :=
  (tick.outcomes.filterMap fun entry => entry.2.openFailure?).getLast?

theorem Tick.lastOpenFailure?_concluded (outcome : PollOutcome) (tick : Tick) :
    (tick.concluded outcome).lastOpenFailure? =
      outcome.openFailure?.or tick.lastOpenFailure? := by
  cases hfailure : outcome.openFailure? with
  | none => simp [lastOpenFailure?, concluded, hfailure]
  | some error => simp [lastOpenFailure?, concluded, hfailure]

/-- How a visit of a tick comes to an outcome. -/
inductive Connection.Concludes (c : Connection) (action : Action) (tick : Tick) :
    PollOutcome → Prop where
  | notDue {group : PollGroup} (hvisits : c.Visits tick group) : Concludes c action tick .notDue
  | deferred {group : PollGroup} (hvisits : c.Visits tick group) :
      Concludes c action tick .deferred
  /-- The transport has failed to open for an earlier group. -/
  | skipped {group : PollGroup} {error : RequestError} (hvisits : c.Visits tick group)
      (hfailure : tick.openFailure = some error) : Concludes c action tick (.failed error)
  | closed
      (hphase : c.scheduler.phase = .requesting tick ∨ c.scheduler.phase = .awaitingLink tick) :
      Concludes c action tick (.failed .closed)
  | heard {group : PollGroup} {error : RequestError}
      (hhears : c.Hears action tick group (.error error)) : Concludes c action tick (.failed error)
  | polled {publication : Publication}
      (hphase : c.scheduler.phase = .publishing tick publication) :
      Concludes c action tick .polled

/-- A visit is concluded in its own tick. -/
theorem Connection.Concludes.tick?_eq {c : Connection} {action : Action} {tick : Tick}
    {outcome : PollOutcome} (hconcludes : c.Concludes action tick outcome) :
    c.scheduler.phase.tick? = some tick := by
  cases hconcludes with
  | notDue hvisits | deferred hvisits | skipped hvisits => rw [hvisits.phase]; rfl
  | closed hphase => rcases hphase with hphase | hphase <;> rw [hphase] <;> rfl
  | heard hhears => rw [hhears.phase]; rfl
  | polled hphase => rw [hphase]; rfl

/-- A tick is as before, or it has just begun, or a visit has been concluded. -/
theorem SchedulerStep.tick {c : Connection} {action : Action} {shown : List Event}
    {next : Scheduler} {tick : Tick} (hstep : SchedulerStep c action shown next)
    (htick : next.phase.tick? = some tick) :
    c.scheduler.phase.tick? = some tick ∨ (∃ due ≤ c.now, tick = { instant := due }) ∨
      ∃ old reported outcome, c.Concludes action old outcome ∧
        tick = { old with reported }.concluded outcome := by
  have hconclude {old : Tick} {reported : List DeviceId} {outcome : PollOutcome}
      (hconcludes : c.Concludes action old outcome)
      (hnow : next.phase = .visiting ({ old with reported }.concluded outcome)) :
      ∃ old reported outcome, c.Concludes action old outcome ∧
        tick = { old with reported }.concluded outcome := by
    rw [hnow] at htick
    exact ⟨old, reported, outcome, hconcludes, (Option.some.inj htick).symm⟩
  cases hstep with
  | keep => exact .inl htick
  | switch haction hphase =>
      rw [hphase]
      exact .inl htick
  | seekSetting haction hphase =>
      rw [hphase, SchedulerPhase.tick?_attending]
      exact .inl htick
  | applied hphase =>
      rw [hphase]
      exact .inl ((SchedulerPhase.tick?_attending _).symm.trans htick)
  | halt | seekShutdown | endScheduler | endTick => simp [SchedulerPhase.tick?] at htick
  | beginTick hphase hdue hnow => exact .inr (.inl ⟨_, hnow, (Option.some.inj htick).symm⟩)
  | notDue hvisits => exact .inr (.inr (hconclude (.notDue hvisits) rfl))
  | skip hvisits hdue hfailure => exact .inr (.inr (hconclude (.skipped hvisits hfailure) rfl))
  | defer hvisits => exact .inr (.inr (hconclude (.deferred hvisits) rfl))
  | clear hvisits =>
      rw [hvisits.phase]
      exact .inl htick
  | seekLink hphase | poll hphase | sample hphase | pass hphase | deliver hphase =>
      rw [hphase]
      exact .inl htick
  | giveUp hphase => exact .inr (.inr (hconclude (.closed hphase) rfl))
  | read hhears =>
      rw [hhears.phase]
      exact .inl htick
  | fail hhears | abort hhears => exact .inr (.inr (hconclude (.heard hhears) rfl))
  | conclude hphase => exact .inr (.inr (hconclude (.polled hphase) rfl))

/-- A group keeps the record of its polls, but a count of failures that overflows starts anew. -/
structure PollGroup.Rests (ceiling : Nanoseconds) (group kept : PollGroup) : Prop where
  task : kept.sameTask group = true
  lastPollAt : kept.lastPollAt = group.lastPollAt
  failures : kept.failures = if group.forgets ceiling then 0 else group.failures

theorem PollGroup.sameTask_refl (group : PollGroup) : group.sameTask group = true := by
  simp [sameTask]

theorem PollGroup.rests_asked (ceiling : Nanoseconds) (group : PollGroup) :
    group.Rests ceiling (group.asked ceiling) := by
  rw [asked]
  split
  · next hforgets => exact ⟨group.sameTask_refl, rfl, by simp [hforgets]⟩
  · next hforgets => exact ⟨group.sameTask_refl, rfl, by simp [hforgets]⟩

/-- A visit while polls rest: to a group that is deferred or not due, or to one that shares the
failure of the transport to open. -/
inductive PollGroup.Idles (ceiling : Nanoseconds) (tick : Tick) (group : PollGroup) :
    PollOutcome → PollGroup → Prop where
  | notDue {kept : PollGroup} (hdue : group.isDue tick.instant ceiling = false)
      (hkept : group.Rests ceiling kept) : Idles ceiling tick group .notDue kept
  | deferred {kept : PollGroup} (hdue : group.isDue tick.instant ceiling = true)
      (hopens : tick.lastOpenFailure? = none) (hkept : group.Rests ceiling kept) :
      Idles ceiling tick group .deferred kept
  | failed {asked kept : PollGroup} {error : RequestError}
      (hdue : group.isDue tick.instant ceiling = true)
      (hfailure : tick.lastOpenFailure? = some error) (hasked : group.Rests ceiling asked)
      (hkept : kept = asked.recordFailure tick.instant) :
      Idles ceiling tick group (.failed error) kept

/-- While polls rest the visit to a group ends at once. -/
theorem SchedulerStep.idles {c : Connection} {shown : List Event} {next : Scheduler} {tick : Tick}
    {group : PollGroup}
    (hstep : SchedulerStep c (.run .scheduler) shown next) (hvisits : c.Visits tick group)
    (hfailure : tick.openFailure = tick.lastOpenFailure?)
    (hrest : c.trace.shouldDefer c.now c.settings.link.minInterval = true) :
    ∃ outcome kept, next.phase = .visiting (tick.concluded outcome) ∧
      next.groups = c.scheduler.groups.set tick.next kept ∧
        group.Idles c.ceiling tick outcome kept := by
  have hphase := hvisits.phase
  have hsame {other : Tick} {found : PollGroup} (hother : c.Visits other found) :
      other = tick ∧ found = group := by
    obtain rfl := SchedulerPhase.visiting.inj (hother.phase.symm.trans hphase)
    exact ⟨rfl, Option.some.inj (hother.found.symm.trans hvisits.found)⟩
  cases hstep with
  | keep haction => simp [Action.isScheduling] at haction
  | switch haction hother hcommand | seekSetting haction hother hcommand =>
      simp [hvisits.commands] at hcommand
  | halt haction hother hcommand =>
      simp [hvisits.commands, hvisits.attended] at hcommand
  | endTick hother hends =>
      rcases hother with hother | ⟨hother, -⟩
      · obtain rfl := SchedulerPhase.visiting.inj (hother.symm.trans hphase)
        simp [hvisits.found, hvisits.enabled, hvisits.notClosing] at hends
      · simp [hphase] at hother
  | notDue hother hdue =>
      obtain ⟨rfl, rfl⟩ := hsame hother
      exact ⟨_, _, rfl, rfl, .notDue hdue (PollGroup.rests_asked _ _)⟩
  | skip hother hdue hskip =>
      obtain ⟨rfl, rfl⟩ := hsame hother
      exact ⟨_, _, rfl, rfl,
        .failed hdue (hfailure ▸ hskip) (PollGroup.rests_asked _ _) rfl⟩
  | defer hother hdue hopens =>
      obtain ⟨rfl, rfl⟩ := hsame hother
      exact ⟨_, _, rfl, rfl, .deferred hdue (hfailure ▸ hopens) (PollGroup.rests_asked _ _)⟩
  | clear hother hdue hopens hclear => simp [hrest] at hclear
  | applied hother | seekShutdown hother | endScheduler hother | seekLink hother | poll hother
  | sample hother | pass hother | conclude hother => simp [hphase] at hother
  | giveUp hother => simp [hphase] at hother
  | read hhears | fail hhears | abort hhears =>
      have hother := hhears.phase
      simp [hphase] at hother

/-- The step that the scheduler takes in a visit is its own. -/
theorem Move.of_visiting {c after : Traffic} {events : List Event} {tick : Tick}
    (hmove : Move c (.run .scheduler) events after) (hphase : c.phase = .visiting tick) :
    Quiet events ∧ after.link = c.link ∧ after.transaction = c.transaction := by
  cases hmove with
  | stay haction hquiet => exact ⟨hquiet, rfl, rfl⟩
  | stroll haction haway hnext hquiet => exact ⟨hquiet, rfl, rfl⟩
  | clear hother hopen hrest hquiet => exact ⟨hquiet, rfl, rfl⟩
  | seekSetting => exact ⟨.nil, rfl, rfl⟩
  | seekLink hother | seekShutdown hother | endScheduler hother | poll hother =>
      simp [hphase] at hother
  | leaveLink hqueued => simp [hphase, SchedulerPhase.linkStance] at hqueued
  | proceed htransaction hturn | store htransaction hfound hjob hturn
  | misfit htransaction hfound hturn | endPoll htransaction hpolling hturn
  | fail htransaction hfound hjob hturn | writeBack htransaction hfound hjob hfield hturn =>
      have hanswer := hturn.isAnswer
      simp [Action.isAnswer] at hanswer

namespace Connection

variable {start final : Connection} {path : List Transition} {tick : Tick} {group : PollGroup}

/-- The scheduler remembers the last failure of the transport to open in a tick. -/
theorem Path.openFailure_eq (hpath : Path start path final) (horderly : start.traffic.Orderly)
    (hidle : start.scheduler.phase = .idle) (htick : final.scheduler.phase.tick? = some tick) :
    tick.openFailure = tick.lastOpenFailure? := by
  refine hpath.history (motive := fun _ state => ∀ tick,
    state.scheduler.phase.tick? = some tick → tick.openFailure = tick.lastOpenFailure?)
    (fun tick hnow => by simp [hidle, SchedulerPhase.tick?] at hnow) ?_ tick htick
  intro past before action after events hpast hbefore hstep tick hnow
  rcases (scheduler_of_step (hpast.orderly horderly) hstep).tick hnow with
    hsame | ⟨due, -, rfl⟩ | ⟨old, reported, outcome, hconcludes, rfl⟩
  · exact hbefore tick hsame
  · rfl
  · rw [Tick.lastOpenFailure?_concluded]
    exact congrArg outcome.openFailure?.or (hbefore old hconcludes.tick?_eq)

/-- While polls rest the visit to a group reads nothing and leaves the record of its polls as it is,
but for a count of failures that overflows and for the failure of the transport to open that an
earlier group of the tick has met. -/
theorem visit_idles {settings : ConnectionSettings} {codec : ValueCodec} {declared : List Point}
    {earlier later : List Transition} {visit : Transition}
    (hpath : Path (create settings codec declared).1 (earlier ++ visit :: later) final)
    (haction : visit.action = .run .scheduler) (hvisits : visit.before.Visits tick group)
    (hrest : visit.before.trace.shouldDefer visit.before.now settings.link.minInterval = true) :
    started visit.events = [] ∧ visit.after.link = visit.before.link ∧
      visit.after.transaction = visit.before.transaction ∧
        ∃ outcome kept, visit.after.scheduler.phase = .visiting (tick.concluded outcome) ∧
          visit.after.scheduler.groups = visit.before.scheduler.groups.set tick.next kept ∧
            group.Idles settings.link.maxBackoff tick outcome kept := by
  have hcreate := create_orderly settings codec declared
  obtain ⟨hearlier, hstep, -⟩ := hpath.split
  have hready := hearlier.orderly hcreate
  have hsettings : visit.before.settings = settings := hearlier.settings_eq hcreate
  have htick : visit.before.scheduler.phase.tick? = some tick := by rw [hvisits.phase]; rfl
  have hfailure := hearlier.openFailure_eq hcreate rfl htick
  have hscheduler := hpath.scheduler_step hcreate
  have hmove := move_of_step hready hstep
  rw [haction] at hscheduler hmove
  obtain ⟨hquiet, hlink, htransaction⟩ := hmove.of_visiting hvisits.phase
  have hidles := hscheduler.idles hvisits hfailure (by rw [hsettings]; exact hrest)
  rw [ceiling, hsettings] at hidles
  exact ⟨hquiet.started_eq_nil, hlink, htransaction, hidles⟩

end Connection

/-- The scheduler opens the transport for the first group of a tick. -/
def Action.openForPoll : List Action :=
  [.tick, .run .scheduler, .run .scheduler, .run .scheduler]

/-- A write announces itself, and then the transport fails to open. -/
def Action.failToOpen : List Action :=
  openForPoll ++ [.start 0 (.write ⟨"plant"⟩ [⟨"level", .int 3⟩]), .run (.call 0),
    .openDone (.error (.openFailed .other))]

/-- A tick in which the transport fails to open, and the time until the next one. -/
def Action.failingTick : List Action :=
  openForPoll ++ [.openDone (.error (.openFailed .other)), .run .scheduler, .elapse second]

/-- So many failing ticks that the failures cannot be counted on, and a write that announces itself
before the next one. -/
def Action.failOften : List Action :=
  (List.replicate 32 failingTick).flatten ++
    [.start 0 (.write ⟨"plant"⟩ [⟨"level", .int 3⟩]), .run (.call 0), .tick]

/-- A register that can be read only. -/
def Point.inflow : Point :=
  { sample with name := "inflow", registerClass := .inputRegister }

namespace Connection

/-- The group of that register. -/
def sampleInflow : PollGroup := .single 1 Point.inflow ⟨4, 1⟩

/-- A connection that is polled in two groups. -/
def samplePair : Connection := (create {} Codec.registerCodec [Point.sample, Point.inflow]).1

/-- The same connection, with its groups written out. -/
def samplePairBuilt : Connection :=
  samplePair.withGroups [.single 0 Point.sample ⟨4, 1⟩, sampleInflow]

theorem samplePair_eq : samplePair = samplePairBuilt := by
  have hsorted : Point.pollOrder [Point.sample, Point.inflow] =
      [(Point.sample, ⟨4, 1⟩), (Point.inflow, ⟨4, 1⟩)] :=
    List.mergeSort_of_pairwise (by decide +kernel)
  have hgroups : samplePair.scheduler.groups =
      [.single 0 Point.sample ⟨4, 1⟩, sampleInflow] := by
    have hbuilt : samplePair.scheduler.groups = PollGroup.placeAll 32
        (Point.pollOrder [Point.sample, Point.inflow]) := rfl
    rw [hbuilt, hsorted]
    decide +kernel
  rw [samplePairBuilt, withGroups, ← hgroups]

/-- A connection whose period is not prolonged by failures. -/
def sampleSteady : Connection :=
  (create { link := { maxBackoff := second } } Codec.registerCodec [Point.sample]).1

/-- The visit to the second group. -/
def samplePairVisit : Transition :=
  (samplePairBuilt.stop Action.failToOpen).next (.run .scheduler)

theorem path_samplePairVisit :
    Path samplePair (samplePairBuilt.walk Action.failToOpen ++ samplePairVisit :: [])
      samplePairVisit.after := by
  have hfails := path_walk
    (show (samplePairBuilt.run Action.failToOpen).isSome = true by decide +kernel)
  rw [samplePair_eq]
  exact hfails.append (.cons_next (by decide +kernel) (.nil _))

/-- The tick of the visit. -/
def samplePairTick : Tick where
  instant := 0
  next := 1
  reported := [⟨"plant"⟩]
  openFailure := some (.openFailed .other)
  outcomes := [(0, .failed (.openFailed .other))]

theorem samplePairVisit_visits : samplePairVisit.before.Visits samplePairTick sampleInflow := by
  constructor <;> decide +kernel

/-- The second group is due, and it shares the failure of the first one. -/
theorem samplePairVisit_idles :
    ∃ outcome kept,
      samplePairVisit.after.scheduler.phase = .visiting (samplePairTick.concluded outcome) ∧
        samplePairVisit.after.scheduler.groups =
          samplePairVisit.before.scheduler.groups.set 1 kept ∧
            sampleInflow.Idles (60 * second) samplePairTick outcome kept := by
  have hrest : samplePairVisit.before.trace.shouldDefer samplePairVisit.before.now
      (100 * millisecond) = true := by decide +kernel
  obtain ⟨-, -, -, hidles⟩ := visit_idles path_samplePairVisit rfl samplePairVisit_visits hrest
  exact hidles

/-- The visit after all the failures. -/
def sampleSteadyVisit : Transition :=
  (sampleSteady.stop Action.failOften).next (.run .scheduler)

theorem path_sampleSteadyVisit :
    Path sampleSteady (sampleSteady.walk Action.failOften ++ sampleSteadyVisit :: [])
      sampleSteadyVisit.after := by
  have hfails := path_walk
    (show (sampleSteady.run Action.failOften).isSome = true by decide +kernel)
  exact hfails.append (.cons_next (by decide +kernel) (.nil _))

/-- The only group, after all the failures. -/
def sampleFailed : PollGroup :=
  { PollGroup.single 0 Point.sample ⟨4, 1⟩ with
    lastPollAt := some (31 * second), failures := 32 }

theorem sampleSteadyVisit_visits :
    sampleSteadyVisit.before.Visits { instant := 32 * second } sampleFailed := by
  constructor <;> decide +kernel

/-- So it is not true that a visit while polls rest ends with a group that is deferred or not due,
nor that it leaves the count of failures as it is. -/
theorem not_visit_defers :
    (¬∀ (earlier later : List Transition) (visit : Transition) (tick : Tick) (group : PollGroup)
        (final : Connection), Path samplePair (earlier ++ visit :: later) final →
          visit.action = .run .scheduler → visit.before.Visits tick group →
            visit.before.trace.shouldDefer visit.before.now (100 * millisecond) = true →
              ∃ outcome, visit.after.scheduler.phase = .visiting (tick.concluded outcome) ∧
                (outcome = .notDue ∨ outcome = .deferred)) ∧
      ¬∀ (earlier later : List Transition) (visit : Transition) (tick : Tick) (group : PollGroup)
        (final : Connection), Path sampleSteady (earlier ++ visit :: later) final →
          visit.action = .run .scheduler → visit.before.Visits tick group →
            visit.before.trace.shouldDefer visit.before.now (100 * millisecond) = true →
              ∃ kept, visit.after.group? tick.next = some kept ∧
                kept.failures = group.failures := by
  constructor
  · intro hdefers
    obtain ⟨outcome, hphase, houtcome⟩ := hdefers _ _ _ _ _ _ path_samplePairVisit rfl
      samplePairVisit_visits (by decide +kernel)
    have hfailed : samplePairVisit.after.scheduler.phase =
        .visiting (samplePairTick.concluded (.failed (.openFailed .other))) := by decide +kernel
    rw [hfailed] at hphase
    rcases houtcome with rfl | rfl <;> simp [Tick.concluded] at hphase
  · intro hkeeps
    obtain ⟨kept, hkept, hfailures⟩ := hkeeps _ _ _ _ _ _ path_sampleSteadyVisit rfl
      sampleSteadyVisit_visits (by decide +kernel)
    have hanew : (sampleSteadyVisit.after.group? 0).map (·.failures) = some 0 := by decide +kernel
    rw [hkept, Option.map_some, hfailures] at hanew
    exact absurd hanew (by decide)

end Connection

end Fieldbus
