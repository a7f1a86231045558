import Fieldbus.Connection.Clock
import Fieldbus.Proofs.Polling.Rounds
import Fieldbus.Proofs.Settings.Reloading
import Fieldbus.Proofs.Write.Activity
import Fieldbus.Proofs.Write.Plans

/-!
# Instants that a clock can tell

Every instant that a step computes lies ahead of an instant on record, by a duration from the
settings or by the waiting time of a group.  What is on record is past, so that a run stays within
its clock as long as the longest of these durations still fits behind it.  Nothing else bounds the
period of a point: one that reaches beyond the clock ends the scheduler.
-/

namespace Fieldbus

theorem LinkSettings.writable_of_orElse? {slot : Option Document} {settings : LinkSettings}
    (hread : Document.orElse? {} ofDocument? slot = some settings) : settings.Writable := by
  cases slot with
  | none =>
      obtain rfl := Option.some.inj hread
      constructor <;> decide
  | some document => exact writable_of_ofDocument? hread

theorem ConnectionSettings.writable_of_ofDocument? {document : Document}
    {settings : ConnectionSettings} (hread : ofDocument? document = some settings) :
    settings.link.Writable := by
  simp only [ofDocument?, Option.bind_eq_bind, Option.bind_eq_some_iff] at hread
  obtain ⟨slots, -, hread⟩ := hread
  split at hread
  · simp only [Option.bind_eq_some_iff, Option.pure_def, Option.some.injEq] at hread
    obtain ⟨name, -, enabled, -, tick, -, link, hlink, decode, -, rfl⟩ := hread
    exact LinkSettings.writable_of_orElse? hlink
  · simp at hread

theorem PointDeclaration.period_of_toPoint {declaration : PointDeclaration} {point : Point}
    (hdeclares : declaration.toPoint = .ok point) : declaration.period = .ok point.period := by
  obtain ⟨address, -, hdeclares⟩ := exists_of_bind_eq_ok hdeclares
  obtain ⟨registerClass, -, hdeclares⟩ := exists_of_bind_eq_ok hdeclares
  obtain ⟨rawType, -, hdeclares⟩ := exists_of_bind_eq_ok hdeclares
  obtain ⟨period, hperiod, hdeclares⟩ := exists_of_bind_eq_ok hdeclares
  obtain ⟨access, -, hdeclares⟩ := exists_of_bind_eq_ok hdeclares
  obtain ⟨_, -, hdeclares⟩ := exists_of_bind_eq_ok hdeclares
  obtain rfl := Except.ok.inj hdeclares
  exact hperiod

/-- A period that is written down is not too long to be written in milliseconds. -/
theorem PointDeclaration.period_le {declaration : PointDeclaration} {point : Point}
    (hdeclares : declaration.toPoint = .ok point) : point.period ≤ longestWritten := by
  have hperiod := period_of_toPoint hdeclares
  rw [period] at hperiod
  split at hperiod
  · obtain hdefault := Except.ok.inj hperiod
    rw [← hdefault]
    decide
  · obtain ⟨-, -, -, -, hlongest⟩ := DurationText.parse_eq_ok_iff.mp hperiod
    exact hlongest.trans (by decide)

section Record

variable {record : Option Instant} {now later next : Instant} {wait longest : Nanoseconds}

/-- An instant on record, if there is one, is not ahead. -/
def Past (now : Instant) (record : Option Instant) : Prop := ∀ instant ∈ record, instant ≤ now

theorem Past.mono (hpast : Past now record) (hlater : now ≤ later) : Past later record :=
  fun instant hinstant => (hpast instant hinstant).trans hlater

theorem past_none (now : Instant) : Past now none := by simp [Past]

theorem past_some_iff {instant : Instant} : Past now (some instant) ↔ instant ≤ now := by
  simp [Past]

theorem Past.add_le (hpast : Past now record) (hwait : wait ≤ longest)
    (hnext : next ∈ record.map (· + wait)) : next ≤ now + longest := by
  obtain ⟨instant, hinstant, rfl⟩ := Option.mem_map.mp hnext
  exact Nat.add_le_add (hpast instant hinstant) hwait

end Record

def elapsed (actions : List Action) : Nanoseconds := (actions.map Action.duration).sum

theorem elapsed_cons (action : Action) (rest : List Action) :
    elapsed (action :: rest) = action.duration + elapsed rest := by
  rw [elapsed, List.map_cons, List.sum_cons, elapsed]

namespace PollGroup

variable {group : PollGroup} {now later : Instant} {ceiling longest : Nanoseconds}

theorem effectivePeriod_le (ceiling : Nanoseconds) (group : PollGroup) :
    group.effectivePeriod ceiling ≤ max ceiling group.period := by
  rw [effectivePeriod]
  cases hdelay : backoff? group.period group.failures ceiling with
  | none => exact Nat.le_max_right _ _
  | some delay => exact backoff?_le hdelay

theorem le_effectivePeriod (ceiling : Nanoseconds) (group : PollGroup) :
    group.period ≤ group.effectivePeriod ceiling := by
  rw [effectivePeriod]
  cases hdelay : backoff? group.period group.failures ceiling with
  | none => exact Nat.le_refl _
  | some delay => exact le_backoff? hdelay

/-- The period of the group is bounded, and its last poll is past. -/
structure Dated (longest : Nanoseconds) (now : Instant) (group : PollGroup) : Prop where
  period : group.period ≤ longest
  lastPollAt : Past now group.lastPollAt

namespace Dated

theorem mono (hdated : group.Dated longest now) (hlater : now ≤ later) :
    group.Dated longest later :=
  ⟨hdated.period, hdated.lastPollAt.mono hlater⟩

theorem asked (hdated : group.Dated longest now) (ceiling : Nanoseconds) :
    (group.asked ceiling).Dated longest now := by
  rw [PollGroup.asked]
  split
  · exact ⟨hdated.period, hdated.lastPollAt⟩
  · exact hdated

theorem recordSuccess (hdated : group.Dated longest now) {instant : Instant}
    (hinstant : instant ≤ now) : (group.recordSuccess instant).Dated longest now :=
  ⟨hdated.period, past_some_iff.mpr hinstant⟩

theorem recordFailure (hdated : group.Dated longest now) {instant : Instant}
    (hinstant : instant ≤ now) : (group.recordFailure instant).Dated longest now :=
  ⟨hdated.period, past_some_iff.mpr hinstant⟩

/-- The next poll is not further ahead than the longest duration. -/
theorem nextPollAt_le (hdated : group.Dated longest now) (hceiling : ceiling ≤ longest)
    {next : Instant} (hnext : next ∈ group.nextPollAt? ceiling) : next ≤ now + longest :=
  hdated.lastPollAt.add_le
    ((group.effectivePeriod_le ceiling).trans (Nat.max_le.mpr ⟨hceiling, hdated.period⟩)) hnext

theorem set {groups : List PollGroup} (hgroups : ∀ group ∈ groups, group.Dated longest now)
    (hdated : group.Dated longest now) (index : Nat) :
    ∀ kept ∈ groups.set index group, kept.Dated longest now := by
  intro kept hkept
  rcases List.mem_or_eq_of_mem_set hkept with hmem | rfl
  · exact hgroups kept hmem
  · exact hdated

end Dated

end PollGroup

section Steps

/-- The link keeps its minimum interval, and notes at most the end of an exchange. -/
structure Link.Notes (now : Instant) (link after : Link) : Prop where
  minInterval : after.minInterval = link.minInterval
  lastExchangeEnd : after.lastExchangeEnd = link.lastExchangeEnd ∨
    after.lastExchangeEnd = some now

namespace Link

variable {link after : Link} {now : Instant}

theorem Evolves.notes {events : List Event} (hevolves : Evolves now link after events) :
    link.Notes now after := by
  induction hevolves with
  | refl link => exact ⟨rfl, .inl rfl⟩
  | shows hlink hstate hrest ih => exact ih
  | marks hrest ih | changes hlive hrest ih => exact ⟨ih.minInterval, ih.lastExchangeEnd⟩
  | stamps hrest ih => exact ⟨ih.minInterval, .inr (ih.lastExchangeEnd.elim id id)⟩

theorem notes_shutdown (now : Instant) (link : Link) : link.Notes now link.shutdown.1 := by
  have hclose := (link.evolves_close now).notes
  rw [shutdown_fst]
  exact ⟨hclose.minInterval, hclose.lastExchangeEnd⟩

theorem space_fst (now : Instant) (request : Request) (link : Link) :
    (link.space now request).1 = link := by
  rcases link.space_cases now request with ⟨stop, -, hspace⟩ | ⟨events, hspace, -⟩ <;>
    rw [hspace]

theorem begin_fst (now : Instant) (request : Request) (link : Link) :
    (link.begin now request).1 = link := by
  rw [begin]
  split
  · rfl
  · split
    · exact link.space_fst now request
    · rfl

end Link

variable {c after : Traffic} {action : Action} {events : List Event}

theorem Move.notes (hmove : Move c action events after) : c.link.Notes c.now after.link := by
  cases hmove with
  | leaveLink => exact ⟨rfl, .inl rfl⟩
  | endScheduler | callShutdown => exact c.link.notes_shutdown c.now
  | poll hphase hheld hopen hread hbegin | attempt hphase hheld hopen hjob hbegin =>
      exact (Link.evolves_begin hbegin).notes
  | proceed htransaction hturn | store htransaction hphase hjob hturn
  | misfit htransaction hphase hturn | endPoll htransaction hphase hturn
  | fail htransaction hphase hjob hturn => exact hturn.evolves.notes
  | writeBack htransaction hphase hjob hfield hturn hencode hbegin =>
      exact (hturn.evolves.trans (Link.evolves_begin hbegin)).notes
  | elapse | stay | stroll | clear | seekLink | seekSetting | seekShutdown | refuse | startWrite
  | startPosting | postClose | endSetting | callSeekShutdown | announce | enterSection | finish
  | callSeekLink | callLeaveLink | «return» | cancel | refuseAttempt => exact ⟨rfl, .inl rfl⟩

/-- The scheduler records polls at the instant of their tick. -/
theorem SchedulerStep.dated {c : Connection} {shown : List Event} {next : Scheduler}
    {longest : Nanoseconds} (hstep : SchedulerStep c action shown next)
    (hticks : ∀ tick ∈ c.scheduler.phase.tick?, tick.instant ≤ c.now)
    (hgroups : ∀ group ∈ c.scheduler.groups, group.Dated longest c.now) :
    ∀ group ∈ next.groups, group.Dated longest c.now := by
  have hkept {index : Nat} {group : PollGroup} (hfound : c.group? index = some group) :
      group.Dated longest c.now := hgroups group (List.mem_of_getElem? hfound)
  cases hstep with
  | notDue hvisits | defer hvisits | clear hvisits =>
      exact .set hgroups ((hkept hvisits.found).asked _) _
  | skip hvisits =>
      have htick := hticks _ (by rw [hvisits.phase]; rfl)
      exact .set hgroups (((hkept hvisits.found).asked _).recordFailure htick) _
  | read hhears =>
      have htick := hticks _ (by rw [hhears.phase]; rfl)
      exact .set hgroups ((hkept hhears.found).recordSuccess htick) _
  | fail hhears =>
      have htick := hticks _ (by rw [hhears.phase]; rfl)
      exact .set hgroups ((hkept hhears.found).recordFailure htick) _
  | keep | switch | seekSetting | applied | halt | seekShutdown | endScheduler | beginTick
  | endTick | seekLink | giveUp | poll | abort | sample | pass | deliver | conclude =>
      exact hgroups

end Steps

namespace Connection

variable {c after final : Connection} {action : Action} {events : List Event} {tick : Tick}
variable {group : PollGroup} {longest uptime : Nanoseconds} {actions : List Action}

/-! ## Dated connections -/

/-- No duration is longer than the given one, and all that is on record is past. -/
structure Dated (longest : Nanoseconds) (c : Connection) : Prop where
  minInterval : c.link.minInterval ≤ longest
  quiet : c.settings.link.minInterval ≤ longest
  ceiling : c.ceiling ≤ longest
  exchange : Past c.now c.link.lastExchangeEnd
  write : Past c.now c.trace.lastEndAt
  tick : ∀ tick ∈ c.scheduler.phase.tick?, tick.instant ≤ c.now
  groups : ∀ group ∈ c.scheduler.groups, group.Dated longest c.now

theorem create_dated {settings : ConnectionSettings} {declared : List Point} (codec : ValueCodec)
    (hinterval : settings.link.minInterval ≤ longest)
    (hceiling : settings.link.maxBackoff ≤ longest)
    (hperiods : ∀ point ∈ declared, point.Valid → point.period ≤ longest) :
    (create settings codec declared).1.Dated longest where
  minInterval := hinterval
  quiet := hinterval
  ceiling := hceiling
  exchange := past_none _
  write := past_none _
  tick := by simp [create, SchedulerPhase.tick?]
  groups := by
    intro group hgroup
    obtain ⟨hfresh, point, hpoint, hperiod⟩ := exists_point_of_mem_buildGroups hgroup
    have hdeclared : point ∈ declared :=
      register_subset (List.nil_subset _) (List.Subset.refl _) hpoint
    have hvalid : point.Valid := create_valid settings codec declared point hpoint
    refine ⟨hperiod ▸ hperiods point hdeclared hvalid, ?_⟩
    rw [← hfresh]
    exact past_none _

/-- A step puts on record only what is past. -/
theorem Dated.step (hdated : c.Dated longest) (horderly : c.traffic.Orderly)
    (hstep : c.step action = some (after, events)) : after.Dated longest := by
  have hmove := move_of_step horderly hstep
  have hscheduler := scheduler_of_step horderly hstep
  have hnow : c.now ≤ after.now := hmove.now_le
  have hsettings : after.settings = c.settings := hmove.settings_eq
  have hinterval : after.link.minInterval = c.link.minInterval := hmove.notes.minInterval
  constructor
  case minInterval => exact hinterval ▸ hdated.minInterval
  case quiet => exact hsettings ▸ hdated.quiet
  case ceiling =>
      rw [Connection.ceiling, hsettings]
      exact hdated.ceiling
  case exchange =>
      rcases hmove.notes.lastExchangeEnd with hsame | hends
      · exact hsame ▸ hdated.exchange.mono hnow
      · exact hends ▸ past_some_iff.mpr hnow
  case write =>
      cases hmove.activity_step with
      | keep htrace =>
          have hsame : after.trace = c.trace := htrace
          exact hsame ▸ hdated.write.mono hnow
      | starts id haction hnew htrace =>
          have hstarts : after.trace = c.trace.start := htrace
          exact hstarts ▸ hdated.write.mono hnow
      | ends id hcause hold htrace =>
          have hends : after.trace = c.trace.finish c.now := htrace
          exact hends ▸ past_some_iff.mpr hnow
  case tick =>
      intro tick htick
      rcases hscheduler.tick htick with hsame | ⟨due, hdue, rfl⟩ | ⟨old, _, _, hends, rfl⟩
      · exact (hdated.tick tick hsame).trans hnow
      · exact hdue.trans hnow
      · exact (hdated.tick old hends.tick?_eq).trans hnow
  case groups =>
      intro group hgroup
      exact (hscheduler.dated hdated.tick hdated.groups group hgroup).mono hnow

theorem questioned?_eq_some_iff :
    c.questioned? = some (tick, group) ↔ c.Visits tick group := by
  constructor
  · intro hasks
    unfold questioned? at hasks
    split at hasks
    · next other hphase =>
        split at hasks
        · next hgoes =>
            obtain ⟨found, hfound, hpair⟩ := Option.map_eq_some_iff.mp hasks
            obtain ⟨rfl, rfl⟩ := Prod.mk.inj hpair
            simp only [Bool.and_eq_true, Option.isNone_iff_eq_none, Bool.not_eq_true'] at hgoes
            obtain ⟨⟨hnothing, henabled⟩, hopen⟩ := hgoes
            obtain ⟨hcommands, hattended⟩ := receive?_eq_none hnothing
            exact ⟨hphase, hfound, hcommands, hattended, henabled, hopen⟩
        · simp at hasks
    · simp at hasks
  · intro hvisits
    simp [questioned?, hvisits.phase, receive?, Mailbox.take?, hvisits.commands,
      hvisits.attended, hvisits.enabled, hvisits.notClosing, hvisits.found]

/-- No instant that a step computes is further ahead than the longest duration. -/
theorem Dated.sums_le (hdated : c.Dated longest) (horderly : c.traffic.Orderly)
    (hstep : c.step action = some (after, events)) :
    ∀ instant ∈ c.sums action after, instant ≤ c.now + longest := by
  have hnotes := (move_of_step horderly hstep).notes
  intro instant hinstant
  rcases List.mem_append.mp hinstant with hvisit | hspacing
  · split at hvisit
    · next tick group hasks =>
        have hvisits := questioned?_eq_some_iff.mp hasks
        have hgroup := hdated.groups group (List.mem_of_getElem? hvisits.found)
        have hpoll (hnext : instant ∈ (group.nextPollAt? c.ceiling).toList) :
            instant ≤ c.now + longest :=
          hgroup.nextPollAt_le hdated.ceiling (Option.mem_toList.mp hnext)
        unfold visitSums at hvisit
        split at hvisit
        · rcases List.mem_append.mp hvisit with hnext | hquiet
          · exact hpoll hnext
          · exact hdated.write.add_le hdated.quiet (Option.mem_toList.mp hquiet)
        · exact hpoll hvisit
    · simp at hvisit
  · split at hspacing
    -- The link is asked as the step leaves it, and a step may put the end of an exchange on record.
    · have hpast : Past c.now after.link.lastExchangeEnd := by
        rcases hnotes.lastExchangeEnd with hsame | hends
        · exact hsame ▸ hdated.exchange
        · exact hends ▸ past_some_iff.mpr (Nat.le_refl _)
      have hinterval : after.link.minInterval ≤ longest := hnotes.minInterval ▸ hdated.minInterval
      exact hpast.add_le hinterval (Option.mem_toList.mp hspacing)
    · simp at hspacing

theorem Dated.fits (hdated : c.Dated longest) (horderly : c.traffic.Orderly)
    (hclock : uptime + (c.now + longest) ≤ latestReading) (action : Action) :
    c.Fits uptime action := by
  rintro ⟨after, events⟩ hstep instant hinstant
  have hahead := hdated.sums_le horderly hstep instant hinstant
  exact (Nat.add_le_add_left hahead uptime).trans hclock

theorem Fits.stepWithin_eq (hfits : c.Fits uptime action) :
    c.stepWithin uptime action = c.step action := by
  rw [stepWithin]
  cases hstep : c.step action with
  | none => rfl
  | some outcome => simp [if_pos (hfits outcome hstep)]

/-- The clock has room for a run and for the step after it: no instant that is computed on the way
lies beyond it, so that the run is the one under a clock without an end. -/
structure KeepsTime (uptime : Nanoseconds) (start : Connection) (actions : List Action) :
    Prop where
  run : start.runWithin uptime actions = start.run actions
  fits : ∀ final events, start.run actions = some (final, events) →
    ∀ action, final.Fits uptime action

theorem Dated.keepsTime (hdated : c.Dated longest) (horderly : c.traffic.Orderly)
    (hclock : uptime + (c.now + elapsed actions + longest) ≤ latestReading) :
    KeepsTime uptime c actions := by
  -- The invariant goes along the run; what has elapsed of it moves from the actions to the clock.
  induction actions generalizing c with
  | nil =>
      refine ⟨rfl, fun final events hrun action => ?_⟩
      obtain ⟨rfl, -⟩ := Prod.mk.inj (Option.some.inj hrun)
      exact hdated.fits horderly hclock action
  | cons action rest ih =>
      rw [elapsed_cons] at hclock
      have hnext : c.now ≤ c.now + (action.duration + elapsed rest) := Nat.le_add_right _ _
      have hroom : uptime + (c.now + longest) ≤ latestReading := calc
        uptime + (c.now + longest)
            ≤ uptime + (c.now + (action.duration + elapsed rest) + longest) :=
          Nat.add_le_add_left (Nat.add_le_add_right hnext longest) uptime
        _ ≤ latestReading := hclock
      have hfits : c.Fits uptime action := hdated.fits horderly hroom action
      cases hstep : c.step action with
      | none =>
          refine ⟨?_, fun final events hrun => ?_⟩
          · rw [runWithin, hfits.stepWithin_eq, run, hstep]
            rfl
          · simp [run, hstep] at hrun
      | some outcome =>
          obtain ⟨after, shown⟩ := outcome
          have hmove := move_of_step horderly hstep
          have hnow : after.now = c.now + action.duration := hmove.now_eq
          rw [← Nat.add_assoc c.now, ← hnow] at hclock
          have hrest := ih (hdated.step horderly hstep) (hmove.orderly horderly) hclock
          refine ⟨?_, fun final events hrun => ?_⟩
          · simp only [runWithin, hfits.stepWithin_eq, run, hstep, Option.bind_eq_bind,
              Option.bind_some, hrest.run]
          · simp only [run, hstep, Option.bind_eq_bind, Option.bind_some,
              Option.bind_eq_some_iff, Option.pure_def, Option.some.injEq, Prod.mk.injEq] at hrun
            obtain ⟨⟨last, more⟩, hmore, rfl, -⟩ := hrun
            exact hrest.fits last more hmore

/-! ## Instants beyond the clock -/

/-- The scheduler fails in its next step.  It has ended although nobody asked for it, it takes no
command any more, and it neither tells of its end nor closes the link. -/
structure Breaks (uptime : Nanoseconds) (before after : Connection) (events : List Event) :
    Prop where
  step : before.stepWithin uptime (.run .scheduler) = some (after, events)
  ended : after.scheduler.phase = .ended
  deaf : after.mailbox.receiving = false
  link : after.link = before.link
  silent : .schedulerEnds ∉ events

/-- A step of the scheduler breaks it exactly if the step computes an instant beyond the clock. -/
theorem breaks_iff_of_step (hstep : c.step (.run .scheduler) = some (after, events))
    (hlink : after.link = c.link) (hgoes : after.scheduler.phase ≠ .ended)
    (hsilent : .schedulerEnds ∉ events) :
    (∃ broken shown, Breaks uptime c broken shown) ↔
      ∃ instant ∈ c.sums (.run .scheduler) after, ¬Expressible uptime instant := by
  have hwithin : c.stepWithin uptime (.run .scheduler) =
      if ∀ instant ∈ c.sums (.run .scheduler) after, Expressible uptime instant then
        some (after, events)
      else some (c.overrun (.run .scheduler) (after, events)) := by
    rw [stepWithin, hstep, Option.map_some]
    dsimp only
    split <;> rfl
  constructor
  · rintro ⟨broken, shown, hbreaks⟩
    by_contra hnone
    push Not at hnone
    rw [if_pos hnone, hbreaks.step, Option.some.injEq, Prod.mk.injEq] at hwithin
    exact hgoes (hwithin.1 ▸ hbreaks.ended)
  · rintro ⟨instant, hinstant, hbeyond⟩
    rw [if_neg fun hall => hbeyond (hall instant hinstant)] at hwithin
    refine ⟨_, _, hwithin, rfl, rfl, hlink, fun hends => hsilent ?_⟩
    exact (List.takeWhile_sublist _).subset hends

theorem phase_visitGroup_ne_ended (tick : Tick) (group : PollGroup) (c : Connection) :
    (c.visitGroup tick group).1.scheduler.phase ≠ .ended := by
  rw [visitGroup]
  dsimp only
  split
  · simp [concludeVisit_eq, setPhase]
  · split
    · simp [concludeVisit_eq, setPhase]
    · split
      · simp [concludeVisit_eq, setPhase]
      · simp [setPhase]

theorem schedulerEnds_not_mem_visitGroup (tick : Tick) (group : PollGroup) (c : Connection) :
    .schedulerEnds ∉ (c.visitGroup tick group).2 := by
  intro hends
  have hreport : .schedulerEnds ∈ reports (c.visitGroup tick group).2 :=
    List.mem_filter.mpr ⟨hends, rfl⟩
  simp [reports_visitGroup] at hreport

/-- A visit computes no other instants than those of the group and of the writes. -/
theorem Visits.sums_eq (hvisits : c.Visits tick group) :
    c.sums (.run .scheduler) (c.visitGroup tick group).1 = c.visitSums tick group := by
  have hmove := visitGroup_move hvisits.found hvisits.phase hvisits.notClosing
  obtain ⟨-, -, hsame⟩ := hmove.of_visiting hvisits.phase
  have htransaction : (c.visitGroup tick group).1.transaction = c.transaction := hsame
  have hspaces : c.spaces (.run .scheduler) (c.visitGroup tick group).1 = false := by
    simp [spaces, htransaction]
  simp [sums, questioned?_eq_some_iff.mpr hvisits, hspaces]

theorem Visits.breaks_iff (hvisits : c.Visits tick group) :
    (∃ after events, Breaks uptime c after events) ↔
      ∃ instant ∈ c.visitSums tick group, ¬Expressible uptime instant := by
  have hmove := visitGroup_move hvisits.found hvisits.phase hvisits.notClosing
  obtain ⟨-, hlink, -⟩ := hmove.of_visiting hvisits.phase
  rw [← hvisits.sums_eq]
  exact breaks_iff_of_step hvisits.step_eq hlink (phase_visitGroup_ne_ended tick group c)
    (schedulerEnds_not_mem_visitGroup tick group c)

/-- The question whether the group is due breaks the scheduler if its period alone reaches beyond
the clock. -/
theorem Visits.breaks_of_period (hvisits : c.Visits tick group) {last : Instant}
    (hlast : group.lastPollAt = some last)
    (hbeyond : latestReading < uptime + (last + group.period)) :
    ∃ after events, Breaks uptime c after events := by
  have hnext : group.nextPollAt? c.ceiling = some (last + group.effectivePeriod c.ceiling) := by
    rw [PollGroup.nextPollAt?, hlast, Option.map_some]
  refine hvisits.breaks_iff.mpr ⟨last + group.effectivePeriod c.ceiling, ?_, ?_⟩
  · rw [visitSums, hnext]
    split <;> simp
  · apply Nat.not_le.mpr
    calc latestReading < uptime + (last + group.period) := hbeyond
      _ ≤ uptime + (last + group.effectivePeriod c.ceiling) :=
        Nat.add_le_add_left (Nat.add_le_add_left (group.le_effectivePeriod c.ceiling) last) uptime

/-- A link that keeps its minimum interval either waits for its end or starts the exchange. -/
theorem isSpaced_of_space {link : Link} {now : Instant} {request : Request} {stage : Stage}
    (hspace : link.space now request = (link, events, .waiting stage)) :
    stage.isSpaced = true := by
  rcases link.space_cases now request with ⟨stop, -, hresult⟩ | ⟨sent, hresult, -⟩
  · obtain ⟨-, rfl⟩ : [] = events ∧ .spacing stop = stage := by
      simpa using hresult.symm.trans hspace
    rfl
  · obtain ⟨-, rfl⟩ : sent = events ∧ .exchanging now = stage := by
      simpa using hresult.symm.trans hspace
    rfl

/-- The scheduler has the link for a poll, and the transport is open. -/
structure ReadyToPoll (c : Connection) (tick : Tick) (group : PollGroup) : Prop where
  phase : c.scheduler.phase = .awaitingLink tick
  found : c.group? tick.next = some group
  held : c.linkLock.holder = some .scheduler
  idle : c.transaction = none
  notClosing : c.closing = false
  isOpen : c.link.isOpen = true

/-- The beginning of a poll computes when its exchange may start, and nothing else. -/
theorem ReadyToPoll.exists_step (hready : c.ReadyToPoll tick group) :
    ∃ after events, c.step (.run .scheduler) = some (after, events) ∧ after.link = c.link ∧
      after.scheduler.phase = .polling tick ∧ OfLink events ∧
        c.sums (.run .scheduler) after = c.link.nextExchangeAt?.toList := by
  obtain ⟨link, events, stage, hbegin⟩ := c.link.begin_read c.now group.readRequest
  obtain rfl : c.link = link := by rw [← c.link.begin_fst c.now (.read group.readRequest), hbegin]
  have hspaced : stage.isSpaced = true := by
    rcases Link.begin_waiting hbegin with ⟨-, hspace⟩ | ⟨hdown, -⟩
    · exact isSpaced_of_space hspace
    · simp [hready.isOpen] at hdown
  have hheld : c.linkLock.isHeldBy .scheduler = true := FairLock.isHeldBy_iff.mpr hready.held
  have hstep : c.step (.run .scheduler) = some ({ c.setPhase (.polling tick) with
      transaction := some ⟨.read group.readRequest, stage⟩ }, events) := by
    simp only [step, runScheduler?, hready.phase, hheld, if_true, hready.notClosing,
      Bool.false_eq_true, if_false, beginPoll, hready.found, hbegin, proceed, setPhase]
  refine ⟨_, _, hstep, rfl, rfl, (Link.evolves_begin hbegin).ofLink, ?_⟩
  simp [sums, questioned?, hready.phase, spaces, hready.idle, hspaced, setPhase]

theorem ReadyToPoll.breaks_iff (hready : c.ReadyToPoll tick group) :
    (∃ after events, Breaks uptime c after events) ↔
      ∃ next, c.link.nextExchangeAt? = some next ∧ ¬Expressible uptime next := by
  obtain ⟨after, events, hstep, hlink, hphase, hshown, hsums⟩ := hready.exists_step
  rw [breaks_iff_of_step hstep hlink (by simp [hphase]) (fun hends => by
    simpa [Event.isOfLink] using hshown _ hends), hsums]
  simp only [Option.mem_toList]

/-- What comes of the instants that a connection computes, on a clock that reads `uptime` at its
beginning. -/
structure Timekeeping (uptime : Nanoseconds) (settings : ConnectionSettings) (codec : ValueCodec)
    (declared : List Point) (actions : List Action) : Prop where
  /-- The connection keeps within its clock as long as its longest duration fits behind the run. -/
  keeps : ∀ longest, settings.link.minInterval ≤ longest → settings.link.maxBackoff ≤ longest →
    (∀ point ∈ declared, point.Valid → point.period ≤ longest) →
      uptime + (elapsed actions + longest) ≤ latestReading →
        KeepsTime uptime (create settings codec declared).1 actions
  /-- Durations that are written down are never longer than `longestWritten`. -/
  keeps_written : ∀ document, ConnectionSettings.ofDocument? document = some settings →
    (∀ point ∈ declared, ∃ declaration : PointDeclaration, declaration.toPoint = .ok point) →
      uptime + (elapsed actions + longestWritten) ≤ latestReading →
        KeepsTime uptime (create settings codec declared).1 actions
  /-- A visit breaks the scheduler exactly if the next poll of the group or the end of the quiet
  time lies beyond the clock. -/
  visit_breaks_iff : ∀ (c : Connection) (tick : Tick) (group : PollGroup), c.Visits tick group →
    ((∃ after events, Breaks uptime c after events) ↔
      ∃ instant ∈ c.visitSums tick group, ¬Expressible uptime instant)
  visit_breaks_of_period : ∀ (c : Connection) (tick : Tick) (group : PollGroup),
    c.Visits tick group → ∀ last, group.lastPollAt = some last →
      latestReading < uptime + (last + group.period) → ∃ after events, Breaks uptime c after events
  /-- The beginning of a poll breaks it exactly if the end of the minimum interval lies there. -/
  poll_breaks_iff : ∀ (c : Connection) (tick : Tick) (group : PollGroup),
    c.ReadyToPoll tick group →
      ((∃ after events, Breaks uptime c after events) ↔
        ∃ next, c.link.nextExchangeAt? = some next ∧ ¬Expressible uptime next)

theorem keepsTime_of_longest {settings : ConnectionSettings} {declared : List Point}
    {actions : List Action} (codec : ValueCodec) (hinterval : settings.link.minInterval ≤ longest)
    (hceiling : settings.link.maxBackoff ≤ longest)
    (hperiods : ∀ point ∈ declared, point.Valid → point.period ≤ longest)
    (hclock : uptime + (elapsed actions + longest) ≤ latestReading) :
    KeepsTime uptime (create settings codec declared).1 actions := by
  refine (create_dated codec hinterval hceiling hperiods).keepsTime
    (create_orderly settings codec declared) ?_
  have hstart : (create settings codec declared).1.now = 0 := rfl
  rwa [hstart, Nat.zero_add]

/-- A connection keeps within its clock, or its scheduler breaks at an instant beyond it. -/
theorem keepsTime_or_breaks (uptime : Nanoseconds) (settings : ConnectionSettings)
    (codec : ValueCodec) (declared : List Point) (actions : List Action) :
    Timekeeping uptime settings codec declared actions where
  keeps longest := keepsTime_of_longest codec
  keeps_written := by
    intro document hread hdeclared hclock
    have hwritable := ConnectionSettings.writable_of_ofDocument? hread
    refine keepsTime_of_longest codec hwritable.minInterval hwritable.maxBackoff ?_ hclock
    intro point hpoint _
    obtain ⟨declaration, hdeclares⟩ := hdeclared point hpoint
    exact PointDeclaration.period_le hdeclares
  visit_breaks_iff _ _ _ hvisits := hvisits.breaks_iff
  visit_breaks_of_period _ _ _ hvisits _ := hvisits.breaks_of_period
  poll_breaks_iff _ _ _ hready := hready.breaks_iff

end Connection

/-- A register that is polled once in more seconds than a signed number can count. -/
def Point.glacial : Point := { sample with period := 2 ^ 63 * second }

/-- A poll, and the next tick a second later. -/
def Action.pollAndReturn : List Action :=
  openForPoll ++ [.openDone (.ok ()), .exchangeDone (.ok (.registers [7])), .run .scheduler,
    .deliver, .run .scheduler, .run .scheduler, .elapse second, .tick]

/-- The declaration of a register with a period of its own. -/
def PointDeclaration.sample : PointDeclaration where
  deviceId := "plant"
  name := "level"
  unitId := 1
  startAddress := .number 4
  registerClass := "HOLDING_REGISTER"
  rawType := "uint16"
  duration := some "1m30s"

namespace Connection

/-- A connection that polls the slow register. -/
def sampleGlacial : Connection := (create {} Codec.registerCodec [Point.glacial]).1

/-- Its only group, after the first poll. -/
def glacialGroup : PollGroup :=
  { PollGroup.single 0 Point.glacial ⟨4, 1⟩ with lastPollAt := some 0 }

/-- A connection that waits between two exchanges for as long as a duration can be. -/
def samplePatient : Connection :=
  (create { link := { minInterval := longestDuration } } Codec.registerCodec [Point.sample]).1

/-- The connection when its second poll begins. -/
def patientPoll : Connection :=
  samplePatient.stop (Action.pollAndReturn ++ [.run .scheduler, .run .scheduler])

theorem patientPoll_ready :
    patientPoll.ReadyToPoll { instant := second }
      { PollGroup.single 0 Point.sample ⟨4, 1⟩ with lastPollAt := some 0 } := by
  constructor <;> decide +kernel

theorem sampleGlacial_visits :
    (sampleGlacial.stop Action.pollAndReturn).Visits { instant := second } glacialGroup := by
  constructor <;> decide +kernel

/-- After an hour on the clock there is room for a run of a second, with the usual settings and with
those of a document, but the second visit to the slow register breaks the scheduler, and so does the
second poll after the longest interval. -/
theorem sample_keepsTime :
    KeepsTime hour sample Action.pollAndReturn ∧
      (∃ settings declared, ConnectionSettings.ofDocument?
          (.record [("link", LinkSettings.sampleDocument)]) = some settings ∧
        PointDeclaration.sample.toPoint = .ok declared ∧
          KeepsTime hour (create settings Codec.registerCodec [declared]).1
            Action.pollAndReturn) ∧
        (∃ after events, Breaks hour (sampleGlacial.stop Action.pollAndReturn) after events) ∧
          ∃ after events, Breaks hour patientPoll after events := by
  refine ⟨?_, ?_, ?_, ?_⟩
  · have hperiods : ∀ point ∈ [Point.sample], point.Valid → point.period ≤ 60 * second := by
      decide +kernel
    exact (keepsTime_or_breaks hour {} _ _ _).keeps (60 * second) (by decide) (by decide) hperiods
      (by decide +kernel)
  · have hread : ConnectionSettings.ofDocument?
        (.record [("link", LinkSettings.sampleDocument)]) =
          some { link := LinkSettings.sampleSettings } := by decide +kernel
    have hdeclares : PointDeclaration.sample.toPoint =
        .ok { Point.sample with period := 90 * second } := by decide +kernel
    refine ⟨_, _, hread, hdeclares, ?_⟩
    exact (keepsTime_or_breaks hour _ _ _ _).keeps_written _ hread (by simpa using ⟨_, hdeclares⟩)
      (by decide +kernel)
  · exact (keepsTime_or_breaks hour {} Codec.registerCodec [Point.glacial]
      Action.pollAndReturn).visit_breaks_of_period _ _ _ sampleGlacial_visits 0 rfl
        (by decide +kernel)
  · have hnext : patientPoll.link.nextExchangeAt? = some longestDuration := by decide +kernel
    have hbeyond : ¬Expressible hour longestDuration := by decide +kernel
    exact ((keepsTime_or_breaks hour {} Codec.registerCodec [Point.sample]
      Action.pollAndReturn).poll_breaks_iff _ _ _ patientPoll_ready).mpr ⟨_, hnext, hbeyond⟩

/-- A point may be valid, and its period a duration, without leaving the clock enough room for its
second poll. -/
theorem not_forall_keepsTime :
    ¬∀ (uptime : Nanoseconds) (settings : ConnectionSettings) (codec : ValueCodec)
        (declared : List Point) (actions : List Action), uptime + elapsed actions ≤ 2 * hour →
          (∀ point ∈ declared, point.Valid ∧ point.period ≤ longestDuration) →
            KeepsTime uptime (create settings codec declared).1 actions := by
  intro hkeeps
  have hvalid : Point.glacial.Valid ∧ Point.glacial.period ≤ longestDuration := by decide +kernel
  have htime := hkeeps hour {} Codec.registerCodec [Point.glacial] Action.pollAndReturn
    (by decide +kernel) (by simpa using hvalid)
  have hpath := path_walk
    (show (sampleGlacial.run Action.pollAndReturn).isSome = true by decide +kernel)
  have hrun := run_eq_some_iff.mpr ⟨_, hpath, map_action_walk _ _, rfl⟩
  have hbeyond : latestReading < hour + (0 + glacialGroup.period) := by decide +kernel
  obtain ⟨after, events, hbreaks⟩ := sampleGlacial_visits.breaks_of_period rfl hbeyond
  obtain ⟨instant, hinstant, houtside⟩ := sampleGlacial_visits.breaks_iff.mp ⟨_, _, hbreaks⟩
  rw [← sampleGlacial_visits.sums_eq] at hinstant
  exact houtside (htime.fits _ _ hrun _ _ sampleGlacial_visits.step_eq instant hinstant)

end Connection

end Fieldbus
