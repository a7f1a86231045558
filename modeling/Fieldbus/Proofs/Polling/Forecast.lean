import Fieldbus.Proofs.Polling.Publication
import Fieldbus.Proofs.Polling.Visits

/-!
# What a calm tick comes to

While nobody writes, commands or closes, and the transport opens whenever it is asked to, a tick
depends on nothing but the groups that it begins with and the reply to the read of each.  Here the
tick is computed from these: a visit to each group in its turn, each with its outcome, the record
that it leaves and the samples that it passes on.

What a tick still comes to does not change on its way.  Whatever the other users of the connection,
the link and the clock do, a step passes on the samples that it takes from what is to come.
-/

namespace Fieldbus

/-- What comes of a visit to a group. -/
structure VisitReport where
  /-- The place of the group. -/
  index : Nat
  outcome : PollOutcome
  /-- The group with the record that the visit leaves. -/
  kept : PollGroup
  samples : List PointSample

/-- What decides the course of a calm tick, besides its groups. -/
structure Conditions where
  ceiling : Nanoseconds
  codec : ValueCodec
  /-- The reply to the read of each group. -/
  replies : Nat → Except RequestError Response

/-- The samples of the remaining points that decode. -/
def Publication.samples (codec : ValueCodec) (publication : Publication) : List PointSample :=
  publication.remaining.filterMap fun point =>
    let offset := point.address.toNat - publication.start.toNat
    match codec.decode point (publication.response.slice offset point.quantity.toNat) with
    | .ok value =>
      some { device := point.device, point := point.name, rawType := point.rawType, value }
    | .error _ => none

/-- The visit to a group whose poll ends with a result. -/
def PollGroup.report (codec : ValueCodec) (instant : Instant) (index : Nat)
    (result : Except RequestError Response) (group : PollGroup) : VisitReport :=
  match result with
  | .ok response =>
    let publication : Publication :=
      { start := group.range.start, response, remaining := group.points }
    ⟨index, .polled, group.recordSuccess instant, publication.samples codec⟩
  | .error error =>
    let kept := if error.isEnding then group else group.recordFailure instant
    ⟨index, .failed error, kept, []⟩

namespace Conditions

/-- The visit to a group that is read. -/
def read (conditions : Conditions) (instant : Instant) (index : Nat) (group : PollGroup) :
    VisitReport :=
  group.report conditions.codec instant index
    ((Request.read group.readRequest).verdict (conditions.replies index))

/-- The visit to a group, after the transport has failed to open or has not. -/
def visit (conditions : Conditions) (instant : Instant) (failure : Option RequestError)
    (index : Nat) (group : PollGroup) : VisitReport :=
  let asked := group.asked conditions.ceiling
  if group.isDue instant conditions.ceiling then
    match failure with
    | some error => ⟨index, .failed error, asked.recordFailure instant, []⟩
    | none => conditions.read instant index asked
  else ⟨index, .notDue, asked, []⟩

/-- The visits to some groups in their order, the first of which has this place. -/
def visits (conditions : Conditions) (instant : Instant) :
    Nat → Option RequestError → List PollGroup → List VisitReport
  | _, _, [] => []
  | index, failure, group :: rest =>
    let report := conditions.visit instant failure index group
    report :: conditions.visits instant (index + 1) (report.outcome.openFailure?.or failure) rest

end Conditions

/-- What a tick comes to: the groups at its end, its outcomes, and the samples that are still to be
passed on, each with the place of its group. -/
structure Forecast where
  groups : List PollGroup
  outcomes : List (Nat × PollOutcome)
  samples : List (Nat × PointSample)

namespace Forecast

/-- The forecast before some more samples. -/
def after (samples : List (Nat × PointSample)) (forecast : Forecast) : Forecast :=
  { forecast with samples := samples ++ forecast.samples }

/-- After these outcomes, the visits to come leave such groups. -/
def ofReports (groups : List PollGroup) (outcomes : List (Nat × PollOutcome))
    (reports : List VisitReport) : Forecast where
  groups := reports.foldl (fun groups report => groups.set report.index report.kept) groups
  outcomes := outcomes ++ reports.map fun report => (report.index, report.outcome)
  samples := reports.flatMap fun report => report.samples.map (report.index, ·)

theorem after_nil (forecast : Forecast) : forecast.after [] = forecast := rfl

theorem after_after (first second : List (Nat × PointSample)) (forecast : Forecast) :
    (forecast.after second).after first = forecast.after (first ++ second) := by
  simp [after]

end Forecast

/-- The samples of a step, each with the place of the group that is visited. -/
def SchedulerPhase.tagged (phase : SchedulerPhase) (events : List Event) :
    List (Nat × PointSample) :=
  phase.tick?.elim [] fun tick => (events.filterMap Event.sample?).map (tick.next, ·)

namespace Conditions

variable (conditions : Conditions) (enabled : Bool) (groups : List PollGroup) (tick : Tick)

/-- The visits of a tick that have not begun.  There are some while polling is enabled. -/
def following : List VisitReport :=
  if enabled then
    conditions.visits tick.instant tick.next tick.openFailure (groups.drop tick.next)
  else []

/-- What a tick comes to between two visits. -/
def rest : Forecast := .ofReports groups tick.outcomes (conditions.following enabled groups tick)

/-- What a tick comes to in a visit to a group that is to be read. -/
def reading : Forecast :=
  match groups[tick.next]? with
  | some group =>
    let report := conditions.read tick.instant tick.next group
    .ofReports groups tick.outcomes
      (report :: conditions.following enabled groups (tick.concluded report.outcome))
  | none => .ofReports groups tick.outcomes []

/-- What a tick comes to in a publication, which leaves the groups alone. -/
def publishing (publication : Publication) : Forecast :=
  (conditions.rest enabled groups (tick.concluded .polled)).after
    ((publication.samples conditions.codec).map (tick.next, ·))

/-- What the tick under way comes to. -/
def forecast (scheduler : Scheduler) : Forecast :=
  match scheduler.phase with
  | .visiting tick | .applying _ (some tick) =>
    conditions.rest scheduler.enabled scheduler.groups tick
  | .requesting tick | .awaitingLink tick | .polling tick =>
    conditions.reading scheduler.enabled scheduler.groups tick
  | .publishing tick publication =>
    conditions.publishing scheduler.enabled scheduler.groups tick publication
  | .delivering tick publication _ =>
    conditions.publishing scheduler.enabled scheduler.groups tick publication.taken
  | .idle | .applying _ none | .stopping | .awaitingShutdown | .ended =>
    .ofReports scheduler.groups [] []

end Conditions

/-! ## Steps of the forecast -/

theorem Forecast.ofReports_cons (groups : List PollGroup) (outcomes : List (Nat × PollOutcome))
    (report : VisitReport) (reports : List VisitReport) :
    ofReports groups outcomes (report :: reports) =
      (ofReports (groups.set report.index report.kept)
        (outcomes ++ [(report.index, report.outcome)]) reports).after
          (report.samples.map (report.index, ·)) := by
  simp [ofReports, after]

namespace Conditions

variable {conditions : Conditions} {enabled : Bool} {groups : List PollGroup} {tick : Tick}
variable {group kept : PollGroup} {outcome : PollOutcome}

theorem index_read (conditions : Conditions) (instant : Instant) (index : Nat)
    (group : PollGroup) : (conditions.read instant index group).index = index := by
  simp only [read, PollGroup.report]
  split <;> rfl

theorem index_visit (conditions : Conditions) (instant : Instant) (failure : Option RequestError)
    (index : Nat) (group : PollGroup) :
    (conditions.visit instant failure index group).index = index := by
  simp only [visit]
  split
  · split
    · rfl
    · exact index_read ..
  · rfl

/-- The visits that follow do not depend on the record of the group before them. -/
theorem following_set (enabled : Bool) (groups : List PollGroup) (kept : PollGroup)
    (outcome : PollOutcome) (tick : Tick) :
    conditions.following enabled (groups.set tick.next kept) (tick.concluded outcome) =
      conditions.following enabled groups (tick.concluded outcome) := by
  have hnext : (tick.concluded outcome).next = tick.next + 1 := rfl
  rw [following, following, hnext, List.drop_set_of_lt (Nat.lt_succ_self _)]

/-- A visit that ends is the first of those to come. -/
theorem rest_eq (hfound : groups[tick.next]? = some group) (hpolls : enabled = true) :
    let report := conditions.visit tick.instant tick.openFailure tick.next group
    conditions.rest enabled groups tick =
      .ofReports groups tick.outcomes
        (report :: conditions.following enabled groups (tick.concluded report.outcome)) := by
  obtain ⟨hindex, rfl⟩ := List.getElem?_eq_some_iff.mp hfound
  simp only [rest, following, hpolls, if_true, List.drop_eq_getElem_cons hindex, visits]
  rfl

/-- What is left of a tick after a visit. -/
theorem ofReports_visit {report : VisitReport} (hindex : report.index = tick.next)
    (reported : List DeviceId) :
    Forecast.ofReports groups tick.outcomes
        (report :: conditions.following enabled groups (tick.concluded report.outcome)) =
      (conditions.rest enabled (groups.set tick.next report.kept)
        ({ tick with reported }.concluded report.outcome)).after
          (report.samples.map (tick.next, ·)) := by
  rw [Forecast.ofReports_cons, hindex, ← following_set enabled groups report.kept]
  rfl

/-- No group is left to visit. -/
theorem rest_of_none (hnone : groups[tick.next]? = none) :
    conditions.rest enabled groups tick = ⟨groups, tick.outcomes, []⟩ := by
  have hdrop : groups.drop tick.next = [] :=
    List.drop_eq_nil_iff.mpr (List.getElem?_eq_none_iff.mp hnone)
  simp [rest, following, hdrop, visits, Forecast.ofReports]

/-- A visit that ends at once leaves the rest of the tick to come. -/
theorem rest_of_visit {report : VisitReport} (hfound : groups[tick.next]? = some group)
    (hpolls : enabled = true)
    (hreport : conditions.visit tick.instant tick.openFailure tick.next group = report) :
    conditions.rest enabled groups tick =
      (conditions.rest enabled (groups.set tick.next report.kept)
        (tick.concluded report.outcome)).after (report.samples.map (tick.next, ·)) := by
  rw [rest_eq hfound hpolls, hreport, ofReports_visit _ tick.reported]
  rw [← hreport, index_visit]

/-- The group that is due is to be read. -/
theorem rest_of_due (hfound : groups[tick.next]? = some group) (hpolls : enabled = true)
    (hdue : group.isDue tick.instant conditions.ceiling = true) (hopens : tick.openFailure = none) :
    conditions.rest enabled groups tick =
      conditions.reading enabled (groups.set tick.next (group.asked conditions.ceiling)) tick := by
  have hvisit : conditions.visit tick.instant tick.openFailure tick.next group =
      conditions.read tick.instant tick.next (group.asked conditions.ceiling) := by
    simp only [visit, hdue, hopens, if_true]
  have hasked : (groups.set tick.next (group.asked conditions.ceiling))[tick.next]? =
      some (group.asked conditions.ceiling) := by
    obtain ⟨hindex, -⟩ := List.getElem?_eq_some_iff.mp hfound
    exact List.getElem?_set_self hindex
  rw [rest_eq hfound hpolls, hvisit, reading, hasked]
  dsimp only
  rw [Forecast.ofReports_cons, Forecast.ofReports_cons, index_read, List.set_set, following_set]

/-- What a tick comes to once a read has been answered. -/
theorem reading_of_report {report : VisitReport} (hfound : groups[tick.next]? = some group)
    (hreport : conditions.read tick.instant tick.next group = report) (reported : List DeviceId) :
    conditions.reading enabled groups tick =
      (conditions.rest enabled (groups.set tick.next report.kept)
        ({ tick with reported }.concluded report.outcome)).after
          (report.samples.map (tick.next, ·)) := by
  rw [reading, hfound]
  dsimp only
  rw [hreport, ofReports_visit _ reported]
  rw [← hreport, index_read]

end Conditions

/-- No write is under way or has just ended, no command waits, and nobody closes the connection. -/
structure Connection.Calm (c : Connection) : Prop where
  rested : c.trace.shouldDefer c.now c.settings.link.minInterval = false
  commands : c.mailbox.commands = []
  notClosing : c.closing = false

def Connection.conditions (replies : Nat → Except RequestError Response) (c : Connection) :
    Conditions where
  ceiling := c.ceiling
  codec := c.codec
  replies

theorem SchedulerPhase.tagged_eq_nil {events : List Event} (phase : SchedulerPhase)
    (hnone : events.filterMap Event.sample? = []) : phase.tagged events = [] := by
  rw [tagged, hnone]
  cases phase.tick? <;> rfl

theorem filterMap_sample?_map {A : Type} {event : A → Event}
    (hevent : ∀ item, (event item).sample? = none) (items : List A) :
    (items.map event).filterMap Event.sample? = [] := by
  apply List.filterMap_eq_nil_iff.mpr
  simpa using fun item _ => hevent item

namespace Publication

variable {c : Connection} {publication : Publication} {point : Point} {remaining : List Point}

theorem samples_of_value {value : PointValue}
    (hremaining : publication.remaining = point :: remaining)
    (hvalue : c.decodePoint publication point = .ok value) :
    publication.samples c.codec =
      { device := point.device, point := point.name, rawType := point.rawType, value } ::
        publication.taken.samples c.codec := by
  rw [Connection.decodePoint] at hvalue
  simp only [samples, taken, hremaining, List.filterMap_cons, hvalue]

theorem samples_of_error {error : DecodeError}
    (hremaining : publication.remaining = point :: remaining)
    (herror : c.decodePoint publication point = .error error) :
    publication.samples c.codec = { publication with remaining }.samples c.codec := by
  rw [Connection.decodePoint] at herror
  simp only [samples, hremaining, List.filterMap_cons, herror]

end Publication

variable {c : Connection} {action : Action} {shown : List Event} {next : Scheduler}
variable {replies : Nat → Except RequestError Response}

/-- The polls that end with an action end with the verdict on the reply to their group. -/
def Connection.Replied (c : Connection) (action : Action)
    (replies : Nat → Except RequestError Response) : Prop :=
  ∀ tick group result, c.Hears action tick group result →
    result = (Request.read group.readRequest).verdict (replies tick.next)

theorem Connection.Hears.read_eq {tick : Tick} {group : PollGroup}
    {result : Except RequestError Response} (hhears : c.Hears action tick group result)
    (hreplied : c.Replied action replies) :
    (c.conditions replies).read tick.instant tick.next group =
      group.report c.codec tick.instant tick.next result := by
  rw [hreplied _ _ _ hhears]
  rfl

section Steps

variable {tick : Tick} {group : PollGroup} {publication : Publication} {report : VisitReport}
variable {point : Point} {remaining : List Point}

/-- A visit that ends at once leaves the rest of the tick to come. -/
theorem Connection.Visits.forecast_eq {kept : PollGroup} {outcome : PollOutcome}
    (hvisits : c.Visits tick group)
    (hreport : (c.conditions replies).visit tick.instant tick.openFailure tick.next group =
      ⟨tick.next, outcome, kept, []⟩) :
    (c.conditions replies).forecast c.scheduler =
      (c.conditions replies).forecast
        { c.scheduler with
          groups := c.scheduler.groups.set tick.next kept
          phase := .visiting (tick.concluded outcome) } := by
  simp only [Conditions.forecast, hvisits.phase]
  rw [Conditions.rest_of_visit hvisits.found hvisits.enabled hreport, List.map_nil,
    Forecast.after_nil]

/-- After an answer the samples in it are to come, then the rest of the tick. -/
theorem Connection.Hears.forecast_eq {result : Except RequestError Response}
    (hhears : c.Hears action tick group result) (hreplied : c.Replied action replies)
    (hreport : group.report c.codec tick.instant tick.next result = report)
    (reported : List DeviceId) :
    (c.conditions replies).forecast c.scheduler =
      ((c.conditions replies).rest c.scheduler.enabled
        (c.scheduler.groups.set tick.next report.kept)
        ({ tick with reported }.concluded report.outcome)).after
          (report.samples.map (tick.next, ·)) := by
  simp only [Conditions.forecast, hhears.phase]
  exact Conditions.reading_of_report hhears.found ((hhears.read_eq hreplied).trans hreport) reported

theorem Conditions.forecast_of_abort {error : RequestError}
    (hhears : c.Hears action tick group (.error error)) (hreplied : c.Replied action replies)
    (hending : error.isEnding = true) :
    (c.conditions replies).forecast c.scheduler =
      (c.conditions replies).forecast
        { c.scheduler with phase := .visiting (tick.concluded (.failed error)) } := by
  have hreport : group.report c.codec tick.instant tick.next (.error error) =
      ⟨tick.next, .failed error, group, []⟩ := by
    simp [PollGroup.report, hending]
  have hsame : c.scheduler.groups.set tick.next group = c.scheduler.groups := by
    obtain ⟨hindex, hfound⟩ := List.getElem?_eq_some_iff.mp hhears.found
    rw [← hfound, List.set_getElem_self]
  rw [hhears.forecast_eq hreplied hreport tick.reported, hsame]
  rfl

/-- A sample that is passed on is no longer to come. -/
theorem Conditions.forecast_of_sample {value : PointValue} (since : Instant)
    (hphase : c.scheduler.phase = .publishing tick publication)
    (hremaining : publication.remaining = point :: remaining)
    (hvalue : c.decodePoint publication point = .ok value) :
    (c.conditions replies).forecast c.scheduler =
      ((c.conditions replies).forecast
        { c.scheduler with phase := .delivering tick publication since }).after
          [(tick.next,
            { device := point.device, point := point.name, rawType := point.rawType, value })] := by
  have hsamples := Publication.samples_of_value hremaining hvalue
  simp only [forecast, hphase, publishing, Connection.conditions]
  rw [Forecast.after_after, hsamples]
  rfl

theorem Conditions.forecast_of_pass {error : DecodeError}
    (hphase : c.scheduler.phase = .publishing tick publication)
    (hremaining : publication.remaining = point :: remaining)
    (herror : c.decodePoint publication point = .error error) :
    (c.conditions replies).forecast c.scheduler =
      (c.conditions replies).forecast
        { c.scheduler with phase := .publishing tick { publication with remaining } } := by
  have hsamples := Publication.samples_of_error hremaining herror
  simp only [forecast, hphase, publishing, Connection.conditions]
  rw [hsamples]

/-- A publication that has been passed on leaves the rest of the tick to come. -/
theorem Conditions.forecast_of_conclude (hphase : c.scheduler.phase = .publishing tick publication)
    (hremaining : publication.remaining = []) :
    (c.conditions replies).forecast c.scheduler =
      (c.conditions replies).forecast
        { c.scheduler with phase := .visiting (tick.concluded .polled) } := by
  simp only [forecast, hphase, publishing, Publication.samples, hremaining]
  rfl

end Steps

/-- Inside a calm tick a step passes on the first of the samples that are to come, if any. -/
theorem SchedulerStep.forecast_eq (hstep : SchedulerStep c action shown next) (hcalm : c.Calm)
    (hreplied : c.Replied action replies) (hbefore : c.scheduler.phase.tick? ≠ none)
    (hafter : next.phase.tick? ≠ none) :
    (c.conditions replies).forecast c.scheduler =
      ((c.conditions replies).forecast next).after (c.scheduler.phase.tagged shown) := by
  have hsilent : c.scheduler.phase.tagged [] = [] := SchedulerPhase.tagged_eq_nil _ rfl
  cases hstep with
  | keep => rw [hsilent, Forecast.after_nil]
  -- Steps that a calm tick does not have.
  | switch _ _ hcommand | seekSetting _ _ hcommand => simp [hcalm.commands] at hcommand
  | halt | endScheduler | endTick => exact absurd rfl hafter
  | seekShutdown hphase | beginTick hphase => simp [hphase, SchedulerPhase.tick?] at hbefore
  | defer hvisits hdue hfailure hrest => simp [hcalm.rested] at hrest
  | giveUp _ hclosing => simp [hcalm.notClosing] at hclosing
  -- Steps after which as much is to come as before.
  | @applied interrupted level nextTick hphase =>
      cases interrupted with
      | none => simp [hphase, SchedulerPhase.tick?] at hbefore
      | some tick =>
          rw [hsilent, Forecast.after_nil]
          simp only [Conditions.forecast, hphase]
          rfl
  | seekLink hphase | poll hphase | deliver hphase =>
      rw [hsilent, Forecast.after_nil]
      simp only [Conditions.forecast, hphase]
  | clear hvisits hdue hfailure =>
      rw [hsilent, Forecast.after_nil]
      simp only [Conditions.forecast, hvisits.phase]
      exact Conditions.rest_of_due hvisits.found hvisits.enabled hdue hfailure
  -- Visits and answers.
  | notDue hvisits hdue =>
      rw [hsilent, Forecast.after_nil]
      exact hvisits.forecast_eq (by simp [Conditions.visit, Connection.conditions, hdue])
  | skip hvisits hdue hfailure =>
      rw [hsilent, Forecast.after_nil]
      exact hvisits.forecast_eq
        (by simp [Conditions.visit, Connection.conditions, hdue, hfailure])
  | read hhears =>
      rw [hsilent, Forecast.after_nil, hhears.forecast_eq hreplied rfl _]
      rfl
  | @fail _ tick group error fresh hhears hcounts =>
      have hreport : group.report c.codec tick.instant tick.next (.error error) =
          ⟨tick.next, .failed error, group.recordFailure tick.instant, []⟩ := by
        simp [PollGroup.report, hcounts]
      rw [SchedulerPhase.tagged_eq_nil _ (filterMap_sample?_map (fun _ => rfl) fresh),
        hhears.forecast_eq hreplied hreport (tick.reported ++ fresh)]
      rfl
  | abort hhears hending =>
      rw [hsilent, Forecast.after_nil]
      exact Conditions.forecast_of_abort hhears hreplied hending
  -- Publications.
  | sample hphase hremaining hvalue =>
      rw [Conditions.forecast_of_sample c.now hphase hremaining hvalue, hphase]
      rfl
  | pass hphase hremaining herror =>
      rw [hsilent, Forecast.after_nil]
      exact Conditions.forecast_of_pass hphase hremaining herror
  | conclude hphase hremaining =>
      rw [SchedulerPhase.tagged_eq_nil _ (filterMap_sample?_map (fun _ => rfl) _),
        Forecast.after_nil]
      exact Conditions.forecast_of_conclude hphase hremaining

/-- At the end of a calm tick nothing is to come. -/
theorem SchedulerStep.forecast_of_tickEnds {outcomes : List (Nat × PollOutcome)}
    (hstep : SchedulerStep c action shown next) (hcalm : c.Calm)
    (hends : .tickEnds outcomes ∈ shown) :
    (c.conditions replies).forecast c.scheduler =
      ⟨next.groups, outcomes, c.scheduler.phase.tagged shown⟩ := by
  cases hstep with
  | @endTick tick nextTick hphase hlast =>
      obtain rfl := Event.tickEnds.inj (List.mem_singleton.mp hends)
      rw [SchedulerPhase.tagged_eq_nil _ rfl]
      rcases hphase with hphase | ⟨hphase, hnone⟩
      · simp only [Conditions.forecast, hphase]
        rcases hlast with hnone | hdisabled | hclosing
        · exact Conditions.rest_of_none hnone
        · simp [Conditions.rest, Conditions.following, hdisabled, Forecast.ofReports]
        · simp [hcalm.notClosing] at hclosing
      · have hnone : c.scheduler.groups[tick.next]? = none := hnone
        simp [Conditions.forecast, hphase, Conditions.reading, hnone, Forecast.ofReports]
  | fail | conclude => simp at hends
  | sample | endScheduler => simp at hends
  | keep | switch | seekSetting | applied | halt | seekShutdown | beginTick | notDue | skip | defer
  | clear | seekLink | giveUp | poll | read | abort | pass | deliver => simp at hends

/-! ## Calm ticks -/

namespace Connection

/-- How an open of the transport ends with an action. -/
def openEnd? (action : Action) (c : Connection) : Option (Except RequestError Unit) :=
  match c.transaction with
  | some ⟨_, .opening _⟩ => action.openResult?
  | _ => none

/-- The reply to a read of the scheduler that comes with an action, with the place of the group. -/
def reply? (action : Action) (c : Connection) : Option (Nat × Except RequestError Response) :=
  match c.scheduler.phase, c.transaction with
  | .polling tick, some ⟨_, .exchanging _⟩ => action.exchangeResult?.map (tick.next, ·)
  | _, _ => none

end Connection

/-- A step inside a calm tick, with the given replies and a transport that opens. -/
structure Transition.Undisturbed (replies : Nat → Except RequestError Response)
    (transition : Transition) : Prop where
  calm : transition.before.Calm
  within : transition.before.scheduler.phase.tick? ≠ none
  opens : ∀ result ∈ transition.before.openEnd? transition.action, result = .ok ()
  replied : ∀ reply ∈ transition.before.reply? transition.action, reply.2 = replies reply.1

/-- The samples of a step, each with the place of the group that is visited. -/
def Transition.samples (transition : Transition) : List (Nat × PointSample) :=
  transition.before.scheduler.phase.tagged transition.events

/-- A tick, from its beginning to its end. -/
structure TickRun where
  path : List Transition
  final : Connection
  outcomes : List (Nat × PollOutcome)

/-- The samples of a tick in their order, each with the place of its group. -/
def TickRun.samples (run : TickRun) : List (Nat × PointSample) :=
  run.path.flatMap Transition.samples

/-- A whole tick that is not disturbed, with the given replies to its reads.  The users of the
connection, the link and the clock take their steps in any order. -/
structure CalmTick (replies : Nat → Except RequestError Response) (start : Connection)
    (run : TickRun) : Prop where
  path : Connection.Path start run.path run.final
  begins : ∃ instant, start.scheduler.phase = .visiting { instant }
  undisturbed : ∀ transition ∈ run.path, transition.Undisturbed replies
  ends : ∃ last, run.path.getLast? = some last ∧ .tickEnds run.outcomes ∈ last.events

theorem Transition.Undisturbed.replied_before {transition : Transition}
    (hundisturbed : transition.Undisturbed replies) :
    transition.before.Replied transition.action replies := by
  intro tick group result hhears
  obtain ⟨stage, link, events, htransaction, hturn⟩ := hhears.turn
  rcases hturn.finished with ⟨since, failure, error, rfl, hopens, -⟩ |
    ⟨since, answer, rfl, hanswer, rfl⟩
  · have hopened := hundisturbed.opens (.error failure)
      (by simp [Connection.openEnd?, htransaction, hopens])
    simp at hopened
  · have hreply := hundisturbed.replied (tick.next, answer)
      (by simp [Connection.reply?, hhears.phase, htransaction, hanswer])
    rw [← hreply]

theorem SchedulerPhase.tagged_reports (phase : SchedulerPhase) (events : List Event) :
    phase.tagged (reports events) = phase.tagged events := by
  rw [tagged, tagged, sample?_reports]

namespace Connection

variable {start final : Connection} {path : List Transition}

theorem conditions_of_step {before after : Connection} {events : List Event}
    (horderly : before.traffic.Orderly) (hstep : before.step action = some (after, events)) :
    after.conditions replies = before.conditions replies := by
  have hmove := move_of_step horderly hstep
  have hsettings : after.settings = before.settings := hmove.settings_eq
  have hcodec : after.codec = before.codec := hmove.codec_eq
  rw [conditions, conditions, ceiling, ceiling, hsettings, hcodec]

/-- What a calm tick comes to is what it came to at its beginning. -/
theorem Path.forecast_eq {outcomes : List (Nat × PollOutcome)} (hpath : Path start path final)
    (horderly : start.traffic.Orderly)
    (hundisturbed : ∀ transition ∈ path, transition.Undisturbed replies)
    (hends : ∃ last, path.getLast? = some last ∧ .tickEnds outcomes ∈ last.events) :
    (start.conditions replies).forecast start.scheduler =
      ⟨final.scheduler.groups, outcomes, path.flatMap Transition.samples⟩ := by
  induction hpath with
  | nil => simp at hends
  | @cons before after final action events rest hstep hrest ih =>
      have hhere := hundisturbed _ List.mem_cons_self
      have hscheduler := scheduler_of_step horderly hstep
      rw [List.flatMap_cons, Transition.samples, ← SchedulerPhase.tagged_reports]
      cases rest with
      | nil =>
          obtain ⟨last, hlast, hmem⟩ := hends
          obtain rfl := Option.some.inj hlast
          have hreported : .tickEnds outcomes ∈ reports events := List.mem_filter.mpr ⟨hmem, rfl⟩
          rw [hscheduler.forecast_of_tickEnds hhere.calm hreported, hrest.eq_of_nil]
          simp
      | cons following later =>
          obtain ⟨hbefore, -, -⟩ := hrest.cons_inv
          have hafter := (hundisturbed following (by simp)).within
          rw [hbefore] at hafter
          have hrestends := ih ((move_of_step horderly hstep).orderly horderly)
            (fun transition hmem => hundisturbed transition (List.mem_cons_of_mem _ hmem))
            (by simpa using hends)
          rw [conditions_of_step horderly hstep] at hrestends
          rw [hscheduler.forecast_eq hhere.calm hhere.replied_before hhere.within hafter,
            hrestends]
          rfl

end Connection

end Fieldbus
