import Fieldbus.Proofs.Link.Evolution
import Fieldbus.Proofs.Run.Step

/-!
# The course of the scheduler

Everything that a step can do to the scheduler, with all that it reports of polls: samples, signs of
life of devices and the outcomes of a tick.  Calls and the link leave the scheduler alone, and the
record of a group changes only in a visit to it.
-/

namespace Fieldbus

/-- The event tells something of polls. -/
def Event.isReport : Event → Bool
  | sampled _ | deviceOnline _ | deviceOffline _ | tickEnds _ | schedulerEnds => true
  | transportOpens | exchangeStarts _ | transportCloses | linkChanges _ | callReturns _ _
  | noticed _ => false

def reports (events : List Event) : List Event := events.filter Event.isReport

theorem reports_append (events more : List Event) :
    reports (events ++ more) = reports events ++ reports more :=
  List.filter_append ..

theorem OfLink.reports_eq_nil {events : List Event} (hshown : OfLink events) :
    reports events = [] := by
  apply List.filter_eq_nil_iff.mpr
  intro event hevent
  have hlink := hshown event hevent
  cases event <;> simp [Event.isReport, Event.isOfLink] at hlink ⊢

theorem reports_noticed_cons (notice : Notice) (events : List Event) :
    reports (.noticed notice :: events) = reports events := rfl

theorem reports_map {A : Type} {event : A → Event} (hevent : ∀ item, (event item).isReport)
    (items : List A) : reports (items.map event) = items.map event := by
  apply List.filter_eq_self.mpr
  simpa using fun item _ => hevent item

/-- Why the transport cannot be opened. -/
def PollOutcome.openFailure? : PollOutcome → Option RequestError
  | failed error => if error.isOpenFailure then some error else none
  | notDue | deferred | polled => none

/-- A tick after the visit to its next group. -/
def Tick.concluded (outcome : PollOutcome) (tick : Tick) : Tick :=
  { tick with
    next := tick.next + 1
    openFailure := outcome.openFailure?.or tick.openFailure
    outcomes := tick.outcomes ++ [(tick.next, outcome)] }

/-- The scheduler takes commands between two ticks and between two visits. -/
def SchedulerPhase.attending : Option Tick → SchedulerPhase
  | none => .idle
  | some tick => .visiting tick

@[simp]
theorem SchedulerPhase.polling_ne_attending (tick : Tick) (interrupted : Option Tick) :
    polling tick ≠ attending interrupted := by
  cases interrupted <;> simp [attending]

@[simp]
theorem SchedulerPhase.publishing_ne_attending (tick : Tick) (publication : Publication)
    (interrupted : Option Tick) : publishing tick publication ≠ attending interrupted := by
  cases interrupted <;> simp [attending]

@[simp]
theorem SchedulerPhase.delivering_ne_attending (tick : Tick) (publication : Publication)
    (since : Instant) (interrupted : Option Tick) :
    delivering tick publication since ≠ attending interrupted := by
  cases interrupted <;> simp [attending]

/-- The rest of a publication after its first point. -/
def Publication.taken (publication : Publication) : Publication :=
  match publication.remaining with
  | [] => publication
  | point :: rest =>
    { publication with
      remaining := rest
      online :=
        if publication.online.contains point.device then publication.online
        else publication.online ++ [point.device] }

/-- Only the scheduler and the receiver of samples take these actions. -/
def Action.isScheduling : Action → Bool
  | receive | tick | run .scheduler | deliver => true
  | elapse _ | start _ _ | cancel _ | dropHandle | run (.call _) | openDone _ | exchangeDone _
  | expire => false

namespace Connection

theorem concludeVisit_eq (tick : Tick) (outcome : PollOutcome) (connection : Connection) :
    connection.concludeVisit tick outcome =
      connection.setPhase (.visiting (tick.concluded outcome)) := by
  cases outcome with
  | notDue | deferred | polled => rfl
  | failed error =>
      cases herror : error.isOpenFailure <;>
        simp [concludeVisit, Tick.concluded, PollOutcome.openFailure?, herror]

/-- The scheduler visits a group, with no command to take first. -/
structure Visits (connection : Connection) (tick : Tick) (group : PollGroup) : Prop where
  phase : connection.scheduler.phase = .visiting tick
  found : connection.group? tick.next = some group
  commands : connection.mailbox.commands = []
  attended : connection.isAbandoned = false
  enabled : connection.scheduler.enabled = true
  notClosing : connection.closing = false

/-- The transaction of a poll ends with this action. -/
structure Hears (connection : Connection) (action : Action) (tick : Tick) (group : PollGroup)
    (result : Except RequestError Response) : Prop where
  phase : connection.scheduler.phase = .polling tick
  found : connection.group? tick.next = some group
  turn : ∃ stage link events, connection.transaction = some ⟨.read group.readRequest, stage⟩ ∧
    connection.link.Turn connection.now ⟨.read group.readRequest, stage⟩ action
      (link, events, .finished result)

end Connection

/-- What a step makes of the scheduler, with its reports. -/
inductive SchedulerStep (c : Connection) : Action → List Event → Scheduler → Prop where
  /-- Somebody else takes a step, or the transaction of a poll goes on. -/
  | keep {action : Action} (haction : action.isScheduling = false)
      (hgoes : ∀ tick, c.scheduler.phase = .polling tick → c.traffic.verdict? action = none) :
      SchedulerStep c action [] c.scheduler
  -- Commands.
  | switch {action : Action} {interrupted : Option Tick} {enabled : Bool}
      {nextTick : Option Instant} (haction : action.isScheduling = true)
      (hphase : c.scheduler.phase = .attending interrupted)
      (hcommand : c.mailbox.commands.head? = some (.set (if enabled then .enable else .disable))) :
      SchedulerStep c action []
        { c.scheduler with enabled, nextTick, phase := .attending interrupted }
  | seekSetting {action : Action} {interrupted : Option Tick} {level : DecodeLevel}
      (haction : action.isScheduling = true)
      (hphase : c.scheduler.phase = .attending interrupted)
      (hcommand : c.mailbox.commands.head? = some (.set (.decode level))) :
      SchedulerStep c action []
        { c.scheduler with decode := level, phase := .applying level interrupted }
  | applied {interrupted : Option Tick} {level : DecodeLevel} {nextTick : Option Instant}
      (hphase : c.scheduler.phase = .applying level interrupted)
      (hheld : c.linkLock.holder = some .scheduler) :
      SchedulerStep c (.run .scheduler) []
        { c.scheduler with nextTick, phase := .attending interrupted }
  /-- Nobody posts a command any more, or the last one has been posted. -/
  | halt {action : Action} {interrupted : Option Tick} (haction : action.isScheduling = true)
      (hphase : c.scheduler.phase = .attending interrupted)
      (hcommand : c.mailbox.commands.head? = some .close ∨
        c.mailbox.commands = [] ∧ c.isAbandoned = true) :
      SchedulerStep c action [] { c.scheduler with phase := .stopping }
  | seekShutdown (hphase : c.scheduler.phase = .stopping) :
      SchedulerStep c (.run .scheduler) [] { c.scheduler with phase := .awaitingShutdown }
  | endScheduler (hphase : c.scheduler.phase = .awaitingShutdown)
      (hheld : c.linkLock.holder = some .scheduler) :
      SchedulerStep c (.run .scheduler) [.schedulerEnds] { c.scheduler with phase := .ended }
  -- Ticks.
  | beginTick {due : Instant} {nextTick : Option Instant} (hphase : c.scheduler.phase = .idle)
      (hdue : c.scheduler.nextTick = some due) (hnow : due ≤ c.now) :
      SchedulerStep c .tick []
        { c.scheduler with nextTick, phase := .visiting { instant := due } }
  | endTick {tick : Tick} {nextTick : Option Instant}
      (hphase : c.scheduler.phase = .visiting tick ∨
        c.scheduler.phase = .awaitingLink tick ∧ c.group? tick.next = none)
      (hends : c.group? tick.next = none ∨ c.scheduler.enabled = false ∨ c.closing = true) :
      SchedulerStep c (.run .scheduler) [.tickEnds tick.outcomes]
        { c.scheduler with nextTick, phase := .idle }
  -- Visits.
  | notDue {tick : Tick} {group : PollGroup} (hvisits : c.Visits tick group)
      (hdue : group.isDue tick.instant c.ceiling = false) :
      SchedulerStep c (.run .scheduler) []
        { c.scheduler with
          groups := c.scheduler.groups.set tick.next (group.asked c.ceiling)
          phase := .visiting (tick.concluded .notDue) }
  /-- The transport has failed to open in this tick. -/
  | skip {tick : Tick} {group : PollGroup} {error : RequestError} (hvisits : c.Visits tick group)
      (hdue : group.isDue tick.instant c.ceiling = true)
      (hfailure : tick.openFailure = some error) :
      SchedulerStep c (.run .scheduler) []
        { c.scheduler with
          groups := c.scheduler.groups.set tick.next
            ((group.asked c.ceiling).recordFailure tick.instant)
          phase := .visiting (tick.concluded (.failed error)) }
  | defer {tick : Tick} {group : PollGroup} (hvisits : c.Visits tick group)
      (hdue : group.isDue tick.instant c.ceiling = true) (hfailure : tick.openFailure = none)
      (hrest : c.trace.shouldDefer c.now c.settings.link.minInterval = true) :
      SchedulerStep c (.run .scheduler) []
        { c.scheduler with
          groups := c.scheduler.groups.set tick.next (group.asked c.ceiling)
          phase := .visiting (tick.concluded .deferred) }
  | clear {tick : Tick} {group : PollGroup} (hvisits : c.Visits tick group)
      (hdue : group.isDue tick.instant c.ceiling = true) (hfailure : tick.openFailure = none)
      (hrest : c.trace.shouldDefer c.now c.settings.link.minInterval = false) :
      SchedulerStep c (.run .scheduler) []
        { c.scheduler with
          groups := c.scheduler.groups.set tick.next (group.asked c.ceiling)
          phase := .requesting tick }
  -- Polls.
  | seekLink {tick : Tick} (hphase : c.scheduler.phase = .requesting tick)
      (hopen : c.closing = false) :
      SchedulerStep c (.run .scheduler) [] { c.scheduler with phase := .awaitingLink tick }
  | giveUp {tick : Tick}
      (hphase : c.scheduler.phase = .requesting tick ∨ c.scheduler.phase = .awaitingLink tick)
      (hclosing : c.closing = true) :
      SchedulerStep c (.run .scheduler) []
        { c.scheduler with phase := .visiting (tick.concluded (.failed .closed)) }
  | poll {tick : Tick} {group : PollGroup} (hphase : c.scheduler.phase = .awaitingLink tick)
      (hgroup : c.group? tick.next = some group) (hheld : c.linkLock.holder = some .scheduler)
      (hopen : c.closing = false) :
      SchedulerStep c (.run .scheduler) [] { c.scheduler with phase := .polling tick }
  | read {action : Action} {tick : Tick} {group : PollGroup} {response : Response}
      (hhears : c.Hears action tick group (.ok response)) :
      SchedulerStep c action []
        { c.scheduler with
          groups := c.scheduler.groups.set tick.next (group.recordSuccess tick.instant)
          phase := .publishing tick
            { start := group.range.start, response, remaining := group.points } }
  | fail {action : Action} {tick : Tick} {group : PollGroup} {error : RequestError}
      {fresh : List DeviceId} (hhears : c.Hears action tick group (.error error))
      (hcounts : error.isEnding = false)
      (hfresh : fresh = (c.suspects group error).filter (!tick.reported.contains ·)) :
      SchedulerStep c action (fresh.map .deviceOffline)
        { c.scheduler with
          groups := c.scheduler.groups.set tick.next (group.recordFailure tick.instant)
          phase := .visiting
            ({ tick with reported := tick.reported ++ fresh }.concluded (.failed error)) }
  /-- A link that closes counts neither as a success nor as a failure. -/
  | abort {action : Action} {tick : Tick} {group : PollGroup} {error : RequestError}
      (hhears : c.Hears action tick group (.error error)) (hending : error.isEnding = true) :
      SchedulerStep c action []
        { c.scheduler with phase := .visiting (tick.concluded (.failed error)) }
  -- Publications.
  | sample {tick : Tick} {publication : Publication} {point : Point} {rest : List Point}
      {value : PointValue} (hphase : c.scheduler.phase = .publishing tick publication)
      (hremaining : publication.remaining = point :: rest)
      (hvalue : c.decodePoint publication point = .ok value) :
      SchedulerStep c (.run .scheduler)
        [.sampled
          { device := point.device, point := point.name, rawType := point.rawType, value }]
        { c.scheduler with phase := .delivering tick publication c.now }
  | pass {tick : Tick} {publication : Publication} {point : Point} {rest : List Point}
      {error : DecodeError} (hphase : c.scheduler.phase = .publishing tick publication)
      (hremaining : publication.remaining = point :: rest)
      (herror : c.decodePoint publication point = .error error) :
      SchedulerStep c (.run .scheduler) []
        { c.scheduler with phase := .publishing tick { publication with remaining := rest } }
  | deliver {tick : Tick} {publication : Publication} {since : Instant}
      (hphase : c.scheduler.phase = .delivering tick publication since) :
      SchedulerStep c .deliver []
        { c.scheduler with phase := .publishing tick publication.taken }
  | conclude {tick : Tick} {publication : Publication}
      (hphase : c.scheduler.phase = .publishing tick publication)
      (hremaining : publication.remaining = []) :
      SchedulerStep c (.run .scheduler) (publication.online.map .deviceOnline)
        { c.scheduler with phase := .visiting (tick.concluded .polled) }

namespace Connection

variable {connection : Connection} {action : Action} {tick : Tick} {group : PollGroup}

/-! ## Calls -/

/-- What the steps of a write leave alone: the scheduler and the mailbox.  They say nothing of
polls either. -/
structure Spares (connection : Connection) (outcome : Connection × List Event) : Prop where
  scheduler : outcome.1.scheduler = connection.scheduler
  mailbox : outcome.1.mailbox = connection.mailbox
  silent : reports outcome.2 = []

theorem Spares.of_same {before : Connection} {outcome : Connection × List Event}
    (hspares : before.Spares outcome) (hscheduler : before.scheduler = connection.scheduler)
    (hmailbox : before.mailbox = connection.mailbox) : connection.Spares outcome :=
  ⟨hspares.scheduler.trans hscheduler, hspares.mailbox.trans hmailbox, hspares.silent⟩

theorem spares_attemptFailed (id : Nat) (job : WriteJob) (command : WriteCommand)
    (error : RequestError) (connection : Connection) :
    connection.Spares (connection.attemptFailed id job command error) := by
  rw [attemptFailed]
  split
  · exact ⟨rfl, rfl, rfl⟩
  · split <;> exact ⟨rfl, rfl, rfl⟩

theorem spares_storeEnded (id : Nat) (job : WriteJob) (command : WriteCommand)
    (result : Except RequestError Response) (connection : Connection) :
    connection.Spares (connection.storeEnded id job command result) := by
  cases result with
  | ok response => exact ⟨rfl, rfl, rfl⟩
  | error error =>
      exact (spares_attemptFailed id job command error connection.releaseLink).of_same rfl rfl

theorem spares_beginStore (id : Nat) (job : WriteJob) (command : WriteCommand)
    (values : WireValues) (connection : Connection) :
    connection.Spares (connection.beginStore id job command values) := by
  rcases connection.beginStore_cases id job command values with
    ⟨link, events, stage, hbegin, hresult⟩ | ⟨error, -, hresult⟩
  · rw [hresult]
    exact ⟨rfl, rfl, (Link.evolves_begin hbegin).ofLink.reports_eq_nil⟩
  · rw [hresult]
    exact (spares_attemptFailed id job command _ connection.releaseLink).of_same rfl rfl

theorem spares_readBackEnded (id : Nat) (job : WriteJob) (command : WriteCommand) (point : Point)
    (value : PointValue) (result : Except RequestError Response) (connection : Connection) :
    connection.Spares (connection.readBackEnded id job command point value result) := by
  have hfailed (error : RequestError) :
      connection.Spares (connection.releaseLink.attemptFailed id job command error) :=
    (spares_attemptFailed id job command error connection.releaseLink).of_same rfl rfl
  unfold readBackEnded
  split
  · split
    · exact spares_beginStore id job command _ connection
    · exact ⟨rfl, rfl, rfl⟩
  · exact hfailed _
  · exact hfailed _

theorem spares_callTransactionEnded (id : Nat) (request : Request)
    (result : Except RequestError Response) (connection : Connection) :
    connection.Spares (connection.callTransactionEnded id request result) := by
  rw [callTransactionEnded]
  split
  · split
    · exact ⟨rfl, rfl, rfl⟩
    · exact spares_storeEnded ..
    · split
      · exact spares_readBackEnded ..
      · exact spares_storeEnded ..
  · exact ⟨rfl, rfl, rfl⟩

theorem spares_beginAttempt (id : Nat) (job : WriteJob) (connection : Connection) :
    connection.Spares (connection.beginAttempt id job) := by
  rw [beginAttempt]
  split
  · exact ⟨rfl, rfl, rfl⟩
  · next command rest hjob =>
      dsimp only
      split
      · have hstore := spares_beginStore id job command command.values
          (connection.setCallPhase id (.transacting job))
        exact hstore.of_same rfl rfl
      · obtain ⟨link, events, stage, hbegin⟩ :=
          connection.link.begin_read connection.now command.readRequest
        have hbegins : (connection.setCallPhase id (.transacting job)).link.begin
            (connection.setCallPhase id (.transacting job)).now (.read command.readRequest) =
              (link, events, .waiting stage) := hbegin
        rw [hbegins]
        exact ⟨rfl, rfl, (Link.evolves_begin hbegin).ofLink.reports_eq_nil⟩

theorem startCall_scheduler (id : Nat) (request : CallRequest) (connection : Connection) :
    (connection.startCall id request).1.scheduler = connection.scheduler ∧
      reports (connection.startCall id request).2 = [] := by
  cases request with
  | write device writes =>
      rw [startCall]
      split <;> exact ⟨rfl, rfl⟩
  | set | close => exact ⟨rfl, rfl⟩

/-- Only a call that posts a command has to do with the mailbox. -/
theorem CallTurn.spares {id : Nat} {outcome : Connection × List Event}
    (hturn : connection.CallTurn id outcome)
    (hposts : ∀ command, Calls.phase? connection.calls id ≠ some (.posting command)) :
    connection.Spares outcome := by
  cases hturn with
  | endSetting hphase | postClose hphase => exact absurd hphase (hposts _)
  | shutdown =>
      refine ⟨rfl, rfl, ?_⟩
      rw [reports_append]
      exact congrArg (· ++ []) (Link.ofLink_shutdown connection.link).reports_eq_nil
  | attempt => exact spares_beginAttempt ..
  | seekShutdown | announce | enterSection | finish | seekLink | leaveLink | «return» =>
      exact ⟨rfl, rfl, rfl⟩

theorem CallTurn.scheduler_eq {id : Nat} {outcome : Connection × List Event}
    (hturn : connection.CallTurn id outcome) :
    outcome.1.scheduler = connection.scheduler ∧ reports outcome.2 = [] := by
  by_cases hposting : ∃ command, Calls.phase? connection.calls id = some (.posting command)
  · obtain ⟨command, hposts⟩ := hposting
    cases hturn with
    | endSetting | postClose => exact ⟨rfl, rfl⟩
    | seekShutdown hphase | shutdown hphase | announce hphase | enterSection hphase
    | finish hphase | seekLink hphase | leaveLink hphase | attempt hphase | «return» hphase =>
        simp [hphase] at hposts
  · have hspares := hturn.spares (by simpa using hposting)
    exact ⟨hspares.scheduler, hspares.silent⟩

/-! ## The scheduler -/

theorem resume_scheduler (interrupted : Option Tick) (connection : Connection) :
    ∃ nextTick, (connection.resume interrupted).scheduler =
      { connection.scheduler with nextTick, phase := .attending interrupted } := by
  cases interrupted <;> exact ⟨_, rfl⟩

theorem scheduler_setEnabled (enabled : Bool) (connection : Connection) :
    (connection.setEnabled enabled).1.scheduler = { connection.scheduler with enabled } ∧
      reports (connection.setEnabled enabled).2 = [] := by
  rw [setEnabled]
  split
  · next hsame =>
      subst hsame
      exact ⟨rfl, rfl⟩
  · exact ⟨rfl, rfl⟩

/-- A command that is taken switches polling, seeks the link or ends the scheduler. -/
theorem receive?_scheduler {interrupted : Option Tick} {outcome : Connection × List Event}
    (haction : action.isScheduling = true)
    (hphase : connection.scheduler.phase = .attending interrupted)
    (hreceive : connection.receive? interrupted = some outcome) :
    SchedulerStep connection action (reports outcome.2) outcome.1.scheduler := by
  simp only [receive?, Mailbox.take?] at hreceive
  cases hcommands : connection.mailbox.commands with
  | nil =>
      simp only [hcommands] at hreceive
      split at hreceive
      · next habandoned =>
          obtain rfl := Option.some.inj hreceive
          exact .halt haction hphase (.inr ⟨hcommands, habandoned⟩)
      · simp at hreceive
  | cons command rest =>
      simp only [hcommands] at hreceive
      obtain rfl := Option.some.inj hreceive
      have hhead : connection.mailbox.commands.head? = some command := by rw [hcommands]; rfl
      have hswitch (enabled : Bool) (posted : Connection)
          (hsame : posted.scheduler = connection.scheduler)
          (hcommand : command = .set (if enabled then .enable else .disable)) :
          SchedulerStep connection action (reports (posted.setEnabled enabled).2)
            ((posted.setEnabled enabled).1.resume interrupted).scheduler := by
        obtain ⟨nextTick, hresume⟩ :=
          resume_scheduler interrupted (posted.setEnabled enabled).1
        obtain ⟨hscheduler, hsilent⟩ := scheduler_setEnabled enabled posted
        rw [hresume, hscheduler, hsame, hsilent]
        exact .switch haction hphase (hcommand ▸ hhead)
      cases command with
      | set setting =>
          cases setting with
          | enable => exact hswitch true _ rfl rfl
          | disable => exact hswitch false _ rfl rfl
          | decode level => exact .seekSetting haction hphase hhead
      | close => exact .halt haction hphase (.inl hhead)

theorem receive?_eq_none {interrupted : Option Tick}
    (hnothing : connection.receive? interrupted = none) :
    connection.mailbox.commands = [] ∧ connection.isAbandoned = false := by
  simp only [receive?, Mailbox.take?] at hnothing
  cases hcommands : connection.mailbox.commands with
  | nil => simpa [hcommands] using hnothing
  | cons command rest => simp [hcommands] at hnothing

theorem setGroup_setGroup (first second : PollGroup) (index : Nat) (connection : Connection) :
    (connection.setGroup first index).setGroup second index =
      connection.setGroup second index := by
  simp only [setGroup, List.set_set]

theorem reports_visitGroup (tick : Tick) (group : PollGroup) (connection : Connection) :
    reports (connection.visitGroup tick group).2 = [] := by
  have hsilent : reports (connection.askDue tick group).2.2.2 = [] := by
    rw [askDue]
    dsimp only
    split <;> rfl
  rw [visitGroup]
  dsimp only
  split
  · exact hsilent
  · split
    · exact hsilent
    · split
      · rw [reports_append, hsilent]
        rfl
      · exact hsilent

/-- A group that is not due, that is skipped, that is deferred or that is cleared for a poll. -/
theorem visitGroup_scheduler (hvisits : connection.Visits tick group) :
    SchedulerStep connection (.run .scheduler) (reports (connection.visitGroup tick group).2)
      (connection.visitGroup tick group).1.scheduler := by
  rw [reports_visitGroup, visitGroup]
  dsimp only
  split
  · next hdue =>
      rw [concludeVisit_eq]
      exact .notDue hvisits (by simpa [askDue] using hdue)
  · next hdue =>
      have hdue : group.isDue tick.instant connection.ceiling = true := by
        simpa [askDue] using hdue
      split
      · next error hfailure =>
          rw [concludeVisit_eq, askDue, setGroup_setGroup]
          exact .skip hvisits hdue hfailure
      · next hfailure =>
          split
          · next hrest =>
              rw [concludeVisit_eq]
              exact .defer hvisits hdue hfailure hrest
          · next hrest => exact .clear hvisits hdue hfailure ((Bool.not_eq_true _).mp hrest)

theorem Visits.step_eq (hvisits : connection.Visits tick group) :
    connection.step (.run .scheduler) = some (connection.visitGroup tick group) := by
  simp [step, runScheduler?, visit, hvisits.phase, hvisits.found, receive?, Mailbox.take?,
    hvisits.commands, hvisits.attended, hvisits.enabled, hvisits.notClosing]

theorem visit_scheduler (hphase : connection.scheduler.phase = .visiting tick) :
    SchedulerStep connection (.run .scheduler) (reports (connection.visit tick).2)
      (connection.visit tick).1.scheduler := by
  rw [visit]
  split
  · next hnone => exact .endTick (.inl hphase) (.inl hnone)
  · next group hgroup =>
      split
      · next outcome hreceive =>
          have hattending : connection.scheduler.phase = .attending (some tick) := hphase
          exact receive?_scheduler rfl hattending hreceive
      · next hnothing =>
          split
          · next hends =>
              refine .endTick (.inl hphase) (.inr ?_)
              simpa using hends
          · next hgoes =>
              simp only [Bool.or_eq_true, Bool.not_eq_true', not_or, Bool.not_eq_true] at hgoes
              obtain ⟨hcommands, hattended⟩ := receive?_eq_none hnothing
              exact visitGroup_scheduler
                ⟨hphase, hgroup, hcommands, hattended, by simpa using hgoes.1, hgoes.2⟩

theorem publish_scheduler {publication : Publication}
    (hphase : connection.scheduler.phase = .publishing tick publication) :
    SchedulerStep connection (.run .scheduler) (reports (connection.publish tick publication).2)
      (connection.publish tick publication).1.scheduler := by
  rw [publish]
  split
  · next hremaining =>
      rw [reports_map (fun _ => rfl), concludeVisit_eq]
      exact .conclude hphase hremaining
  · next point rest hremaining =>
      split
      · next value hvalue =>
          rw [reports_append]
          have hsilent : reports (if connection.scheduler.decode.app.showsValues then
              [.noticed (.decoded point value)] else []) = [] := by
            split <;> rfl
          rw [hsilent]
          exact .sample hphase hremaining hvalue
      · next error herror => exact .pass hphase hremaining herror

theorem delivered_scheduler (tick : Tick) (publication : Publication) (connection : Connection) :
    (connection.delivered tick publication).scheduler =
      { connection.scheduler with phase := .publishing tick publication.taken } := by
  obtain ⟨start, response, remaining, online⟩ := publication
  cases remaining <;> rfl

theorem beginPoll_scheduler (hphase : connection.scheduler.phase = .awaitingLink tick)
    (hheld : connection.linkLock.holder = some .scheduler)
    (hopen : connection.closing = false) :
    SchedulerStep connection (.run .scheduler) (reports (connection.beginPoll tick).2)
      (connection.beginPoll tick).1.scheduler := by
  rw [beginPoll]
  split
  · next hnone => exact .endTick (.inr ⟨hphase, hnone⟩) (.inl hnone)
  · next group hgroup =>
      obtain ⟨link, events, stage, hbegin⟩ :=
        connection.link.begin_read connection.now group.readRequest
      have hsilent : reports events = [] := (Link.evolves_begin hbegin).ofLink.reports_eq_nil
      simp only [proceed, hbegin, hsilent]
      exact .poll hphase hgroup hheld hopen

theorem SchedulerTurn.scheduler_step {outcome : Connection × List Event}
    (hturn : connection.SchedulerTurn outcome) :
    SchedulerStep connection (.run .scheduler) (reports outcome.2) outcome.1.scheduler := by
  cases hturn with
  | visit hphase => exact visit_scheduler hphase
  | seekLink hphase hopen => exact .seekLink hphase hopen
  | giveUp hphase hclosing =>
      rw [concludeVisit_eq]
      exact .giveUp (.inl hphase) hclosing
  | leaveLink hphase hheld hclosing =>
      rw [concludeVisit_eq]
      exact .giveUp (.inr hphase) hclosing
  | poll hphase hheld hopen => exact beginPoll_scheduler hphase hheld hopen
  | publish hphase => exact publish_scheduler hphase
  | @apply level interrupted hphase hheld =>
      obtain ⟨nextTick, hresume⟩ := resume_scheduler interrupted
        ({ connection with link := { connection.link with decode := level } } :
          Connection).releaseLink
      rw [hresume]
      exact .applied hphase hheld
  | seekShutdown hphase => exact .seekShutdown hphase
  | shutdown hphase hheld =>
      have hsilent : reports connection.link.shutdown.2 = [] :=
        (Link.ofLink_shutdown connection.link).reports_eq_nil
      simp only [endScheduler, shutdownLink, reports_append, hsilent]
      exact .endScheduler hphase hheld

/-- What the answer to a poll makes of the scheduler. -/
theorem pollEnded_scheduler {result : Except RequestError Response} {link : Link}
    (hhears : connection.Hears action tick group result) :
    SchedulerStep connection action
      (reports ({ connection with link, transaction := none }.pollEnded tick result).2)
      ({ connection with link, transaction := none }.pollEnded tick result).1.scheduler := by
  have hfound : (({ connection with link, transaction := none } : Connection).releaseLink).group?
      tick.next = some group := hhears.found
  simp only [pollEnded, hfound]
  cases result with
  | ok response => exact .read hhears
  | error error =>
      dsimp only
      split
      · next hending =>
          rw [concludeVisit_eq]
          exact .abort hhears hending
      · next hcounts =>
          rw [pollFailed]
          dsimp only
          rw [concludeVisit_eq]
          rw [reports_noticed_cons, reports_map (fun _ => rfl)]
          exact .fail hhears ((Bool.not_eq_true _).mp hcounts) rfl

/-- A transaction goes on without the scheduler, or it is a poll that ends. -/
theorem proceed_scheduler {transaction : Transaction} {turned : Link × List Event × Progress}
    (horderly : connection.traffic.Orderly) (haction : action.isAnswer = true)
    (htransaction : connection.transaction = some transaction)
    (hturn : connection.link.Turn connection.now transaction action turned) :
    SchedulerStep connection action (reports (connection.proceed transaction.request turned).2)
      (connection.proceed transaction.request turned).1.scheduler := by
  obtain ⟨link, events, progress⟩ := turned
  have hsilent : reports events = [] := hturn.evolves.ofLink.reports_eq_nil
  have hkeep : action.isScheduling = false := by
    cases action <;> first | rfl | simp [Action.isAnswer] at haction
  cases progress with
  | waiting stage =>
      simp only [proceed, hsilent]
      exact .keep hkeep fun _ _ =>
        Traffic.verdict?_of_stage (c := connection.traffic) htransaction hturn.not_exchanging action
  | finished result =>
      obtain ⟨actor, -, hheld⟩ := horderly.exists_inside htransaction
      have hholder : connection.linkLock.holder = some actor := hheld
      simp only [proceed, transactionEnded, hholder]
      cases actor with
      | call id =>
          have hspares := spares_callTransactionEnded id transaction.request result
            { connection with link, transaction := none }
          rw [reports_append, hsilent, hspares.scheduler, hspares.silent]
          refine .keep hkeep fun tick hphase => ?_
          have hpolling : connection.traffic.phase = .polling tick := hphase
          have hinside :=
            horderly.link.holder_of_inside .scheduler (Traffic.stance_polling hpolling)
          simp [hheld] at hinside
      | scheduler =>
          obtain ⟨tick, hphase⟩ := horderly.polling_of_held htransaction hheld
          have hpolling : connection.scheduler.phase = .polling tick := hphase
          obtain ⟨read, hread, hrequest⟩ := (horderly.errand _ htransaction).1 tick hphase
          obtain ⟨group, hgroup, rfl⟩ := Option.map_eq_some_iff.mp hread
          obtain ⟨request, stage⟩ := transaction
          obtain rfl : request = .read group.readRequest := hrequest
          simp only [hpolling]
          rw [reports_append, hsilent, List.nil_append]
          exact pollEnded_scheduler ⟨hpolling, hgroup, stage, link, events, htransaction, hturn⟩

/-- In good order every step makes one of the listed things of the scheduler. -/
theorem scheduler_of_step {after : Connection} {events : List Event}
    (horderly : connection.traffic.Orderly)
    (hstep : connection.step action = some (after, events)) :
    SchedulerStep connection action (reports events) after.scheduler := by
  have hkeep {kind : Action} (haction : kind.isScheduling = false)
      (hsilent : kind.isAnswer = false) :
      SchedulerStep connection kind [] connection.scheduler :=
    .keep haction fun _ _ => Traffic.verdict?_eq_none hsilent connection.traffic
  generalize houtcome : (after, events) = outcome at hstep
  suffices hnext : SchedulerStep connection action (reports outcome.2) outcome.1.scheduler by
    rwa [← houtcome] at hnext
  cases turn_of_step hstep with
  | elapse | cancel | dropHandle => exact hkeep rfl rfl
  | @start id request =>
      obtain ⟨hscheduler, hquiet⟩ := startCall_scheduler id request connection
      rw [hscheduler, hquiet]
      exact hkeep rfl rfl
  | receive hidle hreceive =>
      have hphase : connection.scheduler.phase = .attending none := hidle
      exact receive?_scheduler rfl hphase hreceive
  | tick hidle hdue hnow => exact .beginTick hidle hdue hnow
  | scheduler hturn => exact hturn.scheduler_step
  | call hturn =>
      obtain ⟨hscheduler, hquiet⟩ := hturn.scheduler_eq
      rw [hscheduler, hquiet]
      exact hkeep rfl rfl
  | answer haction htransaction hturn =>
      exact proceed_scheduler horderly haction htransaction hturn
  | deliver hphase =>
      rw [delivered_scheduler]
      exact .deliver hphase

theorem Path.scheduler_step {start final : Connection} {earlier later : List Transition}
    {transition : Transition} (hpath : Path start (earlier ++ transition :: later) final)
    (horderly : start.traffic.Orderly) :
    SchedulerStep transition.before transition.action (reports transition.events)
      transition.after.scheduler := by
  obtain ⟨hearlier, hstep, -⟩ := hpath.split
  exact scheduler_of_step (hearlier.orderly horderly) hstep

/-- The same connection with other groups. -/
def withGroups (groups : List PollGroup) (connection : Connection) : Connection :=
  { connection with scheduler := { connection.scheduler with groups } }

/-- Only a poll under way depends on the groups. -/
theorem orderly_withGroups (groups : List PollGroup) (horderly : connection.traffic.Orderly)
    (hfree : connection.transaction = none) :
    (connection.withGroups groups).traffic.Orderly where
  distinct := horderly.distinct
  pending_eq := horderly.pending_eq
  link := horderly.link
  writes := horderly.writes
  busy := horderly.busy
  errand transaction htransaction := by simp [traffic, withGroups, hfree] at htransaction
  warned := horderly.warned

end Connection

end Fieldbus
