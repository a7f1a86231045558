import Fieldbus.Proofs.Run.Order
import Fieldbus.Proofs.Run.Path
import Fieldbus.Proofs.Run.Turns

/-!
# Every step is a move

Whatever action a connection in good order takes, its traffic makes one of the listed moves, and so
the order holds at the end of every path from a new connection.
-/

namespace Fieldbus

/-- A transaction that does not begin to wait is one with an invalid request. -/
theorem Link.begin_cases (now : Instant) (request : Request) (link : Link) :
    (∃ error, request.validate = .error error ∧
        link.begin now request = (link, [], .finished (.error (.badRequest error)))) ∨
      ∃ after events stage, link.begin now request = (after, events, .waiting stage) := by
  unfold Link.begin
  cases hvalid : request.validate with
  | error error => exact .inl ⟨error, rfl, rfl⟩
  | ok _ =>
      refine .inr ?_
      dsimp only
      split
      · unfold Link.space
        split
        · split <;> exact ⟨_, _, _, rfl⟩
        · exact ⟨_, _, _, rfl⟩
      · exact ⟨_, _, _, rfl⟩

theorem Link.begin_read (now : Instant) (read : ReadRequest) (link : Link) :
    ∃ after events stage, link.begin now (.read read) = (after, events, .waiting stage) := by
  rcases link.begin_cases now (.read read) with ⟨error, hinvalid, -⟩ | hwaiting
  · simp [Request.validate] at hinvalid
  · exact hwaiting

namespace Connection

variable {connection : Connection} {action : Action} {tick : Tick}

/-! ## The scheduler -/

/-- The scheduler goes on and leaves the rest of the traffic as it is. -/
def Strolls (connection : Connection) (outcome : Connection × List Event) : Prop :=
  ∃ next : SchedulerPhase, next.isFree = true ∧
    outcome.1.traffic = { connection.traffic with phase := next } ∧ Quiet outcome.2

theorem Strolls.move {outcome : Connection × List Event} (hstrolls : connection.Strolls outcome)
    (haction : action.isInternal = true)
    (hphase : connection.scheduler.phase.linkStance = .away) :
    Move connection.traffic action outcome.2 outcome.1.traffic := by
  obtain ⟨next, hnext, htraffic, hquiet⟩ := hstrolls
  rw [htraffic]
  exact .stroll haction hphase hnext hquiet

theorem strolls_setPhase {next : SchedulerPhase} {events : List Event} (hnext : next.isFree)
    (hquiet : Quiet events) : connection.Strolls (connection.setPhase next, events) :=
  ⟨next, hnext, rfl, hquiet⟩

theorem strolls_rest {events : List Event} (hquiet : Quiet events) :
    connection.Strolls (connection.rest, events) :=
  ⟨.idle, rfl, rfl, hquiet⟩

theorem strolls_resume (interrupted : Option Tick) {events : List Event}
    (hquiet : Quiet events) : connection.Strolls (connection.resume interrupted, events) := by
  cases interrupted with
  | none => exact strolls_rest hquiet
  | some tick => exact strolls_setPhase rfl hquiet

theorem strolls_endTick (tick : Tick) : connection.Strolls (connection.endTick tick) :=
  strolls_rest (by simp [Quiet, Event.isQuiet])

theorem strolls_concludeVisit (tick : Tick) (outcome : PollOutcome) {events : List Event}
    (hquiet : Quiet events) :
    connection.Strolls (connection.concludeVisit tick outcome, events) :=
  strolls_setPhase rfl hquiet

/-- Only the traffic before the stroll counts. -/
theorem Strolls.of_traffic_eq {other : Connection} {outcome : Connection × List Event}
    (hstrolls : other.Strolls outcome) (hsame : other.traffic = connection.traffic) :
    connection.Strolls outcome := by
  obtain ⟨next, hnext, htraffic, hquiet⟩ := hstrolls
  exact ⟨next, hnext, hsame ▸ htraffic, hquiet⟩

/-- The record of a group's polls is no part of the traffic. -/
theorem traffic_setGroup {old group : PollGroup} {index : Nat}
    (hold : connection.group? index = some old) (hread : group.readRequest = old.readRequest) :
    (connection.setGroup group index).traffic = connection.traffic := by
  have hreads : (connection.setGroup group index).traffic.reads = connection.traffic.reads := by
    funext other
    simp only [traffic, group?, setGroup, List.getElem?_set]
    by_cases hother : index = other
    · obtain ⟨hindex, hgroup⟩ := List.getElem?_eq_some_iff.mp hold
      simp [← hother, hindex, hread, hgroup]
    · simp [hother]
  have hrest : (connection.setGroup group index).traffic =
      { connection.traffic with reads := (connection.setGroup group index).traffic.reads } := rfl
  rw [hrest, hreads]

theorem group?_setGroup {old : PollGroup} {index : Nat}
    (hold : connection.group? index = some old) (group : PollGroup) :
    (connection.setGroup group index).group? index = some group := by
  obtain ⟨hindex, -⟩ := List.getElem?_eq_some_iff.mp hold
  simp [group?, setGroup, hindex]

theorem readRequest_asked (ceiling : Nanoseconds) (group : PollGroup) :
    (group.asked ceiling).readRequest = group.readRequest := by
  rw [PollGroup.asked]
  split <;> rfl

theorem setEnabled_traffic (enabled : Bool) (connection : Connection) :
    (connection.setEnabled enabled).1.traffic = connection.traffic ∧
      Quiet (connection.setEnabled enabled).2 := by
  unfold setEnabled
  split
  · exact ⟨rfl, .nil⟩
  · exact ⟨rfl, .noticed _⟩

theorem obey_move (connection : Connection) (command : Command) (interrupted : Option Tick)
    (haction : action.isInternal = true) (hphase : connection.scheduler.phase.isFree) :
    Move connection.traffic action (connection.obey command interrupted).2
      (connection.obey command interrupted).1.traffic := by
  have haway := SchedulerPhase.linkStance_of_isFree hphase
  have hswitch : ∀ enabled, connection.Strolls
      ((connection.setEnabled enabled).1.resume interrupted, (connection.setEnabled enabled).2) :=
    fun enabled =>
      have htraffic := setEnabled_traffic enabled connection
      (strolls_resume interrupted htraffic.2).of_traffic_eq htraffic.1
  cases command with
  | set setting =>
      cases setting with
      | enable => exact (hswitch true).move haction haway
      | disable => exact (hswitch false).move haction haway
      | decode level => exact .seekSetting haction hphase
  | close => exact (strolls_setPhase rfl .nil).move haction haway

theorem receive?_move {interrupted : Option Tick} {outcome : Connection × List Event}
    (haction : action.isInternal = true) (hphase : connection.scheduler.phase.isFree)
    (hreceive : connection.receive? interrupted = some outcome) :
    Move connection.traffic action outcome.2 outcome.1.traffic := by
  unfold receive? at hreceive
  split at hreceive
  · next command mailbox _ =>
      obtain rfl := Option.some.inj hreceive
      exact obey_move { connection with mailbox } command interrupted haction hphase
  · split at hreceive
    · obtain rfl := Option.some.inj hreceive
      have haway := SchedulerPhase.linkStance_of_isFree hphase
      exact (strolls_setPhase rfl .nil).move haction haway
    · simp at hreceive

theorem visitGroup_move {group : PollGroup} (hgroup : connection.group? tick.next = some group)
    (hphase : connection.scheduler.phase = .visiting tick) (hopen : connection.closing = false) :
    Move connection.traffic (.run .scheduler) (connection.visitGroup tick group).2
      (connection.visitGroup tick group).1.traffic := by
  have haway : connection.scheduler.phase.linkStance = .away := by rw [hphase]; rfl
  simp only [visitGroup, askDue]
  generalize hevents : (if group.forgets connection.ceiling then
    [Event.noticed (.backoffOverflow group.index group.failures)] else []) = events
  have hquiet : Quiet events := by
    rw [← hevents]
    split
    · exact .noticed _
    · exact .nil
  have hasked := traffic_setGroup hgroup (readRequest_asked connection.ceiling group)
  by_cases hdue : group.isDue tick.instant connection.ceiling = true
  · simp only [hdue, Bool.not_true, Bool.false_eq_true, if_false]
    cases hfailure : tick.openFailure with
    | some error =>
        have hrecorded := traffic_setGroup
          (group?_setGroup hgroup (group.asked connection.ceiling))
          (show ((group.asked connection.ceiling).recordFailure tick.instant).readRequest =
            (group.asked connection.ceiling).readRequest from rfl)
        exact ((strolls_concludeVisit tick (.failed error) hquiet).of_traffic_eq
          (hrecorded.trans hasked)).move rfl haway
    | none =>
        by_cases hdefer : connection.trace.shouldDefer connection.now
            connection.settings.link.minInterval = true
        · have hstrolls := @strolls_concludeVisit
            (connection.setGroup (group.asked connection.ceiling) tick.next) tick .deferred _
            (hquiet.append (.noticed (.deferred (group.asked connection.ceiling).index)))
          have hmove := (hstrolls.of_traffic_eq hasked).move
            (show (Action.run .scheduler).isInternal = true from rfl) haway
          simp only [setGroup, hdefer, if_true] at hmove ⊢
          exact hmove
        · have hmove := Move.clear (c := connection.traffic) hphase hopen
            ((Bool.not_eq_true _).mp hdefer) hquiet
          rw [← hasked] at hmove ⊢
          simp only [setGroup, hdefer]
          exact hmove
  · simp only [hdue, Bool.not_false, if_true]
    exact ((strolls_concludeVisit tick .notDue hquiet).of_traffic_eq hasked).move rfl haway

theorem visit_move (hphase : connection.scheduler.phase = .visiting tick) :
    Move connection.traffic (.run .scheduler) (connection.visit tick).2
      (connection.visit tick).1.traffic := by
  have haway : connection.scheduler.phase.linkStance = .away := by rw [hphase]; rfl
  unfold visit
  split
  · exact (strolls_endTick tick).move rfl haway
  · next group hgroup =>
      split
      · next outcome hreceive =>
          exact receive?_move rfl (by rw [hphase]; rfl) hreceive
      · split
        · exact (strolls_endTick tick).move rfl haway
        · next hgoes =>
            have hopen : connection.closing = false := by
              cases hclosing : connection.closing <;> simp_all
            exact visitGroup_move hgroup hphase hopen

theorem publish_strolls (publication : Publication) :
    connection.Strolls (connection.publish tick publication) := by
  unfold publish
  split
  · refine strolls_concludeVisit tick .polled fun event hevent => ?_
    obtain ⟨device, _, rfl⟩ := List.mem_map.mp hevent
    rfl
  · split
    · refine ⟨.delivering tick publication connection.now, rfl, rfl, ?_⟩
      split <;> simp [Quiet, Event.isQuiet]
    · exact strolls_setPhase rfl (.noticed _)

theorem delivered_strolls (publication : Publication) :
    connection.Strolls (connection.delivered tick publication, []) := by
  unfold delivered
  split <;> exact strolls_setPhase rfl .nil

/-- The scheduler gives the link back, perhaps with another decode level, and goes on. -/
theorem Strolls.move_of_release {other : Connection} {outcome : Connection × List Event}
    {level : DecodeLevel} (hstrolls : other.Strolls outcome)
    (hother : other.traffic = { connection.traffic with
      linkLock := connection.linkLock.release, link := { connection.link with decode := level } })
    (hqueued : connection.scheduler.phase.linkStance = .queued)
    (hheld : connection.linkLock.holder = some .scheduler) :
    Move connection.traffic (.run .scheduler) outcome.2 outcome.1.traffic := by
  obtain ⟨next, hnext, htraffic, hquiet⟩ := hstrolls
  rw [htraffic, hother]
  exact .leaveLink hqueued hheld hnext hquiet

theorem beginPoll_move (hphase : connection.scheduler.phase = .awaitingLink tick)
    (hheld : connection.linkLock.holder = some .scheduler) (hopen : connection.closing = false) :
    Move connection.traffic (.run .scheduler) (connection.beginPoll tick).2
      (connection.beginPoll tick).1.traffic := by
  have hqueued : connection.scheduler.phase.linkStance = .queued := by rw [hphase]; rfl
  unfold beginPoll
  split
  · exact (strolls_endTick tick).move_of_release rfl hqueued hheld
  · next group hgroup =>
      obtain ⟨link, events, stage, hbegin⟩ :=
        connection.link.begin_read connection.now group.readRequest
      have hread : connection.traffic.reads tick.next = some group.readRequest := by
        simp [traffic, hgroup]
      simp only [proceed, hbegin]
      exact .poll hphase hheld hopen hread hbegin

theorem SchedulerTurn.move {outcome : Connection × List Event}
    (hturn : connection.SchedulerTurn outcome) :
    Move connection.traffic (.run .scheduler) outcome.2 outcome.1.traffic := by
  have hstance {phase : SchedulerPhase} (hphase : connection.scheduler.phase = phase) :
      connection.scheduler.phase.linkStance = phase.linkStance :=
    congrArg SchedulerPhase.linkStance hphase
  cases hturn with
  | visit hphase => exact visit_move hphase
  | seekLink hphase hopen => exact .seekLink hphase hopen
  | giveUp hphase => exact (strolls_concludeVisit _ _ .nil).move rfl (hstance hphase)
  | leaveLink hphase hheld =>
      exact (strolls_concludeVisit _ _ .nil).move_of_release rfl (hstance hphase) hheld
  | poll hphase hheld hopen => exact beginPoll_move hphase hheld hopen
  | publish hphase => exact (publish_strolls _).move rfl (hstance hphase)
  | apply hphase hheld =>
      exact (strolls_resume _ .nil).move_of_release rfl (hstance hphase) hheld
  | seekShutdown hphase => exact .seekShutdown hphase
  | shutdown hphase hheld =>
      exact .endScheduler hphase hheld (by simp [Quiet, Event.isQuiet])

/-! ## Calls -/

theorem startCall_move {id : Nat} (request : CallRequest)
    (hnew : Calls.phase? connection.calls id = none) :
    Move connection.traffic (.start id request) (connection.startCall id request).2
      (connection.startCall id request).1.traffic := by
  cases request with
  | write device writes =>
      simp only [startCall]
      cases hprepare : connection.prepareWrite device writes with
      | error error => exact .refuse hnew
      | ok commands =>
          simp only [prepareWrite] at hprepare
          split at hprepare
          · simp at hprepare
          · next hwrites =>
              split at hprepare
              · simp at hprepare
              · next hopen =>
                  exact .startWrite hnew (by simpa using hwrites)
                    ((Bool.not_eq_true _).mp hopen) hprepare
  | set setting => exact .startPosting hnew (by simp) fun hclosing => hclosing
  | close => exact .startPosting hnew (by simp) fun _ => rfl

theorem attemptFailed_traffic (id : Nat) (job : WriteJob) (command : WriteCommand)
    (error : RequestError) (connection : Connection) :
    (connection.attemptFailed id job command error).1.traffic =
        { connection.traffic with
          calls := Calls.set id (job.afterFailure (1 + connection.settings.link.retry.toNat)
            command error) connection.calls } ∧
      Quiet (connection.attemptFailed id job command error).2 := by
  unfold attemptFailed WriteJob.afterFailure
  split
  · exact ⟨rfl, .nil⟩
  · split
    · next hretry =>
        rw [attempts] at hretry
        rw [if_pos hretry]
        exact ⟨rfl, .noticed _⟩
    · next hretry =>
        rw [attempts] at hretry
        rw [if_neg hretry]
        exact ⟨rfl, .nil⟩

/-- A store begins to wait, or its request is invalid and the attempt has failed. -/
theorem beginStore_cases (id : Nat) (job : WriteJob) (command : WriteCommand)
    (values : WireValues) (connection : Connection) :
    (∃ link events stage,
        connection.link.begin connection.now (.write (command.writeRequest values)) =
          (link, events, .waiting stage) ∧
        connection.beginStore id job command values =
          ({ connection with
            link, transaction := some ⟨.write (command.writeRequest values), stage⟩ }, events)) ∨
      ∃ error, (Request.write (command.writeRequest values)).validate = .error error ∧
        connection.beginStore id job command values =
          connection.releaseLink.attemptFailed id job command (.badRequest error) := by
  rcases connection.link.begin_cases connection.now (.write (command.writeRequest values)) with
    ⟨error, hinvalid, hbegin⟩ | ⟨link, events, stage, hbegin⟩
  · refine .inr ⟨error, hinvalid, ?_⟩
    simp only [beginStore, hbegin, storeEnded, List.nil_append]
  · exact .inl ⟨link, events, stage, hbegin, by simp only [beginStore, hbegin]⟩

theorem beginAttempt_move {id : Nat} {job : WriteJob}
    (hphase : Calls.phase? connection.calls id = some (.awaitingLink job))
    (hheld : connection.linkLock.holder = some (.call id)) (hopen : connection.closing = false) :
    Move connection.traffic (.run (.call id)) (connection.beginAttempt id job).2
      (connection.beginAttempt id job).1.traffic := by
  unfold beginAttempt
  split
  · next hjob => exact .callLeaveLink hphase hheld (.inl ⟨hjob, rfl⟩)
  · next command rest hjob =>
      split
      · next hfield =>
          have hfirst : command.firstRequest = .write (command.writeRequest command.values) := by
            simp only [WriteCommand.firstRequest, hfield]
          rcases (connection.setCallPhase id (.transacting job)).beginStore_cases id job command
            command.values with ⟨link, events, stage, hbegin, hresult⟩ | ⟨error, hinvalid, hresult⟩
          · rw [hresult, ← hfirst]
            exact .attempt hphase hheld hopen hjob (hfirst ▸ hbegin)
          · have hfailed := attemptFailed_traffic id job command (.badRequest error)
              (connection.setCallPhase id (.transacting job)).releaseLink
            have hcalls := Calls.set_set id (.transacting job) (job.afterFailure
              (1 + connection.settings.link.retry.toNat) command (.badRequest error))
              connection.calls
            rw [hresult, hfailed.1]
            dsimp only [traffic, setCallPhase, releaseLink]
            rw [← Calls.set, hcalls]
            exact .refuseAttempt hphase hheld hopen hjob (hfirst ▸ hinvalid) hfailed.2
      · next point value hfield =>
          have hfirst : command.firstRequest = .read command.readRequest := by
            simp only [WriteCommand.firstRequest, hfield]
          obtain ⟨link, events, stage, hbegin⟩ :=
            connection.link.begin_read connection.now command.readRequest
          have hbegins : (connection.setCallPhase id (.transacting job)).link.begin
              (connection.setCallPhase id (.transacting job)).now (.read command.readRequest) =
                (link, events, .waiting stage) := hbegin
          simp only [hbegins]
          rw [← hfirst]
          exact .attempt hphase hheld hopen hjob (hfirst ▸ hbegin)

theorem CallTurn.move {id : Nat} {outcome : Connection × List Event}
    (hturn : connection.CallTurn id outcome) :
    Move connection.traffic (.run (.call id)) outcome.2 outcome.1.traffic := by
  cases hturn with
  | endSetting hphase => exact .endSetting hphase
  | postClose hphase => exact .postClose hphase
  | seekShutdown hphase => exact .callSeekShutdown hphase
  | shutdown hphase hheld => exact .callShutdown hphase hheld
  | announce hphase => exact .announce hphase
  | enterSection hphase hheld => exact .enterSection hphase hheld (.noticed _)
  | finish hphase hresult =>
      exact .finish hphase (hresult.imp_right And.right)
  | seekLink hphase hjob hopen => exact .callSeekLink hphase hjob hopen
  | leaveLink hphase hheld hclosing =>
      exact .callLeaveLink hphase hheld (.inr ⟨hclosing, rfl⟩)
  | attempt hphase hheld hopen => exact beginAttempt_move hphase hheld hopen
  | «return» hphase => exact .return hphase

/-! ## Transactions -/

theorem pollEnded_strolls (tick : Tick) (result : Except RequestError Response)
    (connection : Connection) :
    connection.releaseLink.Strolls (connection.pollEnded tick result) := by
  simp only [pollEnded]
  split
  · exact strolls_endTick tick
  · next group hgroup =>
      split
      · have hrecorded := traffic_setGroup hgroup
          (show (group.recordSuccess tick.instant).readRequest = group.readRequest from rfl)
        exact (strolls_setPhase rfl .nil).of_traffic_eq hrecorded
      · split
        · exact strolls_concludeVisit tick _ .nil
        · have hrecorded := traffic_setGroup hgroup
            (show (group.recordFailure tick.instant).readRequest = group.readRequest from rfl)
          refine (strolls_concludeVisit _ _ fun event hevent => ?_).of_traffic_eq hrecorded
          rcases List.mem_cons.mp hevent with rfl | hevent
          · rfl
          · obtain ⟨device, _, rfl⟩ := List.mem_map.mp hevent
            rfl

/-- What the answer of a transaction makes of the traffic, if its user is a call. -/
theorem callTransactionEnded_move {id : Nat} {job : WriteJob} {transaction : Transaction}
    {link : Link} {events : List Event} {result : Except RequestError Response}
    (hphase : Calls.phase? connection.calls id = some (.transacting job))
    (htransaction : connection.transaction = some transaction)
    (herrand : connection.traffic.Errand transaction.request)
    (hturn : connection.link.Turn connection.now transaction action
      (link, events, .finished result)) :
    Move connection.traffic action
      (events ++ ({ connection with link, transaction := none }.callTransactionEnded id
        transaction.request result).2)
      ({ connection with link, transaction := none }.callTransactionEnded id
        transaction.request result).1.traffic := by
  obtain ⟨command, rest, hjob, hsends⟩ := herrand.2 id job hphase
  obtain ⟨request, stage⟩ := transaction
  have hcall : ({ connection with link, transaction := none } : Connection).call? id =
    some ⟨id, .transacting job⟩ := call?_eq_some hphase
  have hfail : ∀ error, command.Fails connection.codec request result error →
      Move connection.traffic action
        (events ++ ({ connection with link, transaction := none }.releaseLink.attemptFailed id job
          command error).2)
        ({ connection with link, transaction := none }.releaseLink.attemptFailed id job
          command error).1.traffic := by
    intro error hfails
    have hfailed := attemptFailed_traffic id job command error
      ({ connection with link, transaction := none } : Connection).releaseLink
    rw [hfailed.1]
    exact .fail htransaction hphase hjob hturn hfails hfailed.2
  unfold callTransactionEnded
  rw [hcall]
  dsimp only
  cases request with
  | write stored =>
      rw [hjob]
      dsimp only [storeEnded]
      cases result with
      | error error => exact hfail error (.transaction rfl)
      | ok response =>
          dsimp only [commandDone]
          rw [List.append_nil, hjob]
          exact .store htransaction hphase hjob hturn
  | read read =>
      rw [hjob]
      cases hfield : command.field with
      | none => simp [WriteCommand.Sends, hfield] at hsends
      | some field =>
          obtain ⟨point, value⟩ := field
          simp only [hfield]
          rcases result with error | (_ | (_ | ⟨current, others⟩) | _)
          · exact hfail error (.transaction rfl)
          · exact hfail _ (.answer rfl rfl (by simp))
          · exact hfail _ (.answer rfl rfl (by simp))
          · simp only [readBackEnded]
            cases hencode : connection.codec.encode point value (some current) with
            | error error =>
                dsimp only
                rw [List.append_nil]
                exact .misfit htransaction hphase hturn hjob hfield hencode
            | ok values =>
                dsimp only
                rcases beginStore_cases id job command values
                  { connection with link, transaction := none } with
                  ⟨linkAfter, more, next, hbegin, hstore⟩ | ⟨error, hinvalid, hstore⟩
                · rw [hstore]
                  exact .writeBack htransaction hphase hjob hfield hturn hencode hbegin
                · rw [hstore]
                  exact hfail _ (.store rfl hfield rfl hencode hinvalid)
          · exact hfail _ (.answer rfl rfl (by simp))

/-- A transaction goes on, or it ends and its user goes on. -/
theorem proceed_move {transaction : Transaction} {outcome : Link × List Event × Progress}
    (horderly : connection.traffic.Orderly)
    (htransaction : connection.transaction = some transaction)
    (hturn : connection.link.Turn connection.now transaction action outcome) :
    Move connection.traffic action (connection.proceed transaction.request outcome).2
      (connection.proceed transaction.request outcome).1.traffic := by
  obtain ⟨link, events, progress⟩ := outcome
  cases progress with
  | waiting stage => exact .proceed htransaction hturn
  | finished result =>
      obtain ⟨actor, -, hheld⟩ := horderly.exists_inside htransaction
      have hholder : connection.linkLock.holder = some actor := hheld
      simp only [proceed, transactionEnded, hholder]
      cases actor with
      | scheduler =>
          obtain ⟨tick, hphase⟩ := horderly.polling_of_held htransaction hheld
          obtain ⟨next, hnext, htraffic, hquiet⟩ :=
            pollEnded_strolls tick result { connection with link, transaction := none }
          have hpolling : connection.scheduler.phase = .polling tick := hphase
          simp only [hpolling]
          rw [htraffic]
          exact .endPoll htransaction hphase hturn hnext hquiet
      | call id =>
          obtain ⟨job, hphase⟩ := horderly.transacting_of_held htransaction hheld
          exact callTransactionEnded_move hphase htransaction
            (horderly.errand _ htransaction) hturn

/-- In good order every step is one of the listed moves. -/
theorem move_of_step {after : Connection} {events : List Event}
    (horderly : connection.traffic.Orderly)
    (hstep : connection.step action = some (after, events)) :
    Move connection.traffic action events after.traffic := by
  generalize houtcome : (after, events) = outcome at hstep
  suffices hmove : Move connection.traffic action outcome.2 outcome.1.traffic by
    rwa [← houtcome] at hmove
  cases turn_of_step hstep with
  | elapse duration => exact .elapse duration
  | start request _ hnew => exact startCall_move request hnew
  | cancel hphase => exact .cancel hphase
  | dropHandle => exact .stay rfl .nil
  | receive hidle hreceive => exact receive?_move rfl (by rw [hidle]; rfl) hreceive
  | tick hidle => exact (strolls_setPhase rfl .nil).move rfl (by rw [hidle]; rfl)
  | scheduler hturn => exact hturn.move
  | call hturn => exact hturn.move
  | answer _ htransaction hturn => exact proceed_move horderly htransaction hturn
  | deliver hphase => exact (delivered_strolls _).move rfl (by rw [hphase]; rfl)

theorem create_orderly (settings : ConnectionSettings) (codec : ValueCodec)
    (declared : List Point) : (create settings codec declared).1.traffic.Orderly where
  distinct := List.nodup_nil
  pending_eq := rfl
  link := by
    have haway : (create settings codec declared).1.traffic.stance = fun _ => .away := by
      funext actor
      cases actor <;> rfl
    rw [haway]
    exact .initial
  writes := by
    have haway : sectionStance (Calls.phase? (create settings codec declared).1.traffic.calls) =
        fun _ => .away := by
      funext actor
      cases actor <;> rfl
    rw [haway]
    exact .initial
  busy := by
    refine iff_of_false (fun hbusy => hbusy rfl) ?_
    rintro ⟨actor, hinside⟩
    have haway : (create settings codec declared).1.traffic.stance actor = .away := by
      cases actor <;> rfl
    simp [haway] at hinside
  errand _ hnone := by simp [create, traffic] at hnone
  warned := ⟨by simp [create, traffic], by simp [create, traffic, Calls.phase?]⟩

theorem Path.orderly {start final : Connection} {path : List Transition}
    (hpath : Path start path final) (hstart : start.traffic.Orderly) :
    final.traffic.Orderly :=
  hpath.invariant (fun _ _ _ _ hbefore hstep => (move_of_step hbefore hstep).orderly hbefore)
    hstart

theorem Path.settings_eq {start final : Connection} {path : List Transition}
    (hpath : Path start path final) (hstart : start.traffic.Orderly) :
    final.settings = start.settings := by
  induction hpath with
  | nil => rfl
  | cons hstep _ ih =>
      have hmove := move_of_step hstart hstep
      exact (ih (hmove.orderly hstart)).trans hmove.settings_eq

theorem Path.codec_eq {start final : Connection} {path : List Transition}
    (hpath : Path start path final) (hstart : start.traffic.Orderly) :
    final.codec = start.codec := by
  induction hpath with
  | nil => rfl
  | cons hstep _ ih =>
      have hmove := move_of_step hstart hstep
      exact (ih (hmove.orderly hstart)).trans hmove.codec_eq

theorem Path.points_eq {start final : Connection} {path : List Transition}
    (hpath : Path start path final) (hstart : start.traffic.Orderly) :
    final.points = start.points := by
  induction hpath with
  | nil => rfl
  | cons hstep _ ih =>
      have hmove := move_of_step hstart hstep
      exact (ih (hmove.orderly hstart)).trans hmove.points_eq

end Connection

end Fieldbus
