import Fieldbus.Proofs.Run.Traffic

/-!
# Moves

Everything that a step can do to the traffic of a connection, one constructor for each thing.  What
a step does beyond that, such as filling the mailbox or recording polls, does not show here.
-/

namespace Fieldbus

/-- What is at fault when an attempt at a command fails with an error: the transaction itself, the
answer to a read, or the request that would store the new value of a bit field. -/
inductive WriteCommand.Fails (codec : ValueCodec) (command : WriteCommand) (request : Request)
    (result : Except RequestError Response) : RequestError → Prop where
  | transaction {error : RequestError} (hresult : result = .error error) :
      Fails codec command request result error
  | answer {read : ReadRequest} {response : Response} (hread : request = .read read)
      (hresult : result = .ok response)
      (hunlike : ∀ current others, response ≠ .registers (current :: others)) :
      Fails codec command request result (.badResponse .kindMismatch)
  | store {read : ReadRequest} {point : Point} {value : PointValue} {current : UInt16}
      {others : List UInt16} {values : WireValues} {error : InvalidRequest}
      (hread : request = .read read) (hfield : command.field = some (point, value))
      (hresult : result = .ok (.registers (current :: others)))
      (hencode : codec.encode point value (some current) = .ok values)
      (hinvalid : (Request.write (command.writeRequest values)).validate = .error error) :
      Fails codec command request result (.badRequest error)

inductive Move : Traffic → Action → List Event → Traffic → Prop where
  | elapse {c : Traffic} (duration : Nanoseconds) :
      Move c (.elapse duration) [] { c with now := c.now + duration }
  | stay {c : Traffic} {action : Action} {events : List Event} (haction : action.isInternal = true)
      (hquiet : Quiet events) :
      Move c action events c
  -- The scheduler.
  | stroll {c : Traffic} {action : Action} {events : List Event} {next : SchedulerPhase}
      (haction : action.isInternal = true) (hphase : c.phase.linkStance = .away)
      (hnext : next.isFree) (hquiet : Quiet events) :
      Move c action events { c with phase := next }
  /-- A group is due and no write is in the way. -/
  | clear {c : Traffic} {events : List Event} {tick : Tick} (hphase : c.phase = .visiting tick)
      (hopen : c.closing = false)
      (hrest : c.trace.shouldDefer c.now c.settings.link.minInterval = false)
      (hquiet : Quiet events) :
      Move c (.run .scheduler) events { c with phase := .requesting tick }
  | seekLink {c : Traffic} {tick : Tick} (hphase : c.phase = .requesting tick)
      (hopen : c.closing = false) :
      Move c (.run .scheduler) []
        { c with phase := .awaitingLink tick, linkLock := c.linkLock.request .scheduler }
  | seekSetting {c : Traffic} {action : Action} {level : DecodeLevel} {interrupted : Option Tick}
      (haction : action.isInternal = true) (hphase : c.phase.isFree) :
      Move c action []
        { c with phase := .applying level interrupted, linkLock := c.linkLock.request .scheduler }
  | seekShutdown {c : Traffic} (hphase : c.phase = .stopping) :
      Move c (.run .scheduler) []
        { c with
          phase := .awaitingShutdown, linkLock := c.linkLock.request .scheduler, closing := true }
  /-- The scheduler gives the link back without a transaction. -/
  | leaveLink {c : Traffic} {events : List Event} {level : DecodeLevel} {next : SchedulerPhase}
      (hphase : c.phase.linkStance = .queued) (hheld : c.linkLock.holder = some .scheduler)
      (hnext : next.isFree) (hquiet : Quiet events) :
      Move c (.run .scheduler) events
        { c with
          phase := next, linkLock := c.linkLock.release, link := { c.link with decode := level } }
  | endScheduler {c : Traffic} {more : List Event} (hphase : c.phase = .awaitingShutdown)
      (hheld : c.linkLock.holder = some .scheduler) (hquiet : Quiet more) :
      Move c (.run .scheduler) (c.link.shutdown.2 ++ more)
        { c with phase := .ended, linkLock := c.linkLock.release, link := c.link.shutdown.1 }
  | poll {c : Traffic} {events : List Event} {tick : Tick} {read : ReadRequest} {link : Link}
      {stage : Stage} (hphase : c.phase = .awaitingLink tick)
      (hheld : c.linkLock.holder = some .scheduler) (hopen : c.closing = false)
      (hread : c.reads tick.next = some read)
      (hbegin : c.link.begin c.now (.read read) = (link, events, .waiting stage)) :
      Move c (.run .scheduler) events
        { c with phase := .polling tick, link, transaction := some ⟨.read read, stage⟩ }
  -- Calls that are not in a transaction.
  | refuse {c : Traffic} {id : Nat} {device : DeviceId} {writes : List PointWrite}
      {error : WriteError} (hnew : Calls.phase? c.calls id = none) :
      Move c (.start id (.write device writes)) [.callReturns id (.write (.error error))] c
  | startWrite {c : Traffic} {id : Nat} {device : DeviceId} {writes : List PointWrite}
      {commands : List WriteCommand} (hnew : Calls.phase? c.calls id = none)
      (hwrites : writes ≠ []) (hopen : c.closing = false)
      (hplan : planWrite c.codec c.points c.settings.link.maxWriteSpan.toNat device writes =
        .ok commands) :
      Move c (.start id (.write device writes)) []
        { c with calls := Calls.add id (.announcing device commands) c.calls }
  | startPosting {c : Traffic} {id : Nat} {request : Connection.CallRequest} {command : Command}
      {closing : Bool} (hnew : Calls.phase? c.calls id = none)
      (hrequest : ∀ device writes, request ≠ .write device writes)
      (hclosing : c.closing = true → closing = true) :
      Move c (.start id request) []
        { c with calls := Calls.add id (.posting command) c.calls, closing }
  | postClose {c : Traffic} {id : Nat} (hphase : Calls.phase? c.calls id = some (.posting .close)) :
      Move c (.run (.call id)) [] { c with calls := Calls.set id .stopping c.calls }
  | endSetting {c : Traffic} {id : Nat} {setting : Setting} {result : Except SettingError Unit}
      (hphase : Calls.phase? c.calls id = some (.posting (.set setting))) :
      Move c (.run (.call id)) [.callReturns id (.setting result)]
        { c with calls := Calls.remove id c.calls }
  | callSeekShutdown {c : Traffic} {id : Nat} (hphase : Calls.phase? c.calls id = some .stopping) :
      Move c (.run (.call id)) []
        { c with
          calls := Calls.set id .awaitingShutdown c.calls
          linkLock := c.linkLock.request (.call id), closing := true }
  | callShutdown {c : Traffic} {id : Nat}
      (hphase : Calls.phase? c.calls id = some .awaitingShutdown)
      (hheld : c.linkLock.holder = some (.call id)) :
      Move c (.run (.call id)) (c.link.shutdown.2 ++ [.callReturns id .closed])
        { c with
          calls := Calls.remove id c.calls, linkLock := c.linkLock.release
          link := c.link.shutdown.1 }
  | announce {c : Traffic} {id : Nat} {device : DeviceId} {commands : List WriteCommand}
      (hphase : Calls.phase? c.calls id = some (.announcing device commands)) :
      Move c (.run (.call id)) []
        { c with
          calls := Calls.set id (.awaitingSection device commands) c.calls
          writeSection := c.writeSection.request (.call id), trace := c.trace.start }
  | enterSection {c : Traffic} {id : Nat} {events : List Event} {device : DeviceId}
      {commands : List WriteCommand}
      (hphase : Calls.phase? c.calls id = some (.awaitingSection device commands))
      (hheld : c.writeSection.holder = some (.call id)) (hquiet : Quiet events) :
      Move c (.run (.call id)) events
        { c with calls := Calls.set id (.attempting { commands }) c.calls }
  | finish {c : Traffic} {id : Nat} {job : WriteJob} {result : Except WriteError Unit}
      (hphase : Calls.phase? c.calls id = some (.attempting job))
      (hresult : job.commands = [] ∧ result = .ok () ∨
        c.closing = true ∧ result = .error .closed) :
      Move c (.run (.call id)) [] { c with calls := Calls.set id (.finishing result) c.calls }
  | callSeekLink {c : Traffic} {id : Nat} {job : WriteJob}
      (hphase : Calls.phase? c.calls id = some (.attempting job)) (hjob : job.commands ≠ [])
      (hopen : c.closing = false) :
      Move c (.run (.call id)) []
        { c with
          calls := Calls.set id (.awaitingLink job) c.calls
          linkLock := c.linkLock.request (.call id) }
  | callLeaveLink {c : Traffic} {id : Nat} {job : WriteJob} {result : Except WriteError Unit}
      (hphase : Calls.phase? c.calls id = some (.awaitingLink job))
      (hheld : c.linkLock.holder = some (.call id))
      (hresult : job.commands = [] ∧ result = .ok () ∨
        c.closing = true ∧ result = .error .closed) :
      Move c (.run (.call id)) []
        { c with
          calls := Calls.set id (.finishing result) c.calls, linkLock := c.linkLock.release }
  | return {c : Traffic} {id : Nat} {result : Except WriteError Unit}
      (hphase : Calls.phase? c.calls id = some (.finishing result)) :
      Move c (.run (.call id)) [.callReturns id (.write result)]
        { c with
          calls := Calls.remove id c.calls, writeSection := c.writeSection.release
          trace := c.trace.finish c.now }
  | cancel {c : Traffic} {id : Nat} {phase : CallPhase}
      (hphase : Calls.phase? c.calls id = some phase) :
      Move c (.cancel id) []
        { c with
          calls := Calls.remove id c.calls
          transaction := if phase.isTransacting then none else c.transaction
          linkLock := c.linkLock.withdraw (.call id)
          writeSection := c.writeSection.withdraw (.call id)
          trace := if phase.isAnnounced then c.trace.finish c.now else c.trace }
  -- Attempts of writes.
  | attempt {c : Traffic} {id : Nat} {events : List Event} {job : WriteJob}
      {command : WriteCommand} {rest : List WriteCommand} {link : Link} {stage : Stage}
      (hphase : Calls.phase? c.calls id = some (.awaitingLink job))
      (hheld : c.linkLock.holder = some (.call id)) (hopen : c.closing = false)
      (hjob : job.commands = command :: rest)
      (hbegin : c.link.begin c.now command.firstRequest = (link, events, .waiting stage)) :
      Move c (.run (.call id)) events
        { c with
          calls := Calls.set id (.transacting job) c.calls, link
          transaction := some ⟨command.firstRequest, stage⟩ }
  | refuseAttempt {c : Traffic} {id : Nat} {events : List Event} {job : WriteJob}
      {command : WriteCommand} {rest : List WriteCommand} {error : InvalidRequest}
      (hphase : Calls.phase? c.calls id = some (.awaitingLink job))
      (hheld : c.linkLock.holder = some (.call id)) (hopen : c.closing = false)
      (hjob : job.commands = command :: rest)
      (hinvalid : command.firstRequest.validate = .error error) (hquiet : Quiet events) :
      Move c (.run (.call id)) events
        { c with
          calls := Calls.set id
            (job.afterFailure (1 + c.settings.link.retry.toNat) command (.badRequest error)) c.calls
          linkLock := c.linkLock.release }
  -- Transactions.
  | proceed {c : Traffic} {action : Action} {events : List Event} {request : Request}
      {stage next : Stage} {link : Link} (htransaction : c.transaction = some ⟨request, stage⟩)
      (hturn : c.link.Turn c.now ⟨request, stage⟩ action (link, events, .waiting next)) :
      Move c action events { c with link, transaction := some ⟨request, next⟩ }
  | endPoll {c : Traffic} {action : Action} {events more : List Event} {transaction : Transaction}
      {link : Link} {result : Except RequestError Response} {tick : Tick} {next : SchedulerPhase}
      (htransaction : c.transaction = some transaction) (hphase : c.phase = .polling tick)
      (hturn : c.link.Turn c.now transaction action (link, events, .finished result))
      (hnext : next.isFree) (hquiet : Quiet more) :
      Move c action (events ++ more)
        { c with phase := next, link, transaction := none, linkLock := c.linkLock.release }
  /-- The values of a command are stored. -/
  | store {c : Traffic} {id : Nat} {action : Action} {events : List Event} {stored : WriteRequest}
      {stage : Stage} {link : Link} {response : Response} {job : WriteJob}
      {command : WriteCommand} {rest : List WriteCommand}
      (htransaction : c.transaction = some ⟨.write stored, stage⟩)
      (hphase : Calls.phase? c.calls id = some (.transacting job))
      (hjob : job.commands = command :: rest)
      (hturn : c.link.Turn c.now ⟨.write stored, stage⟩ action
        (link, events, .finished (.ok response))) :
      Move c action events
        { c with
          calls := Calls.set id (.attempting { commands := rest }) c.calls
          link, transaction := none, linkLock := c.linkLock.release }
  /-- An attempt at a command fails. -/
  | fail {c : Traffic} {id : Nat} {action : Action} {events more : List Event}
      {transaction : Transaction} {link : Link} {result : Except RequestError Response}
      {job : WriteJob} {command : WriteCommand} {rest : List WriteCommand} {error : RequestError}
      (htransaction : c.transaction = some transaction)
      (hphase : Calls.phase? c.calls id = some (.transacting job))
      (hjob : job.commands = command :: rest)
      (hturn : c.link.Turn c.now transaction action (link, events, .finished result))
      (hfails : command.Fails c.codec transaction.request result error) (hquiet : Quiet more) :
      Move c action (events ++ more)
        { c with
          calls := Calls.set id
            (job.afterFailure (1 + c.settings.link.retry.toNat) command error) c.calls
          link, transaction := none, linkLock := c.linkLock.release }
  /-- The value of a bit field cannot be encoded against its register. -/
  | misfit {c : Traffic} {id : Nat} {action : Action} {events : List Event} {read : ReadRequest}
      {stage : Stage} {link : Link} {result : Except RequestError Response} {job : WriteJob}
      {command : WriteCommand} {rest : List WriteCommand} {point : Point} {value : PointValue}
      {current : UInt16} {error : EncodingError}
      (htransaction : c.transaction = some ⟨.read read, stage⟩)
      (hphase : Calls.phase? c.calls id = some (.transacting job))
      (hturn : c.link.Turn c.now ⟨.read read, stage⟩ action (link, events, .finished result))
      (hjob : job.commands = command :: rest) (hfield : command.field = some (point, value))
      (hencode : c.codec.encode point value (some current) = .error error) :
      Move c action events
        { c with
          calls := Calls.set id (.finishing (.error (.encoding error))) c.calls
          link, transaction := none, linkLock := c.linkLock.release }
  /-- The register of a bit field has been read, and its new value goes back under the same lock. -/
  | writeBack {c : Traffic} {id : Nat} {action : Action} {events more : List Event}
      {read : ReadRequest} {stage next : Stage} {link linkAfter : Link} {current : UInt16}
      {others : List UInt16} {values : WireValues} {job : WriteJob} {command : WriteCommand}
      {rest : List WriteCommand} {point : Point} {value : PointValue}
      (htransaction : c.transaction = some ⟨.read read, stage⟩)
      (hphase : Calls.phase? c.calls id = some (.transacting job))
      (hjob : job.commands = command :: rest) (hfield : command.field = some (point, value))
      (hturn : c.link.Turn c.now ⟨.read read, stage⟩ action
        (link, events, .finished (.ok (.registers (current :: others)))))
      (hencode : c.codec.encode point value (some current) = .ok values)
      (hbegin : link.begin c.now (.write (command.writeRequest values)) =
        (linkAfter, more, .waiting next)) :
      Move c action (events ++ more)
        { c with
          link := linkAfter
          transaction := some ⟨.write (command.writeRequest values), next⟩ }

end Fieldbus
