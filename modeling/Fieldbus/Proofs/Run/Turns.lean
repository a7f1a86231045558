import Fieldbus.Proofs.Run.Traffic

/-!
# Turns

`Connection.step` as a relation, with one case for each thing that the scheduler, a call, the link
or the world outside can do, and with what each of them has found before.  What holds of all steps
is proved by cases on a turn.
-/

namespace Fieldbus

theorem Link.turn_expired {link : Link} {now : Instant} {transaction : Transaction}
    (hdue : link.deadline transaction.stage ≤ now) :
    link.Turn now transaction .expire (link.expired now transaction) := by
  obtain ⟨request, stage⟩ := transaction
  cases stage with
  | opening since =>
      have hresult : Action.expire.openResult? = some (.error (.openFailed .timedOut)) := rfl
      exact .opens hresult
  | spacing stop => exact .spaced hdue
  | exchanging since =>
      have hresult : Action.expire.exchangeResult? = some (.error .responseTimeout) := rfl
      exact .exchanges hresult

/-- The mailbox after a call has posted its command.  A command that nobody takes is lost. -/
inductive Mailbox.Posting (mailbox : Mailbox) (call : Nat) (command : Command) :
    Mailbox → Prop where
  | lost (hdeaf : mailbox.receiving = false) : Posting mailbox call command (mailbox.leave call)
  | posted (hreceiving : mailbox.receiving = true) (hroom : mailbox.hasRoomFor call = true) :
      Posting mailbox call command (mailbox.post call command)

namespace Connection

/-- What the scheduler does when it waits for nothing. -/
inductive SchedulerTurn (c : Connection) : Connection × List Event → Prop where
  | visit {tick : Tick} (hphase : c.scheduler.phase = .visiting tick) :
      SchedulerTurn c (c.visit tick)
  | seekLink {tick : Tick} (hphase : c.scheduler.phase = .requesting tick)
      (hopen : c.closing = false) :
      SchedulerTurn c ((c.requestLink .scheduler).setPhase (.awaitingLink tick), [])
  | giveUp {tick : Tick} (hphase : c.scheduler.phase = .requesting tick)
      (hclosing : c.closing = true) :
      SchedulerTurn c (c.concludeVisit tick (.failed .closed), [])
  /-- The link comes too late for a poll. -/
  | leaveLink {tick : Tick} (hphase : c.scheduler.phase = .awaitingLink tick)
      (hheld : c.linkLock.holder = some .scheduler) (hclosing : c.closing = true) :
      SchedulerTurn c (c.releaseLink.concludeVisit tick (.failed .closed), [])
  | poll {tick : Tick} (hphase : c.scheduler.phase = .awaitingLink tick)
      (hheld : c.linkLock.holder = some .scheduler) (hopen : c.closing = false) :
      SchedulerTurn c (c.beginPoll tick)
  | publish {tick : Tick} {publication : Publication}
      (hphase : c.scheduler.phase = .publishing tick publication) :
      SchedulerTurn c (c.publish tick publication)
  | apply {level : DecodeLevel} {interrupted : Option Tick}
      (hphase : c.scheduler.phase = .applying level interrupted)
      (hheld : c.linkLock.holder = some .scheduler) :
      SchedulerTurn c
        (({ c with link := { c.link with decode := level } }.releaseLink).resume interrupted, [])
  | seekShutdown (hphase : c.scheduler.phase = .stopping) :
      SchedulerTurn c
        (({ c with closing := true }.requestLink .scheduler).setPhase .awaitingShutdown, [])
  | shutdown (hphase : c.scheduler.phase = .awaitingShutdown)
      (hheld : c.linkLock.holder = some .scheduler) : SchedulerTurn c c.endScheduler

/-- What a call does when it waits for nothing. -/
inductive CallTurn (c : Connection) (id : Nat) : Connection × List Event → Prop where
  | endSetting {setting : Setting} {mailbox : Mailbox} {result : Except SettingError Unit}
      (hphase : Calls.phase? c.calls id = some (.posting (.set setting)))
      (hposting : c.mailbox.Posting id (.set setting) mailbox) :
      CallTurn c id ({ c with mailbox }.settingEnded id result)
  | postClose {mailbox : Mailbox} (hphase : Calls.phase? c.calls id = some (.posting .close))
      (hposting : c.mailbox.Posting id .close mailbox) :
      CallTurn c id ({ c with mailbox }.setCallPhase id .stopping, [])
  | seekShutdown (hphase : Calls.phase? c.calls id = some .stopping) :
      CallTurn c id
        (({ c with closing := true }.requestLink (.call id)).setCallPhase id .awaitingShutdown, [])
  | shutdown (hphase : Calls.phase? c.calls id = some .awaitingShutdown)
      (hheld : c.linkLock.holder = some (.call id)) :
      CallTurn c id (c.shutdownLink.1.removeCall id, c.shutdownLink.2 ++ [.callReturns id .closed])
  | announce {device : DeviceId} {commands : List WriteCommand}
      (hphase : Calls.phase? c.calls id = some (.announcing device commands)) :
      CallTurn c id
        ({ c with
          trace := c.trace.start
          writeSection := c.writeSection.request (.call id) }.setCallPhase id
            (.awaitingSection device commands), [])
  | enterSection {device : DeviceId} {commands : List WriteCommand}
      (hphase : Calls.phase? c.calls id = some (.awaitingSection device commands))
      (hheld : c.writeSection.holder = some (.call id)) :
      CallTurn c id
        (c.setCallPhase id (.attempting { commands }), [.noticed (.writing commands.length device)])
  | finish {job : WriteJob} {result : Except WriteError Unit}
      (hphase : Calls.phase? c.calls id = some (.attempting job))
      (hresult : job.commands = [] ∧ result = .ok () ∨
        job.commands ≠ [] ∧ c.closing = true ∧ result = .error .closed) :
      CallTurn c id (c.setCallPhase id (.finishing result), [])
  | seekLink {job : WriteJob} (hphase : Calls.phase? c.calls id = some (.attempting job))
      (hjob : job.commands ≠ []) (hopen : c.closing = false) :
      CallTurn c id ((c.requestLink (.call id)).setCallPhase id (.awaitingLink job), [])
  | leaveLink {job : WriteJob} (hphase : Calls.phase? c.calls id = some (.awaitingLink job))
      (hheld : c.linkLock.holder = some (.call id)) (hclosing : c.closing = true) :
      CallTurn c id (c.releaseLink.setCallPhase id (.finishing (.error .closed)), [])
  | attempt {job : WriteJob} (hphase : Calls.phase? c.calls id = some (.awaitingLink job))
      (hheld : c.linkLock.holder = some (.call id)) (hopen : c.closing = false) :
      CallTurn c id (c.beginAttempt id job)
  | return {result : Except WriteError Unit}
      (hphase : Calls.phase? c.calls id = some (.finishing result)) :
      CallTurn c id (c.endWrite id result)

/-- What happens with an action. -/
inductive Turn (c : Connection) : Action → Connection × List Event → Prop where
  | elapse (duration : Nanoseconds) :
      Turn c (.elapse duration) ({ c with now := c.now + duration }, [])
  | start {id : Nat} (request : CallRequest) (hheld : c.handleHeld = true)
      (hnew : Calls.phase? c.calls id = none) : Turn c (.start id request) (c.startCall id request)
  | cancel {id : Nat} {phase : CallPhase} (hphase : Calls.phase? c.calls id = some phase) :
      Turn c (.cancel id) (c.cancelCall ⟨id, phase⟩, [])
  | dropHandle : Turn c .dropHandle ({ c with handleHeld := false }, [])
  | receive {outcome : Connection × List Event} (hidle : c.scheduler.phase = .idle)
      (hreceive : c.receive? none = some outcome) : Turn c .receive outcome
  | tick {due : Instant} (hidle : c.scheduler.phase = .idle)
      (hdue : c.scheduler.nextTick = some due) (hnow : due ≤ c.now) :
      Turn c .tick
        ({ c with scheduler := { c.scheduler with
          nextTick := some ((if due + tickTolerance < c.now then c.now else due) +
            c.settings.tickPeriod)
          phase := .visiting { instant := due } } }, [])
  | scheduler {outcome : Connection × List Event} (hturn : c.SchedulerTurn outcome) :
      Turn c (.run .scheduler) outcome
  | call {id : Nat} {outcome : Connection × List Event} (hturn : c.CallTurn id outcome) :
      Turn c (.run (.call id)) outcome
  /-- The transaction goes on, or it ends and its user goes on. -/
  | answer {action : Action} {transaction : Transaction} {turned : Link × List Event × Progress}
      (haction : action.isAnswer = true) (htransaction : c.transaction = some transaction)
      (hturn : c.link.Turn c.now transaction action turned) :
      Turn c action (c.proceed transaction.request turned)
  | deliver {tick : Tick} {publication : Publication} {since : Instant}
      (hphase : c.scheduler.phase = .delivering tick publication since) :
      Turn c .deliver (c.delivered tick publication, [])

variable {c : Connection} {id : Nat} {outcome : Connection × List Event}

theorem schedulerTurn_of_run (hrun : c.runScheduler? = some outcome) : c.SchedulerTurn outcome := by
  rw [runScheduler?] at hrun
  cases hphase : c.scheduler.phase with
  | idle | polling | delivering | ended => simp [hphase] at hrun
  | visiting tick =>
      simp only [hphase, Option.some.injEq] at hrun
      exact hrun ▸ .visit hphase
  | requesting tick =>
      simp only [hphase] at hrun
      split at hrun
      · next hclosing => exact Option.some.inj hrun ▸ .giveUp hphase hclosing
      · next hopen => exact Option.some.inj hrun ▸ .seekLink hphase ((Bool.not_eq_true _).mp hopen)
  | awaitingLink tick =>
      simp only [hphase] at hrun
      split at hrun
      · next hheld =>
          have hheld := FairLock.isHeldBy_iff.mp hheld
          split at hrun
          · next hclosing => exact Option.some.inj hrun ▸ .leaveLink hphase hheld hclosing
          · next hopen =>
              exact Option.some.inj hrun ▸ .poll hphase hheld ((Bool.not_eq_true _).mp hopen)
      · simp at hrun
  | publishing tick publication =>
      simp only [hphase, Option.some.injEq] at hrun
      exact hrun ▸ .publish hphase
  | applying level interrupted =>
      simp only [hphase] at hrun
      split at hrun
      · next hheld => exact Option.some.inj hrun ▸ .apply hphase (FairLock.isHeldBy_iff.mp hheld)
      · simp at hrun
  | stopping =>
      simp only [hphase, Option.some.injEq] at hrun
      exact hrun ▸ .seekShutdown hphase
  | awaitingShutdown =>
      simp only [hphase] at hrun
      split at hrun
      · next hheld => exact Option.some.inj hrun ▸ .shutdown hphase (FairLock.isHeldBy_iff.mp hheld)
      · simp at hrun

theorem call?_phase {call : Call} (hcall : c.call? id = some call) :
    call.id = id ∧ Calls.phase? c.calls id = some call.phase := by
  constructor
  · have hfound := List.find?_some hcall
    exact beq_iff_eq.mp hfound
  · rw [call?] at hcall
    simp [Calls.phase?, hcall]

theorem call?_eq_some {phase : CallPhase} (hphase : Calls.phase? c.calls id = some phase) :
    c.call? id = some ⟨id, phase⟩ := by
  obtain ⟨call, hcall, rfl⟩ := Option.map_eq_some_iff.mp hphase
  have hfound := List.find?_some hcall
  have hid : call.id = id := beq_iff_eq.mp hfound
  rw [call?, hcall, ← hid]

theorem callTurn_of_post {command : Command}
    (hphase : Calls.phase? c.calls id = some (.posting command))
    (hpost : c.postCommand? id command = some outcome) : c.CallTurn id outcome := by
  rw [postCommand?] at hpost
  dsimp only at hpost
  split at hpost
  · next hdeaf =>
      have hposting : c.mailbox.Posting id command (c.mailbox.leave id) :=
        .lost (by simpa using hdeaf)
      cases command with
      | set setting => exact Option.some.inj hpost ▸ .endSetting hphase hposting
      | close => exact Option.some.inj hpost ▸ .postClose hphase hposting
  · next hreceiving =>
      split at hpost
      · next hroom =>
          have hposting : c.mailbox.Posting id command (c.mailbox.post id command) :=
            .posted (by simpa using hreceiving) hroom
          cases command with
          | set setting => exact Option.some.inj hpost ▸ .endSetting hphase hposting
          | close => exact Option.some.inj hpost ▸ .postClose hphase hposting
      · simp at hpost

theorem callTurn_of_run {call : Call} (hcall : c.call? id = some call)
    (hrun : c.runCall? call = some outcome) : c.CallTurn id outcome := by
  obtain ⟨rfl, hphase⟩ := call?_phase hcall
  rw [runCall?] at hrun
  generalize call.phase = phase at hphase hrun
  dsimp only at hrun
  cases phase with
  | posting command => exact callTurn_of_post hphase hrun
  | stopping => exact Option.some.inj hrun ▸ .seekShutdown hphase
  | awaitingShutdown =>
      dsimp only at hrun
      split at hrun
      · next hheld => exact Option.some.inj hrun ▸ .shutdown hphase (FairLock.isHeldBy_iff.mp hheld)
      · simp at hrun
  | announcing device commands => exact Option.some.inj hrun ▸ .announce hphase
  | awaitingSection device commands =>
      dsimp only at hrun
      split at hrun
      · next hheld =>
          exact Option.some.inj hrun ▸ .enterSection hphase (FairLock.isHeldBy_iff.mp hheld)
      · simp at hrun
  | attempting job =>
      dsimp only at hrun
      split at hrun
      · next hempty =>
          have hnone := List.isEmpty_iff.mp hempty
          exact Option.some.inj hrun ▸ .finish hphase (.inl ⟨hnone, rfl⟩)
      · next hempty =>
          have hjob : job.commands ≠ [] := mt List.isEmpty_iff.mpr hempty
          split at hrun
          · next hclosing =>
              exact Option.some.inj hrun ▸ .finish hphase (.inr ⟨hjob, hclosing, rfl⟩)
          · next hopen =>
              exact Option.some.inj hrun ▸ .seekLink hphase hjob ((Bool.not_eq_true _).mp hopen)
  | awaitingLink job =>
      dsimp only at hrun
      split at hrun
      · next hheld =>
          have hheld := FairLock.isHeldBy_iff.mp hheld
          split at hrun
          · next hclosing => exact Option.some.inj hrun ▸ .leaveLink hphase hheld hclosing
          · next hopen =>
              exact Option.some.inj hrun ▸ .attempt hphase hheld ((Bool.not_eq_true _).mp hopen)
      · simp at hrun
  | transacting job => simp at hrun
  | finishing result => exact Option.some.inj hrun ▸ .return hphase

theorem phase_of_isIdle (hidle : c.isIdle = true) : c.scheduler.phase = .idle := by
  rw [isIdle] at hidle
  split at hidle
  · assumption
  · simp at hidle

/-- The answer to a transaction ends its wait. -/
theorem turn_of_answer {action : Action} (haction : action.isAnswer = true)
    (hstep : c.step action = some outcome) : c.Turn action outcome := by
  cases action with
  | openDone result =>
      simp only [step] at hstep
      split at hstep
      · next request since htransaction =>
          exact Option.some.inj hstep ▸ .answer rfl htransaction (.opens rfl)
      · simp at hstep
  | exchangeDone result =>
      simp only [step] at hstep
      split at hstep
      · next request since htransaction =>
          exact Option.some.inj hstep ▸ .answer rfl htransaction (.exchanges rfl)
      · simp at hstep
  | expire =>
      simp only [step] at hstep
      split at hstep
      · next transaction htransaction =>
          split at hstep
          · next hdue =>
              exact Option.some.inj hstep ▸ .answer rfl htransaction (Link.turn_expired hdue)
          · simp at hstep
      · simp at hstep
  | elapse | start | cancel | dropHandle | receive | tick | run | deliver =>
      simp [Action.isAnswer] at haction

theorem turn_of_step {action : Action} (hstep : c.step action = some outcome) :
    c.Turn action outcome := by
  cases action with
  | elapse duration => exact Option.some.inj hstep ▸ .elapse duration
  | start id request =>
      simp only [step] at hstep
      split at hstep
      · next hallowed =>
          obtain ⟨hheld, hnew⟩ := Bool.and_eq_true_iff.mp hallowed
          have hnone : Calls.phase? c.calls id = none := by
            rw [call?, Option.isNone_iff_eq_none] at hnew
            simp [Calls.phase?, hnew]
          exact Option.some.inj hstep ▸ .start request hheld hnone
      · simp at hstep
  | cancel id =>
      obtain ⟨call, hcall, rfl⟩ := Option.map_eq_some_iff.mp hstep
      obtain ⟨rfl, hphase⟩ := call?_phase hcall
      exact .cancel hphase
  | dropHandle => exact Option.some.inj hstep ▸ .dropHandle
  | receive =>
      simp only [step] at hstep
      split at hstep
      · next hidle => exact .receive (phase_of_isIdle hidle) hstep
      · simp at hstep
  | tick =>
      simp only [step, startTick?] at hstep
      split at hstep
      · next hidle =>
          split at hstep
          · simp at hstep
          · next due hdue =>
              split at hstep
              · simp at hstep
              · next hnow =>
                  exact Option.some.inj hstep ▸
                    .tick (phase_of_isIdle hidle) hdue (Nat.le_of_not_lt hnow)
      · simp at hstep
  | run actor =>
      cases actor with
      | scheduler => exact .scheduler (schedulerTurn_of_run hstep)
      | call id =>
          obtain ⟨call, hcall, hrun⟩ := Option.bind_eq_some_iff.mp hstep
          exact .call (callTurn_of_run hcall hrun)
  | openDone | exchangeDone | expire => exact turn_of_answer rfl hstep
  | deliver =>
      simp only [step] at hstep
      split at hstep
      · next hphase => exact Option.some.inj hstep ▸ .deliver hphase
      · simp at hstep

theorem startCall_of_step {request : CallRequest}
    (hstep : c.step (.start id request) = some outcome) : outcome = c.startCall id request := by
  cases turn_of_step hstep with
  | start => rfl
  | answer haction => cases haction

theorem callTurn_of_step (hstep : c.step (.run (.call id)) = some outcome) :
    c.CallTurn id outcome := by
  cases turn_of_step hstep with
  | call hturn => exact hturn
  | answer haction => cases haction

end Connection

end Fieldbus
