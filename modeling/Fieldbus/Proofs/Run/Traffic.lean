import Fieldbus.Connection.Step
import Fieldbus.Proofs.Run.Calls
import Fieldbus.Proofs.Run.Lock

/-!
# The traffic of a connection

The traffic is the part of a connection that decides who uses the link and who is inside the write
section: the clock, the link with its transaction, the two locks, the record of writes, and the
phases of all users.  The mailbox, the samples and the records of polls are left out.
`Move` lists everything that a step can do to the traffic.
-/

namespace Fieldbus

structure Traffic where
  settings : ConnectionSettings
  codec : ValueCodec
  points : List Point
  /-- What a poll of each group reads. -/
  reads : Nat → Option ReadRequest
  now : Instant
  link : Link
  transaction : Option Transaction
  linkLock : FairLock
  writeSection : FairLock
  trace : WriteTrace
  closing : Bool
  /-- The phase of the scheduler. -/
  phase : SchedulerPhase
  calls : List Call

def Connection.traffic (connection : Connection) : Traffic where
  settings := connection.settings
  codec := connection.codec
  points := connection.points
  reads index := (connection.group? index).map (·.readRequest)
  now := connection.now
  link := connection.link
  transaction := connection.transaction
  linkLock := connection.linkLock
  writeSection := connection.writeSection
  trace := connection.trace
  closing := connection.closing
  phase := connection.scheduler.phase
  calls := connection.calls

def SchedulerPhase.linkStance : SchedulerPhase → Stance
  | awaitingLink _ | applying _ _ | awaitingShutdown => .queued
  | polling _ => .inside
  | idle | visiting _ | requesting _ | publishing _ _ | delivering _ _ _ | stopping | ended => .away

/-- The scheduler has nothing to do with the link and has not cleared a group for a poll. -/
def SchedulerPhase.isFree : SchedulerPhase → Bool
  | idle | visiting _ | publishing _ _ | delivering _ _ _ | stopping | ended => true
  | requesting _ | awaitingLink _ | polling _ | applying _ _ | awaitingShutdown => false

namespace CallPhase

def linkStance : CallPhase → Stance
  | awaitingLink _ | awaitingShutdown => .queued
  | transacting _ => .inside
  | posting _ | stopping | announcing _ _ | awaitingSection _ _ | attempting _
  | finishing _ => .away

def sectionStance : CallPhase → Stance
  | awaitingSection _ _ => .queued
  | attempting _ | awaitingLink _ | transacting _ | finishing _ => .inside
  | posting _ | stopping | awaitingShutdown | announcing _ _ => .away

end CallPhase

/-- How the users stand to a lock: the scheduler like this, and each call as its phase says. -/
def stances (scheduler : Stance) (ofCall : CallPhase → Stance) (phases : Nat → Option CallPhase) :
    Actor → Stance
  | .scheduler => scheduler
  | .call id => (phases id).elim .away ofCall

def linkStance (phase : SchedulerPhase) (phases : Nat → Option CallPhase) : Actor → Stance :=
  stances phase.linkStance CallPhase.linkStance phases

/-- The scheduler keeps out of the write section. -/
def sectionStance (phases : Nat → Option CallPhase) : Actor → Stance :=
  stances .away CallPhase.sectionStance phases

theorem SchedulerPhase.linkStance_of_isFree {phase : SchedulerPhase} (hfree : phase.isFree) :
    phase.linkStance = .away := by
  cases phase <;> first | rfl | simp [isFree] at hfree

section Stances

variable {scheduler : Stance} {ofCall : CallPhase → Stance} {phases : Nat → Option CallPhase}
variable {id : Nat} {phase : CallPhase}

@[simp]
theorem stances_scheduler : stances scheduler ofCall phases .scheduler = scheduler := rfl

theorem stances_call (hphase : phases id = some phase) :
    stances scheduler ofCall phases (.call id) = ofCall phase := by
  simp [stances, hphase]

theorem stances_call_none (hnone : phases id = none) :
    stances scheduler ofCall phases (.call id) = .away := by
  simp [stances, hnone]

theorem stances_update_scheduler (next : Stance) :
    stances next ofCall phases =
      Function.update (stances scheduler ofCall phases) .scheduler next := by
  funext actor
  cases actor <;> simp [stances]

/-- A call changes nobody's stance but its own. -/
theorem stances_update_call (id : Nat) (entry : Option CallPhase) :
    stances scheduler ofCall (Function.update phases id entry) =
      Function.update (stances scheduler ofCall phases) (.call id) (entry.elim .away ofCall) := by
  funext actor
  cases actor with
  | scheduler => simp
  | call other => by_cases hother : other = id <;> simp [stances, hother]

theorem stances_update_self {entry : Option CallPhase}
    (hsame : entry.elim .away ofCall = stances scheduler ofCall phases (.call id)) :
    stances scheduler ofCall (Function.update phases id entry) =
      stances scheduler ofCall phases := by
  rw [stances_update_call, hsame]
  exact Function.update_eq_self _ _

end Stances

namespace Action

/-- How an open of the transport ends with this action. -/
def openResult? : Action → Option (Except RequestError Unit)
  | openDone result => some result
  | expire => some (.error (.openFailed .timedOut))
  | _ => none

/-- How an exchange ends with this action. -/
def exchangeResult? : Action → Option (Except RequestError Response)
  | exchangeDone result => some result
  | expire => some (.error .responseTimeout)
  | _ => none

/-- The action ends the wait of a transaction. -/
def isAnswer : Action → Bool
  | openDone _ | exchangeDone _ | expire => true
  | elapse _ | start _ _ | cancel _ | dropHandle | receive | tick | run _ | deliver => false

/-- The action is about the scheduler or the handle. -/
def isInternal : Action → Bool
  | dropHandle | receive | tick | run .scheduler | deliver => true
  | elapse _ | start _ _ | cancel _ | run (.call _) | openDone _ | exchangeDone _ | expire => false

/-- How long the action lasts. -/
def duration : Action → Nanoseconds
  | elapse duration => duration
  | start _ _ | cancel _ | dropHandle | receive | tick | run _ | openDone _ | exchangeDone _
  | expire | deliver => 0

theorem isAnswer_of_isInternal {action : Action} (haction : action.isInternal = true) :
    action.isAnswer = false := by
  cases action <;> first | rfl | simp [isInternal] at haction

theorem duration_of_isInternal {action : Action} (haction : action.isInternal = true) :
    action.duration = 0 := by
  cases action <;> first | rfl | simp [isInternal] at haction

theorem duration_of_isAnswer {action : Action} (haction : action.isAnswer = true) :
    action.duration = 0 := by
  cases action <;> first | rfl | simp [isAnswer] at haction

end Action

/-- The wait of a transaction ends, and the link goes on. -/
inductive Link.Turn (link : Link) (now : Instant) :
    Transaction → Action → Link × List Event × Progress → Prop where
  | opens {request : Request} {since : Instant} {action : Action}
      {result : Except RequestError Unit} (haction : action.openResult? = some result) :
      Turn link now ⟨request, .opening since⟩ action (link.opened now request result)
  | spaced {request : Request} {stop : Instant} (hdue : stop ≤ now) :
      Turn link now ⟨request, .spacing stop⟩ .expire (link.beginExchange now request)
  | exchanges {request : Request} {since : Instant} {action : Action}
      {result : Except RequestError Response} (haction : action.exchangeResult? = some result) :
      Turn link now ⟨request, .exchanging since⟩ action (link.exchanged now request result)

theorem Link.Turn.isAnswer {link : Link} {now : Instant} {transaction : Transaction}
    {action : Action} {outcome : Link × List Event × Progress}
    (hturn : link.Turn now transaction action outcome) : action.isAnswer = true := by
  cases hturn with
  | opens haction => cases action <;> first | rfl | simp [Action.openResult?] at haction
  | spaced => rfl
  | exchanges haction =>
      cases action <;> first | rfl | simp [Action.exchangeResult?] at haction

/-- The event shows nothing of the link or of the end of a call. -/
def Event.isQuiet : Event → Bool
  | transportOpens | exchangeStarts _ | transportCloses | linkChanges _ | callReturns _ _ => false
  | sampled _ | deviceOnline _ | deviceOffline _ | tickEnds _ | schedulerEnds | noticed _ => true

def Quiet (events : List Event) : Prop := ∀ event ∈ events, event.isQuiet

theorem Quiet.nil : Quiet [] := by simp [Quiet]

theorem Quiet.noticed (notice : Notice) : Quiet [.noticed notice] := by simp [Quiet, Event.isQuiet]

theorem Quiet.append {events more : List Event} (hevents : Quiet events) (hmore : Quiet more) :
    Quiet (events ++ more) := fun event hevent =>
  (List.mem_append.mp hevent).elim (hevents event) (hmore event)

/-- Where a write goes after a failed attempt at a command. -/
def WriteJob.afterFailure (attempts : Nat) (command : WriteCommand) (error : RequestError)
    (job : WriteJob) : CallPhase :=
  if error.isEnding then .finishing (.error .closed)
  else if error.isTransport && job.attempt < attempts then
    .attempting { job with attempt := job.attempt + 1 }
  else .finishing (.error (.request command.range error))

/-- The request that an attempt at a command begins with. -/
def WriteCommand.firstRequest (command : WriteCommand) : Request :=
  match command.field with
  | none => .write (command.writeRequest command.values)
  | some _ => .read command.readRequest

end Fieldbus
