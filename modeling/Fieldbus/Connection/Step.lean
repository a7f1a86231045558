import Fieldbus.Connection.Scheduling
import Fieldbus.Connection.Writing

/-!
# Steps of a connection

`step` is the whole behaviour of a connection: what each action does in each state, and which
actions are possible.  Actions are chosen from outside: by whoever runs the users of the connection
in some order, by the callers, by the transport, by the receiver of samples and by the clock.
Nothing is assumed of their order.

One step of a user is what it does from one point at which it may wait, for a lock, the mailbox, the
transport, a receiver or the clock, to the next such point.  The asynchronous runtime lets another
user go on, or drops a call, only at these points.
-/

namespace Fieldbus

inductive Action where
  /-- Time passes. -/
  | elapse (duration : Nanoseconds)
  /-- A call through the handle, under a new number. -/
  | start (id : Nat) (request : Connection.CallRequest)
  | cancel (id : Nat)
  | dropHandle
  /-- The idle scheduler takes a command. -/
  | receive
  /-- The idle scheduler begins a tick. -/
  | tick
  /-- A user of the connection takes its next step. -/
  | run (actor : Actor)
  | openDone (result : Except RequestError Unit)
  | exchangeDone (result : Except RequestError Response)
  /-- The wait of the link is over. -/
  | expire
  /-- A sample has been taken. -/
  | deliver

namespace Connection

/-- The end of a transaction, which goes on with whoever holds the link. -/
def transactionEnded (request : Request) (result : Except RequestError Response)
    (connection : Connection) : Connection × List Event :=
  let connection := { connection with transaction := none }
  match connection.linkLock.holder, connection.scheduler.phase with
  | some (.call id), _ => connection.callTransactionEnded id request result
  | some .scheduler, .polling tick => connection.pollEnded tick result
  | _, _ => (connection, [])

/-- Takes over what a transaction has done to the link. -/
def proceed (request : Request) (outcome : Link × List Event × Progress)
    (connection : Connection) : Connection × List Event :=
  let (link, events, progress) := outcome
  let connection := { connection with link }
  match progress with
  | .waiting stage => ({ connection with transaction := some ⟨request, stage⟩ }, events)
  | .finished result =>
    let (connection, more) := connection.transactionEnded request result
    (connection, events ++ more)

/-- The scheduler has the link for a poll. -/
def beginPoll (tick : Tick) (connection : Connection) : Connection × List Event :=
  match connection.group? tick.next with
  | none => connection.releaseLink.endTick tick
  | some group =>
    let request := Request.read group.readRequest
    (connection.setPhase (.polling tick)).proceed request
      (connection.link.begin connection.now request)

/-- The next step of the scheduler, if it waits for nothing. -/
def runScheduler? (connection : Connection) : Option (Connection × List Event) :=
  match connection.scheduler.phase with
  | .idle | .polling _ | .delivering _ _ _ | .ended => none
  | .visiting tick => some (connection.visit tick)
  | .requesting tick =>
    if connection.closing then some (connection.concludeVisit tick (.failed .closed), [])
    else some ((connection.requestLink .scheduler).setPhase (.awaitingLink tick), [])
  | .awaitingLink tick =>
    if connection.linkLock.isHeldBy .scheduler then
      if connection.closing then
        some (connection.releaseLink.concludeVisit tick (.failed .closed), [])
      else some (connection.beginPoll tick)
    else none
  | .publishing tick publication => some (connection.publish tick publication)
  | .applying level interrupted =>
    if connection.linkLock.isHeldBy .scheduler then
      let link := { connection.link with decode := level }
      some ({ connection with link }.releaseLink.resume interrupted, [])
    else none
  | .stopping =>
    some (({ connection with closing := true }.requestLink .scheduler).setPhase
      .awaitingShutdown, [])
  | .awaitingShutdown =>
    if connection.linkLock.isHeldBy .scheduler then some connection.endScheduler else none

def isIdle (connection : Connection) : Bool :=
  match connection.scheduler.phase with
  | .idle => true
  | _ => false

/-- The state after an action and what can be observed of it, or nothing where the action is not
possible. -/
def step (connection : Connection) : Action → Option (Connection × List Event)
  | .elapse duration => some ({ connection with now := connection.now + duration }, [])
  | .start id request =>
    if connection.handleHeld && (connection.call? id).isNone then
      some (connection.startCall id request)
    else none
  | .cancel id => (connection.call? id).map fun call => (connection.cancelCall call, [])
  | .dropHandle => some ({ connection with handleHeld := false }, [])
  | .receive => if connection.isIdle then connection.receive? none else none
  | .tick => if connection.isIdle then connection.startTick? else none
  | .run .scheduler => connection.runScheduler?
  | .run (.call id) => (connection.call? id).bind connection.runCall?
  | .openDone result =>
    match connection.transaction with
    | some ⟨request, .opening _⟩ =>
      some (connection.proceed request (connection.link.opened connection.now request result))
    | _ => none
  | .exchangeDone result =>
    match connection.transaction with
    | some ⟨request, .exchanging _⟩ =>
      some (connection.proceed request (connection.link.exchanged connection.now request result))
    | _ => none
  | .expire =>
    match connection.transaction with
    | some transaction =>
      if connection.link.deadline transaction.stage ≤ connection.now then
        some (connection.proceed transaction.request
          (connection.link.expired connection.now transaction))
      else none
    | none => none
  | .deliver =>
    match connection.scheduler.phase with
    | .delivering tick publication _ => some (connection.delivered tick publication, [])
    | _ => none

/-- The state after several actions, with everything that was observed. -/
def run (connection : Connection) : List Action → Option (Connection × List Event)
  | [] => some (connection, [])
  | action :: rest => do
    let (connection, events) ← connection.step action
    let (connection, more) ← run connection rest
    return (connection, events ++ more)

end Connection

end Fieldbus
