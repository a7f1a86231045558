import Fieldbus.Connection.Step

/-!
# A clock that ends

The instants of a connection are readings of a clock, and the clock has a last reading.  In three
places a step computes an instant that lies ahead: when a group is due, when the writes have been
quiet for long enough, and when the link may start its next exchange.  Whoever computes an instant
beyond the last reading fails on the spot, and does not come back.
-/

namespace Fieldbus

/-- The last reading of a clock that counts its seconds in a signed 64-bit number. -/
def latestReading : Nanoseconds := (UInt64.size / 2 - 1) * second + (second - 1)

/-- The clock can tell the instant, if it reads `uptime` when the connection starts. -/
def Expressible (uptime : Nanoseconds) (instant : Instant) : Prop :=
  uptime + instant ≤ latestReading

instance (uptime : Nanoseconds) : DecidablePred (Expressible uptime) :=
  fun _ => inferInstanceAs (Decidable (_ ≤ _))

namespace Stage

/-- The link has asked when the exchange may start. -/
def isSpaced : Stage → Bool
  | opening _ => false
  | spacing _ | exchanging _ => true

end Stage

namespace Event

/-- The event can be observed only after its step has computed an instant. -/
def isForeseen : Event → Bool
  | exchangeStarts _ | noticed (.sent _ _) | noticed (.deferred _) => true
  | _ => false

end Event

namespace Connection

/-- The group that the scheduler asks next whether it is due. -/
def questioned? (connection : Connection) : Option (Tick × PollGroup) :=
  match connection.scheduler.phase with
  | .visiting tick =>
    if (connection.receive? (some tick)).isNone && connection.scheduler.enabled
        && !connection.closing then
      (connection.group? tick.next).map fun group => (tick, group)
    else none
  | _ => none

/-- The instants that the visit to a group computes; only a group that is due and can be polled
waits for the writes. -/
def visitSums (tick : Tick) (group : PollGroup) (connection : Connection) : List Instant :=
  let next := (group.nextPollAt? connection.ceiling).toList
  if group.isDue tick.instant connection.ceiling && tick.openFailure.isNone
      && connection.trace.pending == 0 then
    next ++ (connection.trace.quietUntil? connection.settings.link.minInterval).toList
  else next

/-- The step makes the link ask when the exchange of a transaction may start. -/
def spaces (connection : Connection) (action : Action) (after : Connection) : Bool :=
  match action with
  | .expire => false
  | _ => after.transaction != connection.transaction && after.transaction.any (·.stage.isSpaced)

/-- The instants that a step to another state computes. -/
def sums (connection : Connection) (action : Action) (after : Connection) : List Instant :=
  let visit := match action, connection.questioned? with
    | .run .scheduler, some (tick, group) => connection.visitSums tick group
    | _, _ => []
  let spacing := if connection.spaces action after then after.link.nextExchangeAt?.toList else []
  visit ++ spacing

/-- The clock can tell every instant that the next step computes. -/
def Fits (uptime : Nanoseconds) (action : Action) (connection : Connection) : Prop :=
  ∀ outcome, connection.step action = some outcome →
    ∀ instant ∈ connection.sums action outcome.1, Expressible uptime instant

/-- Who computes the instants of a step. -/
def stepper (action : Action) (connection : Connection) : Actor :=
  match action with
  | .run actor => actor
  | _ => connection.linkLock.holder.getD .scheduler

/-- A user of the connection fails.  It gives back what it holds, and a scheduler takes no command
any more; the link is left as it stands. -/
def fail (actor : Actor) (connection : Connection) : Connection :=
  match actor with
  | .scheduler =>
    { connection with
      transaction :=
        if connection.linkLock.isHeldBy .scheduler then none else connection.transaction
      linkLock := connection.linkLock.withdraw .scheduler
      mailbox := connection.mailbox.stopReceiving }.setPhase .ended
  | .call id =>
    match connection.call? id with
    | some call => connection.cancelCall call
    | none => connection

/-- What becomes of a step that computes an instant beyond the clock. -/
def overrun (action : Action) (outcome : Connection × List Event) (connection : Connection) :
    Connection × List Event :=
  ({ connection with link := outcome.1.link }.fail (connection.stepper action),
    outcome.2.takeWhile (!·.isForeseen))

/-- A step under a clock that reads `uptime` when the connection starts. -/
def stepWithin (uptime : Nanoseconds) (connection : Connection) (action : Action) :
    Option (Connection × List Event) :=
  (connection.step action).map fun (after, events) =>
    if ∀ instant ∈ connection.sums action after, Expressible uptime instant then (after, events)
    else connection.overrun action (after, events)

def runWithin (uptime : Nanoseconds) (connection : Connection) :
    List Action → Option (Connection × List Event)
  | [] => some (connection, [])
  | action :: rest => do
    let (connection, events) ← connection.stepWithin uptime action
    let (connection, more) ← runWithin uptime connection rest
    return (connection, events ++ more)

end Connection

end Fieldbus
