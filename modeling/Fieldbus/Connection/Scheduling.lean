import Fieldbus.Connection.Basic

/-!
# Scheduling

The steps of the scheduler.  A tick visits every group once, in order.  Before each visit the
scheduler takes the commands that wait for it; the visit polls the group if it is due and no write
is under way or has just ended.

Ticks come from an interval timer of the asynchronous runtime, which documents that the first tick
is due at once, that every tick bears the instant at which it was due, and that with the behaviour
chosen here, the one that delays, a late tick is followed by the next after a full period.
-/

namespace Fieldbus.Connection

/-- Ticks follow each other from the moment at which polling was enabled. -/
def rest (connection : Connection) : Connection :=
  let scheduler := connection.scheduler
  let nextTick := if scheduler.enabled then scheduler.nextTick.or (some connection.now) else none
  { connection with scheduler := { scheduler with phase := .idle, nextTick } }

/-- Back to what a command has interrupted. -/
def resume (interrupted : Option Tick) (connection : Connection) : Connection :=
  match interrupted with
  | none => connection.rest
  | some tick => connection.setPhase (.visiting tick)

def setEnabled (enabled : Bool) (connection : Connection) : Connection × List Event :=
  if connection.scheduler.enabled = enabled then (connection, [])
  else
    ({ connection with scheduler := { connection.scheduler with enabled } },
      [.noticed (if enabled then .enabled else .disabled)])

def obey (command : Command) (interrupted : Option Tick) (connection : Connection) :
    Connection × List Event :=
  match command with
  | .set .enable =>
    let (connection, events) := connection.setEnabled true
    (connection.resume interrupted, events)
  | .set .disable =>
    let (connection, events) := connection.setEnabled false
    (connection.resume interrupted, events)
  | .set (.decode level) =>
    let scheduler :=
      { connection.scheduler with decode := level, phase := .applying level interrupted }
    ({ connection with scheduler }.requestLink .scheduler, [])
  | .close => (connection.setPhase .stopping, [])

/-- Takes a command, or stops when none can come any more. -/
def receive? (interrupted : Option Tick) (connection : Connection) :
    Option (Connection × List Event) :=
  match connection.mailbox.take? with
  | some (command, mailbox) => some ({ connection with mailbox }.obey command interrupted)
  | none =>
    if connection.isAbandoned then some (connection.setPhase .stopping, []) else none

/-- A tick that comes later than this after its time is late and shifts the ticks after it.  The
interval timer has a resolution of milliseconds and does not take small delays for missed ticks. -/
def tickTolerance : Nanoseconds := 5 * millisecond

/-- The interval timer completes a tick that is due. -/
def startTick? (connection : Connection) : Option (Connection × List Event) :=
  match connection.scheduler.nextTick with
  | none => none
  | some due =>
    if connection.now < due then none
    else
      let base := if due + tickTolerance < connection.now then connection.now else due
      let scheduler := { connection.scheduler with
        nextTick := some (base + connection.settings.tickPeriod)
        phase := .visiting { instant := due } }
      some ({ connection with scheduler }, [])

def endTick (tick : Tick) (connection : Connection) : Connection × List Event :=
  (connection.rest, [.tickEnds tick.outcomes])

/-- Notes the outcome of a visit and goes on to the next group. -/
def concludeVisit (tick : Tick) (outcome : PollOutcome) (connection : Connection) :
    Connection :=
  let openFailure := match outcome with
    | .failed error => if error.isOpenFailure then some error else tick.openFailure
    | _ => tick.openFailure
  connection.setPhase (.visiting { tick with
    next := tick.next + 1
    openFailure
    outcomes := tick.outcomes ++ [(tick.next, outcome)] })

def ceiling (connection : Connection) : Nanoseconds := connection.settings.link.maxBackoff

/-- Asks whether a group is due, which may start its count of failures anew. -/
def askDue (tick : Tick) (group : PollGroup) (connection : Connection) :
    Connection × PollGroup × Bool × List Event :=
  let ceiling := connection.ceiling
  let events : List Event :=
    if group.forgets ceiling then [.noticed (.backoffOverflow group.index group.failures)] else []
  let asked := group.asked ceiling
  (connection.setGroup asked tick.next, asked, group.isDue tick.instant ceiling, events)

/-- The visit to a group when no command waits. -/
def visitGroup (tick : Tick) (group : PollGroup) (connection : Connection) :
    Connection × List Event :=
  let (connection, group, due, events) := connection.askDue tick group
  if !due then (connection.concludeVisit tick .notDue, events)
  else
    match tick.openFailure with
    | some error =>
      let connection := connection.setGroup (group.recordFailure tick.instant) tick.next
      (connection.concludeVisit tick (.failed error), events)
    | none =>
      let quiet := connection.settings.link.minInterval
      if connection.trace.shouldDefer connection.now quiet then
        (connection.concludeVisit tick .deferred,
          events ++ [.noticed (.deferred group.index)])
      else (connection.setPhase (.requesting tick), events)

def visit (tick : Tick) (connection : Connection) : Connection × List Event :=
  match connection.group? tick.next with
  | none => connection.endTick tick
  | some group =>
    match connection.receive? (some tick) with
    | some outcome => outcome
    | none =>
      if !connection.scheduler.enabled || connection.closing then connection.endTick tick
      else connection.visitGroup tick group

/-- The devices that a failed poll of a group says something about: all of them when the transport
did not open. -/
def suspects (group : PollGroup) (error : RequestError) (connection : Connection) :
    List DeviceId :=
  if error.isOpenFailure then connection.devices else group.devices

def pollFailed (tick : Tick) (group : PollGroup) (error : RequestError)
    (connection : Connection) : Connection × List Event :=
  let group := group.recordFailure tick.instant
  let fresh := (connection.suspects group error).filter (!tick.reported.contains ·)
  let connection := connection.setGroup group tick.next
  (connection.concludeVisit { tick with reported := tick.reported ++ fresh } (.failed error),
    .noticed (.pollFailed group.index group.range group.failures error)
      :: fresh.map .deviceOffline)

/-- The transaction of a poll has ended.  A link that closes counts neither as a success nor as a
failure. -/
def pollEnded (tick : Tick) (result : Except RequestError Response) (connection : Connection) :
    Connection × List Event :=
  let connection := connection.releaseLink
  match connection.group? tick.next with
  | none => connection.endTick tick
  | some group =>
    match result with
    | .ok response =>
      let connection := connection.setGroup (group.recordSuccess tick.instant) tick.next
      (connection.setPhase (.publishing tick
        { start := group.range.start, response, remaining := group.points }), [])
    | .error error =>
      if error.isEnding then (connection.concludeVisit tick (.failed error), [])
      else connection.pollFailed tick group error

def decodePoint (publication : Publication) (point : Point) (connection : Connection) :
    Except DecodeError PointValue :=
  let offset := point.address.toNat - publication.start.toNat
  connection.codec.decode point (publication.response.slice offset point.quantity.toNat)

/-- Passes on the next point of a poll. -/
def publish (tick : Tick) (publication : Publication) (connection : Connection) :
    Connection × List Event :=
  match publication.remaining with
  | [] => (connection.concludeVisit tick .polled, publication.online.map .deviceOnline)
  | point :: rest =>
    match connection.decodePoint publication point with
    | .ok value =>
      let shown : List Event :=
        if connection.scheduler.decode.app.showsValues then [.noticed (.decoded point value)]
        else []
      let sample : PointSample :=
        { device := point.device, point := point.name, rawType := point.rawType, value }
      (connection.setPhase (.delivering tick publication connection.now),
        shown ++ [.sampled sample])
    | .error error =>
      (connection.setPhase (.publishing tick { publication with remaining := rest }),
        [.noticed (.undecodable point error)])

/-- The sample of the first remaining point has been taken. -/
def delivered (tick : Tick) (publication : Publication) (connection : Connection) :
    Connection :=
  match publication.remaining with
  | [] => connection.setPhase (.publishing tick publication)
  | point :: rest =>
    let online :=
      if publication.online.contains point.device then publication.online
      else publication.online ++ [point.device]
    connection.setPhase (.publishing tick { publication with remaining := rest, online })

def endScheduler (connection : Connection) : Connection × List Event :=
  let (connection, events) := connection.shutdownLink
  ({ connection with mailbox := connection.mailbox.stopReceiving }.setPhase .ended,
    events ++ [.noticed .shutdown, .schedulerEnds])

end Fieldbus.Connection
