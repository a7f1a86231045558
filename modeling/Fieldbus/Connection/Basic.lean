import Fieldbus.Connection.Lock
import Fieldbus.Connection.Mailbox
import Fieldbus.Link.Basic
import Fieldbus.Polling.Batch
import Fieldbus.Write.Trace

/-!
# Connections

The state of a connection: a link that its users lock, a scheduler that polls groups of points, and
the calls that are under way through its handle.  Every user is somewhere in its own sequence of
steps, which its phase tells.
-/

namespace Fieldbus

/-- A round of visits to all groups. -/
structure Tick where
  instant : Instant
  /-- The group to visit next. -/
  next : Nat := 0
  /-- The devices that have been reported in this tick. -/
  reported : List DeviceId := []
  /-- Once the transport fails to open, it is not tried again in the same tick. -/
  openFailure : Option RequestError := none
  outcomes : List (Nat × PollOutcome) := []
  deriving DecidableEq, Repr

/-- The samples of one poll, which are passed on one at a time. -/
structure Publication where
  start : UInt16
  response : Response
  remaining : List Point
  /-- The devices with a decoded point, in the order of their first one. -/
  online : List DeviceId := []
  deriving DecidableEq, Repr

inductive SchedulerPhase where
  | idle
  | visiting (tick : Tick)
  /-- The group is due and no write is in the way. -/
  | requesting (tick : Tick)
  | awaitingLink (tick : Tick)
  | polling (tick : Tick)
  | publishing (tick : Tick) (publication : Publication)
  /-- The first of the remaining points has been passed on and is not taken yet. -/
  | delivering (tick : Tick) (publication : Publication) (since : Instant)
  /-- A decode level waits for the link, perhaps in the middle of a tick. -/
  | applying (level : DecodeLevel) (interrupted : Option Tick)
  | stopping
  | awaitingShutdown
  | ended
  deriving DecidableEq, Repr

structure Scheduler where
  enabled : Bool
  decode : DecodeLevel
  groups : List PollGroup
  /-- The next tick, while polling is enabled. -/
  nextTick : Option Instant
  phase : SchedulerPhase := .idle
  deriving DecidableEq, Repr

/-- The commands of a write that are still to be acknowledged, and the number of the attempt at the
first of them. -/
structure WriteJob where
  commands : List WriteCommand
  attempt : Nat := 1
  deriving DecidableEq, Repr

inductive CallPhase where
  | posting (command : Command)
  | stopping
  | awaitingShutdown
  /-- A planned write, before the scheduler knows of it. -/
  | announcing (device : DeviceId) (commands : List WriteCommand)
  | awaitingSection (device : DeviceId) (commands : List WriteCommand)
  | attempting (job : WriteJob)
  | awaitingLink (job : WriteJob)
  | transacting (job : WriteJob)
  | finishing (result : Except WriteError Unit)

namespace CallPhase

/-- The scheduler knows of the write. -/
def isAnnounced : CallPhase → Bool
  | awaitingSection _ _ | attempting _ | awaitingLink _ | transacting _ | finishing _ => true
  | posting _ | stopping | awaitingShutdown | announcing _ _ => false

def isWrite : CallPhase → Bool
  | announcing _ _ => true
  | phase => phase.isAnnounced

def isTransacting : CallPhase → Bool
  | transacting _ => true
  | _ => false

end CallPhase

structure Call where
  id : Nat
  phase : CallPhase

structure Connection where
  settings : ConnectionSettings
  codec : ValueCodec
  /-- The points that can be written, each name of a device once. -/
  points : List Point
  now : Instant := 0
  link : Link
  transaction : Option Transaction := none
  linkLock : FairLock := {}
  /-- Writes exclude each other for as long as they last. -/
  writeSection : FairLock := {}
  trace : WriteTrace := {}
  closing : Bool := false
  mailbox : Mailbox := {}
  scheduler : Scheduler
  calls : List Call := []
  /-- The handle has not been dropped. -/
  handleHeld : Bool := true

namespace Connection

/-- The devices of all points, each once, in the order of the points. -/
def devices (connection : Connection) : List DeviceId :=
  (connection.points.map (·.device)).eraseDups

def group? (index : Nat) (connection : Connection) : Option PollGroup :=
  connection.scheduler.groups[index]?

def setGroup (group : PollGroup) (index : Nat) (connection : Connection) : Connection :=
  let scheduler := connection.scheduler
  { connection with scheduler := { scheduler with groups := scheduler.groups.set index group } }

def setPhase (phase : SchedulerPhase) (connection : Connection) : Connection :=
  { connection with scheduler := { connection.scheduler with phase } }

def call? (id : Nat) (connection : Connection) : Option Call :=
  connection.calls.find? (·.id == id)

def setCallPhase (id : Nat) (phase : CallPhase) (connection : Connection) : Connection :=
  { connection with
    calls := connection.calls.map fun call => if call.id = id then { call with phase } else call }

def removeCall (id : Nat) (connection : Connection) : Connection :=
  { connection with calls := connection.calls.filter (·.id ≠ id) }

def endCall (id : Nat) (result : CallResult) (connection : Connection) :
    Connection × List Event :=
  (connection.removeCall id, [.callReturns id result])

/-- Nobody can post a command any more: the handle is dropped, and a call keeps it alive. -/
def isAbandoned (connection : Connection) : Bool :=
  !connection.handleHeld && connection.calls.isEmpty

def requestLink (actor : Actor) (connection : Connection) : Connection :=
  { connection with linkLock := connection.linkLock.request actor }

def releaseLink (connection : Connection) : Connection :=
  { connection with linkLock := connection.linkLock.release }

/-- Closes the link for good. -/
def shutdownLink (connection : Connection) : Connection × List Event :=
  let (link, events) := connection.link.shutdown
  ({ connection with link }.releaseLink, events)

/-- The valid points without the repeated ones, and what there is to say about the others. -/
def register (kept : List Point) : List Point → List Point × List Notice
  | [] => (kept, [])
  | point :: rest =>
    match point.validate with
    | .error error =>
      let (points, notices) := register kept rest
      (points, .pointDropped point error :: notices)
    | .ok _ =>
      if (findPoint? kept point.device point.name).isSome then
        let (points, notices) := register kept rest
        (points, .pointRepeated point :: notices)
      else register (kept ++ [point]) rest

/-- A connection before its first step. -/
def create (settings : ConnectionSettings) (codec : ValueCodec) (declared : List Point) :
    Connection × List Event :=
  let (points, notices) := register [] declared
  let groups := buildGroups points settings.link.maxBatchSpan
  let idle := if groups.isEmpty then [Notice.nothingToPoll settings.name] else []
  let scheduler : Scheduler :=
    { enabled := settings.enabled, decode := settings.decode, groups,
      nextTick := if settings.enabled then some 0 else none }
  let link := Link.ofSettings settings.link settings.decode
  ({ settings, codec, points, link, scheduler },
    (notices ++ batchNotices points ++ idle).map .noticed)

end Connection

end Fieldbus
