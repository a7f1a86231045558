import Fieldbus.Connection.Basic

/-!
# Writing

The steps of a write.  It announces itself, waits for the write section, and then sends its
commands in order, each as often as transport errors and the retry setting ask for.  A bit field is
read back and written without giving the link away in between.
-/

namespace Fieldbus.Connection

/-- The end of a write, after which polls rest for a while. -/
def endWrite (id : Nat) (result : Except WriteError Unit) (connection : Connection) :
    Connection × List Event :=
  { connection with
    writeSection := connection.writeSection.release
    trace := connection.trace.finish connection.now }.endCall id (.write result)

def attempts (connection : Connection) : Nat := 1 + connection.settings.link.retry.toNat

/-- The next command after one that was acknowledged. -/
def commandDone (id : Nat) (job : WriteJob) (connection : Connection) : Connection :=
  connection.setCallPhase id (.attempting { commands := job.commands.tail })

/-- An attempt at a command has failed. -/
def attemptFailed (id : Nat) (job : WriteJob) (command : WriteCommand) (error : RequestError)
    (connection : Connection) : Connection × List Event :=
  if error.isEnding then (connection.setCallPhase id (.finishing (.error .closed)), [])
  else if error.isTransport && job.attempt < connection.attempts then
    (connection.setCallPhase id (.attempting { job with attempt := job.attempt + 1 }),
      [.noticed (.writeRetried command.points job.attempt connection.attempts error)])
  else
    (connection.setCallPhase id (.finishing (.error (.request command.range error))), [])

/-- The transaction that stores the values of a command has ended. -/
def storeEnded (id : Nat) (job : WriteJob) (command : WriteCommand)
    (result : Except RequestError Response) (connection : Connection) :
    Connection × List Event :=
  let connection := connection.releaseLink
  match result with
  | .ok _ => (connection.commandDone id job, [])
  | .error error => connection.attemptFailed id job command error

/-- Starts the transaction that stores values; the call holds the link. -/
def beginStore (id : Nat) (job : WriteJob) (command : WriteCommand) (values : WireValues)
    (connection : Connection) : Connection × List Event :=
  let request := Request.write (command.writeRequest values)
  let (link, events, progress) := connection.link.begin connection.now request
  let connection := { connection with link }
  match progress with
  | .waiting stage => ({ connection with transaction := some ⟨request, stage⟩ }, events)
  | .finished result =>
    let (connection, more) := connection.storeEnded id job command result
    (connection, events ++ more)

/-- The register of a bit field has been read, or not. -/
def readBackEnded (id : Nat) (job : WriteJob) (command : WriteCommand) (point : Point)
    (value : PointValue) (result : Except RequestError Response) (connection : Connection) :
    Connection × List Event :=
  match result with
  | .ok (.registers (current :: _)) =>
    match connection.codec.encode point value (some current) with
    | .ok values => connection.beginStore id job command values
    | .error error =>
      (connection.releaseLink.setCallPhase id (.finishing (.error (.encoding error))), [])
  | .ok _ => connection.releaseLink.attemptFailed id job command (.badResponse .kindMismatch)
  | .error error => connection.releaseLink.attemptFailed id job command error

/-- The transaction of a call has ended: that of a read before a write, or the write itself. -/
def callTransactionEnded (id : Nat) (request : Request) (result : Except RequestError Response)
    (connection : Connection) : Connection × List Event :=
  match connection.call? id with
  | some ⟨_, .transacting job⟩ =>
    match job.commands, request with
    | [], _ => (connection.releaseLink.setCallPhase id (.finishing (.ok ())), [])
    | command :: _, .write _ => connection.storeEnded id job command result
    | command :: _, .read _ =>
      match command.field with
      | some (point, value) => connection.readBackEnded id job command point value result
      | none => connection.storeEnded id job command result
  | _ => (connection.releaseLink, [])

/-- Starts the first transaction of an attempt; the call holds the link. -/
def beginAttempt (id : Nat) (job : WriteJob) (connection : Connection) :
    Connection × List Event :=
  match job.commands with
  | [] => (connection.releaseLink.setCallPhase id (.finishing (.ok ())), [])
  | command :: _ =>
    let connection := connection.setCallPhase id (.transacting job)
    match command.field with
    | none => connection.beginStore id job command command.values
    | some (point, value) =>
      let request := Request.read command.readRequest
      let (link, events, progress) := connection.link.begin connection.now request
      let connection := { connection with link }
      match progress with
      | .waiting stage => ({ connection with transaction := some ⟨request, stage⟩ }, events)
      | .finished result =>
        let (connection, more) :=
          connection.readBackEnded id job command point value result
        (connection, events ++ more)

inductive CallRequest where
  | write (device : DeviceId) (points : List PointWrite)
  | set (setting : Setting)
  | close

def addCall (id : Nat) (phase : CallPhase) (connection : Connection) : Connection :=
  { connection with calls := connection.calls ++ [⟨id, phase⟩] }

def addPosting (id : Nat) (command : Command) (connection : Connection) : Connection :=
  { connection with mailbox := connection.mailbox.join id }.addCall id (.posting command)

/-- What a write finds out before it announces itself. -/
def prepareWrite (device : DeviceId) (points : List PointWrite) (connection : Connection) :
    Except WriteError (List WriteCommand) :=
  if points.isEmpty then .error .empty
  else if connection.closing then .error .closed
  else
    planWrite connection.codec connection.points connection.settings.link.maxWriteSpan.toNat
      device points

/-- A call through the handle. -/
def startCall (id : Nat) (request : CallRequest) (connection : Connection) :
    Connection × List Event :=
  match request with
  | .write device points =>
    match connection.prepareWrite device points with
    | .ok commands => (connection.addCall id (.announcing device commands), [])
    | .error error => (connection, [.callReturns id (.write (.error error))])
  | .set setting => (connection.addPosting id (.set setting), [])
  | .close => ({ connection with closing := true }.addPosting id .close, [])

def settingEnded (id : Nat) (result : Except SettingError Unit) (connection : Connection) :
    Connection × List Event :=
  connection.endCall id (.setting result)

/-- Posts a command, if there is room for it or nobody takes it any more. -/
def postCommand? (id : Nat) (command : Command) (connection : Connection) :
    Option (Connection × List Event) :=
  let mailbox := connection.mailbox
  let after (mailbox : Mailbox) (result : Except SettingError Unit) :
      Connection × List Event :=
    let connection := { connection with mailbox }
    match command with
    | .set _ => connection.settingEnded id result
    | .close => (connection.setCallPhase id .stopping, [])
  if !mailbox.receiving then some (after (mailbox.leave id) (.error .connectionEnded))
  else if mailbox.hasRoomFor id then some (after (mailbox.post id command) (.ok ()))
  else none

/-- The next step of a call, if it waits for nothing. -/
def runCall? (call : Call) (connection : Connection) : Option (Connection × List Event) :=
  let id := call.id
  let actor := Actor.call id
  match call.phase with
  | .posting command => connection.postCommand? id command
  | .stopping =>
    some (({ connection with closing := true }.requestLink actor).setCallPhase id
      .awaitingShutdown, [])
  | .awaitingShutdown =>
    if connection.linkLock.isHeldBy actor then
      let (connection, events) := connection.shutdownLink
      let (connection, ending) := connection.endCall id .closed
      some (connection, events ++ ending)
    else none
  | .announcing device commands =>
    some ({ connection with
      trace := connection.trace.start
      writeSection := connection.writeSection.request actor }.setCallPhase id
        (.awaitingSection device commands), [])
  | .awaitingSection device commands =>
    if connection.writeSection.isHeldBy actor then
      some (connection.setCallPhase id (.attempting { commands }),
        [.noticed (.writing commands.length device)])
    else none
  | .attempting job =>
    if job.commands.isEmpty then some (connection.setCallPhase id (.finishing (.ok ())), [])
    else if connection.closing then
      some (connection.setCallPhase id (.finishing (.error .closed)), [])
    else some ((connection.requestLink actor).setCallPhase id (.awaitingLink job), [])
  | .awaitingLink job =>
    if connection.linkLock.isHeldBy actor then
      if connection.closing then
        some (connection.releaseLink.setCallPhase id (.finishing (.error .closed)), [])
      else some (connection.beginAttempt id job)
    else none
  | .transacting _ => none
  | .finishing result => some (connection.endWrite id result)

/-- The caller gives a call up.  It leaves every queue and gives back what it holds; a transaction
is left as it stands. -/
def cancelCall (call : Call) (connection : Connection) : Connection :=
  let actor := Actor.call call.id
  { connection with
    transaction := if call.phase.isTransacting then none else connection.transaction
    linkLock := connection.linkLock.withdraw actor
    writeSection := connection.writeSection.withdraw actor
    trace :=
      if call.phase.isAnnounced then connection.trace.finish connection.now
      else connection.trace
    mailbox := connection.mailbox.leave call.id }.removeCall call.id

end Fieldbus.Connection
