import Fieldbus.Bench.Memory
import Fieldbus.Connection.Clock

/-!
# Sessions

A bench runs a connection against a device memory behind a scripted transport, under a clock that
moves only when it is told to.  Of the actions that are possible at an instant it first takes those
of the transport, then those of the user of the connection that acted last, then those of the
others; the clock moves on when none is left.
-/

namespace Fieldbus

/-- How the transport plays one call. -/
structure ScriptItem where
  delay : Nanoseconds := 0
  hangs : Bool := false
  failure : Option RequestError := none
  /-- An answer that the device memory has no part in. -/
  response : Option Response := none

/-- A call of the transport that is under way. -/
structure Playback where
  item : ScriptItem
  since : Instant

namespace Playback

def finish? (playback : Playback) : Option Instant :=
  if playback.item.hangs then none else some (playback.since + playback.item.delay)

end Playback

structure Bench where
  connection : Connection
  /-- What the clock reads at the start. -/
  uptime : Nanoseconds := 0
  memory : Memory := .zero
  opens : List ScriptItem := []
  replies : List ScriptItem := []
  playback : Option Playback := none
  /-- How long a sample takes to be taken. -/
  sampleDelay : Nanoseconds := 0
  /-- The user of the connection that acted last. -/
  active : Actor := .scheduler
  /-- What was observed since the last report, the latest event first. -/
  record : List (Instant × Event) := []

inductive SessionStep where
  | advance (duration : Nanoseconds)
  | poke (unit : UnitId) (registerClass : RegisterClass) (start : UInt16) (values : WireValues)
  | replies (items : List ScriptItem)
  | opens (items : List ScriptItem)
  | call (request : Connection.CallRequest)
  /-- The write that a step started is given up. -/
  | abort (step : Nat)
  | drop

namespace Bench

def observe (event : Event) (bench : Bench) : Bench :=
  let bench := { bench with record := (bench.connection.now, event) :: bench.record }
  let play (item : ScriptItem) : Option Playback := some ⟨item, bench.connection.now⟩
  match event with
  | .transportOpens =>
    { bench with opens := bench.opens.tail, playback := play (bench.opens.headD {}) }
  | .exchangeStarts _ =>
    { bench with replies := bench.replies.tail, playback := play (bench.replies.headD {}) }
  | _ => bench

/-- The call of the transport that the link waits for. -/
def waiting? (bench : Bench) : Option (Transaction × Playback) :=
  match bench.connection.transaction, bench.playback with
  | some ⟨_, .spacing _⟩, _ => none
  | some transaction, some playback => some (transaction, playback)
  | _, _ => none

/-- How a call of the transport ends, and the memory after it. -/
def outcome (transaction : Transaction) (item : ScriptItem) (bench : Bench) : Memory × Action :=
  match transaction.stage, item.failure with
  | .opening _, some error => (bench.memory, .openDone (.error error))
  | .opening _, none => (bench.memory, .openDone (.ok ()))
  | _, some error => (bench.memory, .exchangeDone (.error error))
  | _, none =>
    match item.response with
    | some response => (bench.memory, .exchangeDone (.ok response))
    | none =>
      let (memory, response) := bench.memory.answer transaction.request
      (memory, .exchangeDone (.ok response))

/-- The end of a call of the transport, if it has come. -/
def transportAction? (bench : Bench) : Option (Memory × Action) :=
  match bench.waiting? with
  | some (transaction, playback) =>
    match playback.finish? with
    | some finish =>
      if finish ≤ bench.connection.now then some (bench.outcome transaction playback.item)
      else none
    | none => none
  | none => none

def sampleTakenAt? (bench : Bench) : Option Instant :=
  match bench.connection.scheduler.phase with
  | .delivering _ _ since => some (since + bench.sampleDelay)
  | _ => none

/-- The instants at which something can happen although nothing can happen now. -/
def wakes (bench : Bench) : List Instant :=
  let connection := bench.connection
  let finish := bench.waiting?.bind fun (_, playback) => playback.finish?
  let deadline := connection.transaction.map fun transaction =>
    connection.link.deadline transaction.stage
  let tick := if connection.isIdle then connection.scheduler.nextTick else none
  [finish, deadline, tick, bench.sampleTakenAt?].filterMap id

def nextWake? (bench : Bench) : Option Instant := bench.wakes.min?

/-- The actions of the users of the connection in the order in which they are tried. -/
def choices (bench : Bench) : List (Actor × Action) :=
  let connection := bench.connection
  let active := bench.active
  let owner := connection.linkLock.holder.getD active
  let taken := match bench.sampleTakenAt? with
    | some instant =>
      if instant ≤ connection.now then [(Actor.scheduler, Action.deliver)] else []
    | none => []
  [(owner, .expire)] ++ taken ++ [(active, .run active), (.scheduler, .receive),
    (.scheduler, .tick), (.scheduler, .run .scheduler)]
    ++ connection.calls.map fun call => (.call call.id, .run (.call call.id))

def perform (actor : Actor) (outcome : Connection × List Event) (bench : Bench) : Bench :=
  let (connection, events) := outcome
  events.foldl (fun bench event => bench.observe event)
    { bench with connection, active := actor }

/-- A step of the connection under the clock of the bench. -/
def step (action : Action) (bench : Bench) : Option (Connection × List Event) :=
  bench.connection.stepWithin bench.uptime action

/-- The bench after one action, if one is possible now. -/
def next? (bench : Bench) : Option Bench :=
  match bench.transportAction? with
  | some (memory, action) =>
    let owner := bench.connection.linkLock.holder.getD bench.active
    (bench.step action).map fun outcome =>
      { bench with memory }.perform owner outcome
  | none =>
    bench.choices.findSome? fun (actor, action) =>
      (bench.step action).map fun outcome => bench.perform actor outcome

def setClock (now : Instant) (bench : Bench) : Bench :=
  { bench with connection := { bench.connection with now } }

/-- Lets everything happen that can happen up to an instant, in at most `fuel` actions and moves of
the clock. -/
def runUntil : (fuel : Nat) → (stop : Instant) → Bench → Bench
  | 0, _, bench => bench
  | fuel + 1, stop, bench =>
    match bench.next? with
    | some bench => runUntil fuel stop bench
    | none =>
      match bench.nextWake? with
      | some wake =>
        if bench.connection.now < wake ∧ wake ≤ stop then runUntil fuel stop (bench.setClock wake)
        else bench.setClock stop
      | none => bench.setClock stop

/-- More than any session needs. -/
def patience : Nat := 1000000000

def settle (bench : Bench) : Bench := bench.runUntil patience bench.connection.now

/-- An action from outside; where it is not possible, nothing happens. -/
def act (actor : Actor) (action : Action) (bench : Bench) : Bench :=
  match bench.step action with
  | some outcome => (bench.perform actor outcome).settle
  | none => bench

def isWriting (step : Nat) (bench : Bench) : Bool :=
  (bench.connection.call? step).any (·.phase.isWrite)

/-- A step of a session; a call is known by the number of its step. -/
def take (number : Nat) (step : SessionStep) (bench : Bench) : Bench :=
  match step with
  | .advance duration => bench.runUntil patience (bench.connection.now + duration)
  | .poke unit registerClass start values =>
    { bench with memory := bench.memory.store unit registerClass start values }
  | .replies items => { bench with replies := bench.replies ++ items }
  | .opens items => { bench with opens := bench.opens ++ items }
  | .call request => bench.act (.call number) (.start number request)
  | .abort other =>
    if bench.isWriting other then bench.act bench.active (.cancel other) else bench
  | .drop => bench.act bench.active .dropHandle

/-- What was observed in a step, and the time after it. -/
structure Report where
  now : Instant
  events : List (Instant × Event)

def report (bench : Bench) : Report × Bench :=
  (⟨bench.connection.now, bench.record.reverse⟩, { bench with record := [] })

def takeAll : (number : Nat) → List SessionStep → Bench → List Report
  | _, [], _ => []
  | number, step :: rest, bench =>
    let (report, bench) := (bench.take number step).report
    report :: takeAll (number + 1) rest bench

end Bench

/-- A bench before its first step, with the events of the setup. -/
def Bench.create (settings : ConnectionSettings) (codec : ValueCodec) (points : List Point)
    (opens replies : List ScriptItem) (sampleDelay : Nanoseconds) : Bench :=
  let (connection, events) := Connection.create settings codec points
  { connection, opens, replies, sampleDelay,
    record := (events.map fun event => (0, event)).reverse }

/-- The reports of a session: one of the start and one of each step. -/
def Bench.runSession (bench : Bench) (steps : List SessionStep) : List Bench.Report :=
  let (report, bench) := bench.settle.report
  report :: bench.takeAll 0 steps

/-- A codec that cannot decode the points with some names. -/
def ValueCodec.without (names : List String) (codec : ValueCodec) : ValueCodec :=
  { codec with
    decode := fun point values =>
      if names.contains point.name then .error (.insufficientValues point.quantity.toNat 0)
      else codec.decode point values }

end Fieldbus
