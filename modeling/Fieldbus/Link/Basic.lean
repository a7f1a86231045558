import Fieldbus.Event
import Fieldbus.Settings.Basic

/-!
# Links

A link runs one transaction at a time over a transport: it opens the transport if necessary, keeps
a minimum interval after the last exchange, bounds the wait for an answer, and closes the transport
after an error.  A transaction is a sequence of stages; between two of them the link waits for its
transport or for the clock.
-/

namespace Fieldbus

structure Link where
  timeout : Nanoseconds
  minInterval : Nanoseconds
  keepAlive : Bool
  decode : DecodeLevel
  isOpen : Bool := false
  /-- The end of the last exchange, however it ended. -/
  lastExchangeEnd : Option Instant := none
  state : LinkState := .closed
  deriving DecidableEq, Repr

/-- What a transaction waits for. -/
inductive Stage where
  | opening (since : Instant)
  | spacing (stop : Instant)
  | exchanging (since : Instant)
  deriving DecidableEq, Repr

/-- A transaction under way. -/
structure Transaction where
  request : Request
  stage : Stage
  deriving DecidableEq, Repr

inductive Progress where
  | waiting (stage : Stage)
  | finished (result : Except RequestError Response)

namespace Link

def ofSettings (settings : LinkSettings) (decode : DecodeLevel) : Link :=
  { timeout := settings.timeout, minInterval := settings.minInterval,
    keepAlive := settings.keepAlive, decode }

/-- Observers hear of a state only when it differs from the last one. -/
def changeState (state : LinkState) (link : Link) : Link × List Event :=
  if link.state = state then (link, []) else ({ link with state }, [.linkChanges state])

def close (link : Link) : Link × List Event :=
  if link.isOpen then
    let (link, events) := { link with isOpen := false }.changeState .closed
    (link, .transportCloses :: events)
  else (link, [])

def shutdown (link : Link) : Link × List Event :=
  let (link, closing) := link.close
  let (link, changing) := link.changeState .shutdown
  (link, closing ++ changing)

/-- The end of a transaction.  The transport stays open only after a success, and only if it is to
be kept. -/
def conclude (result : Except RequestError Response) (link : Link) :
    Link × List Event × Progress :=
  match result with
  | .ok _ =>
    let (link, events) := if link.keepAlive then (link, []) else link.close
    (link, events, .finished result)
  | .error error =>
    let (link, events) := link.close
    (link, .noticed (.transactionFailed error) :: events, .finished result)

def beginExchange (now : Instant) (request : Request) (link : Link) :
    Link × List Event × Progress :=
  let sent : List Event :=
    if link.decode.app.showsHeader then [.noticed (.sent request link.decode.app.showsValues)]
    else []
  (link, sent ++ [.exchangeStarts request], .waiting (.exchanging now))

/-- The earliest start of the next exchange. -/
def nextExchangeAt? (link : Link) : Option Instant :=
  link.lastExchangeEnd.map (· + link.minInterval)

/-- Starts the exchange as soon as the minimum interval has passed. -/
def space (now : Instant) (request : Request) (link : Link) : Link × List Event × Progress :=
  match link.nextExchangeAt? with
  | some next =>
    if now < next then (link, [], .waiting (.spacing next))
    else link.beginExchange now request
  | none => link.beginExchange now request

/-- Starts a transaction.  An invalid request leaves the transport alone. -/
def begin (now : Instant) (request : Request) (link : Link) : Link × List Event × Progress :=
  match request.validate with
  | .error error => (link, [], .finished (.error (.badRequest error)))
  | .ok _ =>
    if link.isOpen then link.space now request
    else (link, [.transportOpens], .waiting (.opening now))

/-- The transport has opened, or failed to.  A failure of any other kind counts as one of
opening. -/
def opened (now : Instant) (request : Request) (result : Except RequestError Unit) (link : Link) :
    Link × List Event × Progress :=
  match result with
  | .ok _ =>
    let (link, changing) := { link with isOpen := true }.changeState .opened
    let (link, events, progress) := link.space now request
    (link, changing ++ events, progress)
  | .error error =>
    let (link, changing) := link.changeState .openFailed
    let (noticing, error) : List Event × RequestError :=
      if error.isOpenFailure then ([], error)
      else ([.noticed (.strangeOpenError error)], .openFailed .other)
    let (link, events, progress) := link.conclude (.error error)
    (link, .transportCloses :: changing ++ noticing ++ events, progress)

/-- The exchange has ended. -/
def exchanged (now : Instant) (request : Request) (result : Except RequestError Response)
    (link : Link) : Link × List Event × Progress :=
  let link := { link with lastExchangeEnd := some now }
  let checked : Except RequestError Response := do
    match (← result).check request with
    | .ok response => return response
    | .error error => throw (.badResponse error)
  match checked with
  | .ok response =>
    let received : List Event :=
      if link.decode.app.showsHeader then
        [.noticed (.received response link.decode.app.showsValues)]
      else []
    let (link, events, progress) := link.conclude (.ok response)
    (link, received ++ events, progress)
  | .error error => link.conclude (.error error)

/-- When the link stops to wait.  The limit on an answer is a timeout of the asynchronous runtime,
which documents that the wait does not end before its deadline and that an answer which is there
counts, even after the deadline, unless the end of the wait has been noticed first. -/
def deadline (stage : Stage) (link : Link) : Instant :=
  match stage with
  | .opening since => since + link.timeout
  | .spacing stop => stop
  | .exchanging since => since + link.timeout

/-- The wait has ended without an answer. -/
def expired (now : Instant) (transaction : Transaction) (link : Link) :
    Link × List Event × Progress :=
  match transaction.stage with
  | .opening _ => link.opened now transaction.request (.error (.openFailed .timedOut))
  | .spacing _ => link.beginExchange now transaction.request
  | .exchanging _ => link.exchanged now transaction.request (.error .responseTimeout)

end Link

end Fieldbus
