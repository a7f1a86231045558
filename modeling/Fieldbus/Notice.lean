import Fieldbus.Link.Request
import Fieldbus.Polling.Group
import Fieldbus.Write.Plan

/-!
# Notices

What a connection writes into its log, by the part of it that speaks.
-/

namespace Fieldbus

inductive Severity where
  | debug
  | info
  | warn
  deriving DecidableEq, Repr

/-- The part of a connection that a notice comes from. -/
inductive NoticeSource where
  | setup
  | link
  | scheduler
  | writer
  deriving DecidableEq, Repr

inductive Notice where
  | pointDropped (point : Point) (error : PointError)
  | pointRepeated (point : Point)
  | pointsOverlap (first second : Point)
  | nothingToPoll (connection : String)
  | backoffOverflow (group failures : Nat)
  | deferred (group : Nat)
  | pollFailed (group : Nat) (range : AddressRange) (failures : Nat) (error : RequestError)
  | undecodable (point : Point) (error : DecodeError)
  | decoded (point : Point) (value : PointValue)
  | enabled
  | disabled
  | shutdown
  | writing (commands : Nat) (device : DeviceId)
  | writeRetried (points : List String) (attempt attempts : Nat) (error : RequestError)
  | sent (request : Request) (withValues : Bool)
  | received (response : Response) (withValues : Bool)
  | transactionFailed (error : RequestError)
  | strangeOpenError (error : RequestError)
  deriving DecidableEq, Repr

namespace Notice

def source : Notice → NoticeSource
  | pointDropped _ _ | pointRepeated _ | pointsOverlap _ _ | nothingToPoll _
  | backoffOverflow _ _ => .setup
  | deferred _ | pollFailed _ _ _ _ | undecodable _ _ | decoded _ _ | enabled | disabled
  | shutdown => .scheduler
  | writing _ _ | writeRetried _ _ _ _ => .writer
  | sent _ _ | received _ _ | transactionFailed _ | strangeOpenError _ => .link

def severity : Notice → Severity
  | deferred _ => .debug
  | decoded _ _ | enabled | disabled | shutdown | writing _ _ | sent _ _ | received _ _ => .info
  | pointDropped _ _ | pointRepeated _ | pointsOverlap _ _ | nothingToPoll _
  | backoffOverflow _ _ | pollFailed _ _ _ _ | undecodable _ _ | writeRetried _ _ _ _
  | transactionFailed _ | strangeOpenError _ => .warn

def text : Notice → String
  | pointDropped point error =>
    s!"dropping point {point.name} of device {point.device.name}: {error.message}"
  | pointRepeated point =>
    s!"device {point.device.name} declares point {point.name} more than once, keeping the first"
  | pointsOverlap first second =>
    s!"points {first.device.name}/{first.name} and {second.device.name}/{second.name} "
      ++ s!"decode overlapping registers on unit {first.unit.text}"
  | nothingToPoll connection => s!"{connection} has no readable points, only writes are served"
  | backoffOverflow group failures =>
    s!"{PollGroup.label group} backoff overflow after {failures} failures, resetting"
  | deferred group => s!"{PollGroup.label group} deferred by a write"
  | pollFailed group range failures error =>
    s!"{PollGroup.label group} ({range.text}) failed {failures} time(s) in a row: "
      ++ error.message
  | undecodable point error =>
    s!"unable to decode {point.name} of device {point.device.name}: {error.message}"
  | decoded point value => s!"{point.device.name}/{point.name} = {value.display}"
  | enabled => "connection enabled"
  | disabled => "connection disabled"
  | shutdown => "shutdown"
  | writing commands device => s!"writing {commands} command(s) to device {device.name}"
  | writeRetried points attempt attempts error =>
    let names := ", ".intercalate points
    s!"write of {names} failed on attempt {attempt} of {attempts}: {error.message}"
  | sent request withValues => "TX - " ++ request.text withValues
  | received response withValues => "RX - " ++ response.text withValues
  | transactionFailed error => s!"transaction failed: {error.message}"
  | strangeOpenError error => s!"transport reported {error.message} while opening"

end Notice

end Fieldbus
