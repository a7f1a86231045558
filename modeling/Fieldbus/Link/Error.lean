import Fieldbus.Register.Address
import Fieldbus.Register.RegisterClass

/-!
# Errors of a link

Why a request is not sent, why a response is not accepted, and how a transaction ends without one.
-/

namespace Fieldbus

inductive InvalidRequest where
  | badRange (error : RangeError)
  | emptyWrite
  | unsupportedClass (registerClass : RegisterClass)
  deriving DecidableEq, Repr

namespace InvalidRequest

def message : InvalidRequest → String
  | badRange error => error.message
  | emptyWrite => "write request contains no values"
  | unsupportedClass registerClass => s!"{registerClass.name} does not support this operation"

end InvalidRequest

inductive ResponseError where
  | kindMismatch
  | countMismatch (expected actual : Nat)
  deriving DecidableEq, Repr

namespace ResponseError

def message : ResponseError → String
  | kindMismatch => "response kind does not match the request"
  | countMismatch expected actual => s!"expected {expected} values but received {actual}"

end ResponseError

/-- What an operating system reports about a channel. -/
inductive ChannelFault where
  | notFound
  | permissionDenied
  | connectionRefused
  | connectionReset
  | connectionAborted
  | notConnected
  | addressInUse
  | brokenPipe
  | invalidInput
  | timedOut
  | interrupted
  | unexpectedEof
  | other
  deriving DecidableEq, Repr

namespace ChannelFault

def text : ChannelFault → String
  | notFound => "entity not found"
  | permissionDenied => "permission denied"
  | connectionRefused => "connection refused"
  | connectionReset => "connection reset"
  | connectionAborted => "connection aborted"
  | notConnected => "not connected"
  | addressInUse => "address in use"
  | brokenPipe => "broken pipe"
  | invalidInput => "invalid input parameter"
  | timedOut => "timed out"
  | interrupted => "operation interrupted"
  | unexpectedEof => "unexpected end of file"
  | other => "other error"

end ChannelFault

inductive RequestError where
  /-- The transport could not be opened. -/
  | openFailed (fault : ChannelFault)
  | io (fault : ChannelFault)
  | responseTimeout
  /-- The device refused the request. -/
  | exception (code : UInt8)
  | badFrame (text : String)
  | badResponse (error : ResponseError)
  | badRequest (error : InvalidRequest)
  /-- The link is closing. -/
  | closed
  /-- The connection has ended. -/
  | shutdown
  deriving DecidableEq, Repr

namespace RequestError

def message : RequestError → String
  | openFailed fault => s!"unable to open the link: {fault.text}"
  | io fault => s!"i/o error: {fault.text}"
  | responseTimeout => "timeout occurred before receiving a response from the device"
  | exception code => s!"device replied with exception code 0x{Text.hexByte code}"
  | badFrame text => s!"bad frame: {text}"
  | badResponse error => s!"bad response: {error.message}"
  | badRequest error => s!"bad request: {error.message}"
  | closed => "the link is closing"
  | shutdown => "the connection task has shut down"

/-- The channel is at fault, so another attempt may succeed.  An exception is an answer, and a link
that closes stays closed. -/
def isTransport : RequestError → Bool
  | openFailed _ | io _ | responseTimeout | badFrame _ | badResponse _ => true
  | exception _ | badRequest _ | closed | shutdown => false

def isOpenFailure : RequestError → Bool
  | openFailed _ => true
  | _ => false

/-- The connection ends, which says nothing about the device. -/
def isEnding : RequestError → Bool
  | closed | shutdown => true
  | _ => false

end RequestError

end Fieldbus
