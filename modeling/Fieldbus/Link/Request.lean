import Fieldbus.Link.Error
import Fieldbus.Register.Value

/-!
# Requests and responses

One transaction of a link: a block of addresses to read or to write, and the answer.
-/

namespace Fieldbus

structure ReadRequest where
  unit : UnitId
  registerClass : RegisterClass
  range : AddressRange
  deriving DecidableEq, Repr

structure WriteRequest where
  unit : UnitId
  registerClass : RegisterClass
  start : UInt16
  values : WireValues
  deriving DecidableEq, Repr

inductive Request where
  | read (request : ReadRequest)
  | write (request : WriteRequest)
  deriving DecidableEq, Repr

inductive Response where
  | bits (values : List Bool)
  | registers (values : List UInt16)
  | written
  deriving DecidableEq, Repr

namespace WriteRequest

/-- The addresses that the write covers. -/
def range (request : WriteRequest) : Except InvalidRequest AddressRange :=
  let length := request.values.length
  if UInt16.size ≤ length then .error (.badRange (.addressOverflow request.start 65535))
  else
    match AddressRange.ofCount request.start (UInt16.ofNat length) with
    | .ok range => .ok range
    | .error error => .error (.badRange error)

/-- The class stores values of this kind. -/
def kindMatches (request : WriteRequest) : Bool :=
  match request.values with
  | .bits _ => request.registerClass == .coil
  | .words _ => request.registerClass == .holdingRegister

def validate (request : WriteRequest) : Except InvalidRequest Unit := do
  if request.values.length = 0 then
    throw .emptyWrite
  if !request.kindMatches then
    throw (.unsupportedClass request.registerClass)
  let _ ← request.range

end WriteRequest

namespace Request

def unit : Request → UnitId
  | read request => request.unit
  | write request => request.unit

def registerClass : Request → RegisterClass
  | read request => request.registerClass
  | write request => request.registerClass

def validate : Request → Except InvalidRequest Unit
  | read _ => .ok ()
  | write request => request.validate

end Request

namespace Response

/-- Accepts a response to a request.  Devices pad the bits of a read, so more bits than requested
are cut off. -/
def check (response : Response) (request : Request) : Except ResponseError Response :=
  match request, response with
  | .read request, .bits values =>
    let expected := request.range.count.toNat
    if !request.registerClass.isBit then .error .kindMismatch
    else if values.length < expected then .error (.countMismatch expected values.length)
    else .ok (.bits (values.take expected))
  | .read request, .registers values =>
    let expected := request.range.count.toNat
    if request.registerClass.isBit then .error .kindMismatch
    else if values.length ≠ expected then .error (.countMismatch expected values.length)
    else .ok (.registers values)
  | .write _, .written => .ok .written
  | _, _ => .error .kindMismatch

def values : Response → WireValues
  | bits values => .bits values
  | registers values => .words values
  | written => .words []

/-- The values of at most `count` addresses from `offset` on. -/
def slice (response : Response) (offset count : Nat) : WireValues :=
  response.values.slice offset count

end Response

/-- Values on lines of their own, each with its place. -/
def WireValues.lines (values : WireValues) : String :=
  String.join (values.display.zipIdx.map fun (value, place) => s!"\n[{place}] {value}")

namespace Request

def text (withValues : Bool) : Request → String
  | read request =>
    s!"READ {request.registerClass.name} unit: {request.unit.text} {request.range.text}"
  | write request =>
    s!"WRITE {request.registerClass.name} unit: {request.unit.text} "
      ++ s!"start: {Text.hexWord request.start} qty: {request.values.length}"
      ++ (if withValues then request.values.lines else "")

end Request

namespace Response

def text (withValues : Bool) (response : Response) : String :=
  let lines := if withValues then response.values.lines else ""
  match response with
  | bits values => s!"BITS qty: {values.length}" ++ lines
  | registers values => s!"REGISTERS qty: {values.length}" ++ lines
  | written => "WRITTEN"

end Response

end Fieldbus
