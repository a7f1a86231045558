import Fieldbus.Codec.RegisterCodec
import Fieldbus.Link.Request

/-!
# Write plans

A write names points of one device with new values.  Its plan is the list of commands that go over
the link: every value encoded, sorted by unit, class and address, and neighbouring holding
registers merged up to a span.
-/

namespace Fieldbus

structure PointWrite where
  name : String
  value : PointValue
  deriving DecidableEq, Repr

inductive WriteError where
  | empty
  | unknownPoint (device : DeviceId) (point : String)
  | notWritable (point : String)
  | unsupportedRegisterClass (registerClass : RegisterClass)
  | encoding (error : EncodingError)
  /-- The transaction of these addresses failed on its last attempt. -/
  | request (range : AddressRange) (error : RequestError)
  | closed
  deriving DecidableEq, Repr

namespace WriteError

def message : WriteError → String
  | empty => "write request contains no points"
  | unknownPoint device point => s!"device {device.name} has no point named {point}"
  | notWritable point => s!"point {point} is read-only"
  | unsupportedRegisterClass registerClass =>
    s!"unsupported write register class: {registerClass.name}"
  | encoding error => s!"encoding error: {error.message}"
  | request range error => s!"write to {range.text} failed: {error.message}"
  | closed => "the connection is closed"

end WriteError

/-- One write on the link. -/
structure WriteCommand where
  unit : UnitId
  registerClass : RegisterClass
  start : UInt16
  values : WireValues
  points : List String
  /-- A bit field is encoded anew once its register has been read. -/
  field : Option (Point × PointValue)
  deriving DecidableEq, Repr

namespace WriteCommand

/-- One past the last address. -/
def stop (command : WriteCommand) : Nat := command.start.toNat + command.values.length

def range (command : WriteCommand) : AddressRange :=
  ⟨command.start, UInt16.ofNat command.values.length⟩

/-- The order of commands: by unit, then class, then address. -/
def precedes (left right : WriteCommand) : Bool :=
  let key (command : WriteCommand) : Nat :=
    (command.unit.value.toNat * 4 + command.registerClass.rank) * AddressRange.spaceSize
      + command.start.toNat
  key left ≤ key right

def canMerge (maxSpan : Nat) (left right : WriteCommand) : Bool :=
  match left.values, right.values with
  | .words leftWords, .words rightWords =>
    left.registerClass == .holdingRegister && right.registerClass == .holdingRegister &&
      left.unit == right.unit && left.field.isNone && right.field.isNone &&
      left.stop == right.start.toNat && leftWords.length + rightWords.length ≤ maxSpan
  | _, _ => false

def merge (left right : WriteCommand) : WriteCommand :=
  let values := match left.values, right.values with
    | .words leftWords, .words rightWords => .words (leftWords ++ rightWords)
    | values, _ => values
  { left with values, points := left.points ++ right.points }

/-- Merges neighbours in a sorted list, from its start. -/
def mergeFrom (maxSpan : Nat) (current : WriteCommand) : List WriteCommand → List WriteCommand
  | [] => [current]
  | next :: rest =>
    if current.canMerge maxSpan next then mergeFrom maxSpan (current.merge next) rest
    else current :: mergeFrom maxSpan next rest

def mergeAll (maxSpan : Nat) : List WriteCommand → List WriteCommand
  | [] => []
  | first :: rest => mergeFrom maxSpan first rest

def readRequest (command : WriteCommand) : ReadRequest :=
  ⟨command.unit, .holdingRegister, ⟨command.start, 1⟩⟩

def writeRequest (command : WriteCommand) (values : WireValues) : WriteRequest :=
  ⟨command.unit, command.registerClass, command.start, values⟩

end WriteCommand

def findPoint? (points : List Point) (device : DeviceId) (name : String) : Option Point :=
  points.find? fun point => point.device == device && point.name == name

namespace PointWrite

/-- The command for one point, which is not sorted or merged yet. -/
def toCommand (codec : ValueCodec) (points : List Point) (device : DeviceId)
    (write : PointWrite) : Except WriteError WriteCommand := do
  let some point := findPoint? points device write.name
    | throw (.unknownPoint device write.name)
  if !point.access.isWritable then
    throw (.notWritable point.name)
  if !point.registerClass.isWritable then
    throw (.unsupportedRegisterClass point.registerClass)
  let values ← match codec.encode point write.value (point.bits.map fun _ => 0) with
    | .ok values => pure values
    | .error error => throw (.encoding error)
  return {
    unit := point.unit, registerClass := point.registerClass, start := point.address, values,
    points := [point.name], field := point.bits.map fun _ => (point, write.value) }

end PointWrite

/-- The commands of a write. -/
def planWrite (codec : ValueCodec) (points : List Point) (maxSpan : Nat) (device : DeviceId)
    (writes : List PointWrite) : Except WriteError (List WriteCommand) := do
  let commands ← writes.mapM (PointWrite.toCommand codec points device)
  return WriteCommand.mergeAll maxSpan (commands.mergeSort WriteCommand.precedes)

end Fieldbus
