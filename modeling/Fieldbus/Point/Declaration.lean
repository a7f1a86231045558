import Fieldbus.Point.AddressText
import Fieldbus.Point.DurationText

/-!
# Declarations of points

The textual form in which a configuration describes a point, and the point that it declares.
-/

namespace Fieldbus

inductive StartAddress where
  | number (address : UInt16)
  | text (written : String)
  deriving DecidableEq, Repr

namespace StartAddress

def resolve : StartAddress → Except PointError UInt16
  | number address => .ok address
  | text written => AddressText.parse written

end StartAddress

/-- The fields of a point as they are written down.  A field that is not given has the value that
stands here. -/
structure PointDeclaration where
  deviceId : String := ""
  name : String := ""
  unitId : UInt8 := 0
  startAddress : StartAddress := .text ""
  registerClass : String := ""
  rawType : String := ""
  /-- The register count of a string; other types ignore it. -/
  quantity : Option UInt16 := none
  bit : Option UInt8 := none
  /-- The length of a bit field; there is none without a length. -/
  bitLength : Option UInt8 := none
  byteSwap : Bool := false
  wordSwap : Bool := false
  scale : Option Double := none
  duration : Option String := none
  access : Option String := none
  deriving DecidableEq, Repr

namespace RegisterClass

def parse (text : String) : Except PointError RegisterClass :=
  match ofText? text with
  | some registerClass => .ok registerClass
  | none => .error (.unknownRegisterClass text)

end RegisterClass

namespace RawType

def parse (text : String) (stringRegisters : Option UInt16) : Except PointError RawType :=
  match ofText? text stringRegisters with
  | some rawType => .ok rawType
  | none => .error (.unsupportedRawType text)

end RawType

namespace Access

def parse (text : String) : Except PointError Access :=
  match ofText? text with
  | some access => .ok access
  | none => .error (.unknownAccess text)

end Access

namespace PointDeclaration

def period (declaration : PointDeclaration) : Except PointError Nanoseconds :=
  match declaration.duration with
  | none => .ok Point.defaultPeriod
  | some text => DurationText.parse text

def accessMode (declaration : PointDeclaration) : Except PointError Access :=
  match declaration.access with
  | none => .ok .readWrite
  | some text => if text.isEmpty then .ok .readWrite else Access.parse text

def bits (declaration : PointDeclaration) : Option BitField :=
  match declaration.bitLength with
  | none => none
  | some length => if length = 0 then none else some ⟨declaration.bit.getD 0, length⟩

/-- The declared point, if every field can be read and the point is valid. -/
def toPoint (declaration : PointDeclaration) : Except PointError Point := do
  let address ← declaration.startAddress.resolve
  let registerClass ← RegisterClass.parse declaration.registerClass
  let rawType ← RawType.parse declaration.rawType declaration.quantity
  let period ← declaration.period
  let access ← declaration.accessMode
  let point : Point :=
    { device := ⟨declaration.deviceId⟩, name := declaration.name, unit := ⟨declaration.unitId⟩,
      registerClass, address, rawType, byteSwap := declaration.byteSwap,
      wordSwap := declaration.wordSwap, bits := declaration.bits, scale := declaration.scale,
      period, access }
  point.validate
  return point

end PointDeclaration

end Fieldbus
