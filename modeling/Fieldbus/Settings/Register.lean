import Fieldbus.Document.Basic
import Fieldbus.Point.Declaration
import Fieldbus.Register.Value

/-!
# Points and values in documents

How units, ranges, types, values and declarations of points are written in a document and read
back.
-/

namespace Fieldbus

open Document (slots? required? orElse? nullable? record)

namespace UnitId

def toDocument (unit : UnitId) : Document :=
  record [("value", .integer unit.value.toNat)]

def ofDocument? (document : Document) : Option UnitId := do
  let [value] ← document.slots? [["value"]] | none
  return ⟨← required? Document.byte? value⟩

end UnitId

namespace DeviceId

def toDocument (device : DeviceId) : Document := .text device.name

def ofDocument? (document : Document) : Option DeviceId := document.text?.map DeviceId.mk

end DeviceId

namespace AddressRange

def toDocument (range : AddressRange) : Document :=
  record [("start", .integer range.start.toNat), ("count", .integer range.count.toNat)]

/-- Any two words; whether they describe addresses is not checked. -/
def ofDocument? (document : Document) : Option AddressRange := do
  let [start, count] ← document.slots? [["start"], ["count"]] | none
  return ⟨← required? Document.word? start, ← required? Document.word? count⟩

end AddressRange

namespace BitField

def toDocument (field : BitField) : Document :=
  record [("offset", .integer field.offset.toNat), ("length", .integer field.length.toNat)]

def ofDocument? (document : Document) : Option BitField := do
  let [offset, length] ← document.slots? [["offset"], ["length"]] | none
  return ⟨← required? Document.byte? offset, ← required? Document.byte? length⟩

end BitField

namespace RegisterClass

def toDocument (registerClass : RegisterClass) : Document := .text registerClass.name

def ofDocument? (document : Document) : Option RegisterClass :=
  document.choice? (all.map fun registerClass => (registerClass.name, registerClass))

end RegisterClass

namespace RawType

/-- The types without a register count, each under its one name in a document. -/
def plain : List RawType :=
  [bool, uint16, int16, uint32, int32, float32, uint64, int64, float64]

def toDocument : RawType → Document
  | string registers => record [("string", .integer registers.toNat)]
  | rawType => .text rawType.text

def ofDocument? (document : Document) : Option RawType :=
  match document.tagged? with
  | some ("string", registers) => registers.word?.map string
  | _ => document.choice? (plain.map fun rawType => (rawType.text, rawType))

end RawType

namespace Access

def toDocument (access : Access) : Document := .text access.name

def ofDocument? (document : Document) : Option Access :=
  document.choice? ([read, write, readWrite].map fun access => (access.name, access))

end Access

namespace PointValue

def toDocument : PointValue → Document
  | bool value => .bool value
  | int value => .integer value.toInt
  | float value => .real value
  | text value => .text value
  | bytes value => .array (value.map fun byte => .integer byte.toNat)

/-- The first kind of value that the document fits. -/
def ofDocument? (document : Document) : Option PointValue :=
  (document.bool?.map bool).or <|
  (document.integer64?.map int).or <|
  (document.double?.map float).or <|
  (document.text?.map text).or <|
  (document.list? Document.byte?).map bytes

end PointValue

namespace StartAddress

def toDocument : StartAddress → Document
  | number address => .integer address.toNat
  | text written => .text written

def ofDocument? (document : Document) : Option StartAddress :=
  (document.word?.map number).or (document.text?.map text)

end StartAddress

namespace PointDeclaration

/-- The names of the fields. -/
def fieldNames : List (List String) :=
  [["deviceId"], ["name"], ["unitId"], ["startAddress"], ["registerClass", "registerType"],
   ["rawType"], ["quantity"], ["bit"], ["bitLen"], ["byteSwap"], ["wordSwap"], ["scale"],
   ["duration"], ["access"]]

def toDocument (declaration : PointDeclaration) : Document :=
  record [
    ("deviceId", .text declaration.deviceId), ("name", .text declaration.name),
    ("unitId", .integer declaration.unitId.toNat),
    ("startAddress", declaration.startAddress.toDocument),
    ("registerClass", .text declaration.registerClass), ("rawType", .text declaration.rawType),
    ("quantity", .optional (fun value : UInt16 => .integer value.toNat) declaration.quantity),
    ("bit", .optional (fun value : UInt8 => .integer value.toNat) declaration.bit),
    ("bitLen", .optional (fun value : UInt8 => .integer value.toNat) declaration.bitLength),
    ("byteSwap", .bool declaration.byteSwap), ("wordSwap", .bool declaration.wordSwap),
    ("scale", .optional .real declaration.scale),
    ("duration", .optional .text declaration.duration),
    ("access", .optional .text declaration.access)]

def ofDocument? (document : Document) : Option PointDeclaration := do
  let [deviceId, name, unitId, startAddress, registerClass, rawType, quantity, bit, bitLength,
      byteSwap, wordSwap, scale, duration, access] ← document.slots? fieldNames | none
  let initial : PointDeclaration := {}
  return {
    deviceId := ← orElse? initial.deviceId Document.text? deviceId
    name := ← orElse? initial.name Document.text? name
    unitId := ← orElse? initial.unitId Document.byte? unitId
    startAddress := ← orElse? initial.startAddress StartAddress.ofDocument? startAddress
    registerClass := ← orElse? initial.registerClass Document.text? registerClass
    rawType := ← orElse? initial.rawType Document.text? rawType
    quantity := ← orElse? initial.quantity (nullable? Document.word?) quantity
    bit := ← orElse? initial.bit (nullable? Document.byte?) bit
    bitLength := ← orElse? initial.bitLength (nullable? Document.byte?) bitLength
    byteSwap := ← orElse? initial.byteSwap Document.bool? byteSwap
    wordSwap := ← orElse? initial.wordSwap Document.bool? wordSwap
    scale := ← orElse? initial.scale (nullable? Document.double?) scale
    duration := ← orElse? initial.duration (nullable? Document.text?) duration
    access := ← orElse? initial.access (nullable? Document.text?) access }

end PointDeclaration

end Fieldbus
