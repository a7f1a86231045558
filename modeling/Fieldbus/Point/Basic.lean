import Fieldbus.Binary.Double
import Fieldbus.Register.Address
import Fieldbus.Register.RawType
import Fieldbus.Register.RegisterClass
import Fieldbus.Time

/-!
# Points

A point is one logical value of a device.  How many addresses it occupies follows from its class
and its wire type.  `Point.validate` checks what the fields alone cannot express.
-/

namespace Fieldbus

structure DeviceId where
  name : String
  deriving DecidableEq, Repr

/-- Some bits of a 16-bit register, counted from the least significant one. -/
structure BitField where
  offset : UInt8
  length : UInt8
  deriving DecidableEq, Repr

namespace BitField

def stop (field : BitField) : Nat := field.offset.toNat + field.length.toNat

/-- The field has bits and lies inside a register. -/
def Fits (field : BitField) : Prop := 0 < field.length.toNat ∧ field.stop ≤ 16

instance (field : BitField) : Decidable field.Fits := inferInstanceAs (Decidable (_ ∧ _))

def disjoint (left right : BitField) : Bool :=
  left.stop ≤ right.offset.toNat || right.stop ≤ left.offset.toNat

end BitField

structure Point where
  device : DeviceId
  name : String
  unit : UnitId
  registerClass : RegisterClass
  address : UInt16
  rawType : RawType
  byteSwap : Bool
  wordSwap : Bool
  bits : Option BitField
  scale : Option Double
  period : Nanoseconds
  access : Access
  deriving DecidableEq, Repr

inductive PointError where
  | badAddress (text : String)
  | unknownRegisterClass (text : String)
  | unsupportedRawType (text : String)
  | unknownAccess (text : String)
  | badDuration (text : String)
  /-- A duration text leaves the accumulator of its total. -/
  | durationOverflow
  | rawTypeNotAllowed (registerClass : RegisterClass) (rawType : RawType)
  | badBitField (field : BitField) (rawType : RawType)
  | badQuantity (start quantity : UInt16)
  | badScale
  | missingName
  deriving DecidableEq, Repr

namespace PointError

def message : PointError → String
  | badAddress text => s!"invalid register address: {text}"
  | unknownRegisterClass text => s!"unknown register class: {text}"
  | unsupportedRawType text => s!"unsupported raw type: {text}"
  | unknownAccess text => s!"unknown access mode: {text}"
  | badDuration text => s!"invalid duration: {text}"
  | durationOverflow => "duration is too long"
  | rawTypeNotAllowed registerClass rawType =>
    s!"raw type {rawType.text} is not allowed for {registerClass.name}"
  | badBitField field rawType =>
    s!"invalid bit field (offset = {field.offset}, length = {field.length}) "
      ++ s!"for raw type {rawType.text}"
  | badQuantity start quantity =>
    s!"start == {start} and quantity == {quantity} do not describe a valid register range"
  | badScale => "scale must be a finite non-zero number"
  | missingName => "point is missing a device id or name"

end PointError

namespace Point

/-- The polling period of a point that has none of its own. -/
def defaultPeriod : Nanoseconds := second

def quantity (point : Point) : UInt16 :=
  if point.registerClass.isBit then 1 else point.rawType.registers

def range (point : Point) : Except PointError AddressRange :=
  match AddressRange.ofCount point.address point.quantity with
  | .ok range => .ok range
  | .error _ => .error (.badQuantity point.address point.quantity)

def checkBits (point : Point) : Except PointError Unit :=
  match point.bits with
  | none => .ok ()
  | some field =>
    if !point.registerClass.isBit && point.rawType.is16Bit && decide field.Fits then .ok ()
    else .error (.badBitField field point.rawType)

def checkScale (point : Point) : Except PointError Unit :=
  match point.scale with
  | none => .ok ()
  | some scale => if scale.isFinite && !scale.isZero then .ok () else .error .badScale

def validate (point : Point) : Except PointError Unit := do
  if point.device.name.isEmpty || point.name.isEmpty then
    throw .missingName
  if point.registerClass.isBit && point.rawType.isString then
    throw (.rawTypeNotAllowed point.registerClass point.rawType)
  let _ ← point.range
  point.checkBits
  point.checkScale
  if point.period = 0 then
    throw (.badDuration "0s")

def Valid (point : Point) : Prop := point.validate = .ok ()

instance (point : Point) : Decidable point.Valid :=
  match h : point.validate with
  | .ok () => .isTrue h
  | .error _ => .isFalse (by simp [Valid, h])

theorem range_eq_ok_iff {point : Point} {range : AddressRange} :
    point.range = .ok range ↔ range = ⟨point.address, point.quantity⟩ ∧ range.Valid := by
  rw [← AddressRange.ofCount_eq_ok_iff]
  unfold Point.range
  split <;> simp_all

end Point

end Fieldbus
