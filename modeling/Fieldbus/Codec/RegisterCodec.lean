import Fieldbus.Codec.Field
import Fieldbus.Codec.Number
import Fieldbus.Codec.Text

/-!
# The register codec

A codec turns wire values into point values and back.  The standard one reads registers as
big-endian words with the high word first; `byteSwap` exchanges the bytes of each register,
`wordSwap` reverses the registers of a number, and a scale divides what is read and multiplies what
is written.
-/

namespace Fieldbus

structure ValueCodec where
  decode : Point → WireValues → Except DecodeError PointValue
  /-- A bit field is merged into the current value of its register. -/
  encode : Point → PointValue → (current : Option UInt16) → Except EncodingError WireValues

namespace Codec

/-- The signed number with the given residue. -/
def signed (width value : Nat) : PointValue := .int (Int64.ofInt (Int.bmod value (1 <<< width)))

def unsigned (value : Nat) : PointValue :=
  if value ≤ maxInt64 then .int (Int64.ofInt value) else .float (Double.ofNat value)

/-- The number in a register or its bit field. -/
def decodeRegister (rawType : RawType) (bits : Option BitField) (word : UInt16) :
    Except DecodeError PointValue :=
  match bits with
  | some field =>
    match field.extract? word with
    | some value => .ok (unsigned value.toNat)
    | none => .error .fieldOutsideRegister
  | none => .ok (if rawType = .int16 then signed 16 word.toNat else unsigned word.toNat)

/-- The value of registers whose bytes are in order. -/
def decodeWords (point : Point) (words : List UInt16) : Except DecodeError PointValue :=
  let value := Words.value (Words.orderWords point.wordSwap words)
  let scaled := divideBy point.scale
  match point.rawType with
  | .string _ => .ok (decodeText words)
  | .bool => .ok (.bool (value != 0))
  | .uint16 | .int16 =>
    (decodeRegister point.rawType point.bits (UInt16.ofNat value)).map scaled
  | .uint32 | .uint64 => .ok (scaled (unsigned value))
  | .int32 => .ok (scaled (signed 32 value))
  | .int64 => .ok (scaled (signed 64 value))
  | .float32 => .ok (scaled (.float (Double.ofSingleBits (UInt32.ofNat value))))
  | .float64 => .ok (scaled (.float ⟨UInt64.ofNat value⟩))

def decode (point : Point) (values : WireValues) : Except DecodeError PointValue :=
  let required := point.quantity.toNat
  if values.length < required then
    .error (.insufficientValues required values.length)
  else
    match values with
    | .bits bits =>
      if !point.registerClass.isBit then .error (.classMismatch point.registerClass)
      else
        match bits with
        | first :: _ => .ok (.bool first)
        | [] => .error (.insufficientValues required 0)
    | .words words =>
      if point.registerClass.isBit then .error (.classMismatch point.registerClass)
      else decodeWords point (Words.orderBytes point.byteSwap (words.take required))

/-- The register that a bit field is written to. -/
def encodeField (point : Point) (field : BitField) (value : PointValue)
    (current : Option UInt16) : Except EncodingError UInt16 := do
  let some current := current | throw .missingCurrentValue
  let current := if point.byteSwap then Words.swapBytes current else current
  let number ← toInteger point.rawType (← unscaled point.scale value)
  if number < 0 ∨ field.maxValue < number then
    throw (.bitFieldOverflow (Int64.ofInt number) field.length)
  let some merged := field.merge? current (UInt16.ofNat number.toNat)
    | throw .fieldOutsideRegister
  return if point.byteSwap then Words.swapBytes merged else merged

/-- The pattern of a number in the registers of its type. -/
def encodeNumber (point : Point) (value : PointValue) : Except EncodingError Nat := do
  let rawType := point.rawType
  match rawType with
  | .bool => return if ← toBool rawType value then 1 else 0
  | .float32 =>
    let number ← toDouble rawType (← unscaled point.scale value)
    if number.exceedsSingle then
      throw (.outOfRange rawType number.text)
    return number.toSingleBits.toNat
  | .float64 =>
    let number ← toDouble rawType (← unscaled point.scale value)
    return number.bits.toNat
  | _ =>
    let number ← toInteger rawType (← unscaled point.scale value)
    match integerBounds? rawType with
    | some bounds =>
      let number ← inBounds rawType bounds number
      return (number % (Nat.pow UInt16.size rawType.registers.toNat : Nat)).toNat
    | none => throw (.typeMismatch rawType value.kind)

def encode (point : Point) (value : PointValue) (current : Option UInt16) :
    Except EncodingError WireValues := do
  if point.registerClass.isBit then
    return .bits [← toBool point.rawType value]
  match point.bits, point.rawType with
  | some field, _ => return .words [← encodeField point field value current]
  | none, .string registers =>
    return .words (Words.orderBytes point.byteSwap (← encodeText value registers))
  | none, _ =>
    let pattern ← encodeNumber point value
    let words := Words.ofValue point.rawType.registers.toNat pattern
    return .words (Words.orderBytes point.byteSwap (Words.orderWords point.wordSwap words))

def registerCodec : ValueCodec := { decode, encode }

end Codec

end Fieldbus
