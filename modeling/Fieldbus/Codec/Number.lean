import Fieldbus.Codec.Error
import Fieldbus.Register.Value
import Fieldbus.Text.Blank

/-!
# Numbers of written values

How the value of a write becomes a truth value, an integer or a double.  Text is read as a number
first, and the divisor of a scaled point is undone by a multiplication of doubles.
-/

namespace Fieldbus.Codec

open Text

def maxInt64 : Nat := Int64.maxValue.toInt.toNat

/-- An integer of 64 bits if the text is one, else the nearest double. -/
def parseNumber (text : String) : Except EncodingError PointValue :=
  let trimmed := trim text.toList
  match signed? maxInt64 trimmed with
  | some value => .ok (.int (Int64.ofInt value))
  | none =>
    match Double.ofText? trimmed with
    | some value => .ok (.float value)
    | none => .error (.notANumber (String.ofList trimmed))

def scaleBy (scale : Option Double) (value : PointValue) : PointValue :=
  match scale, value with
  | some scale, .int value => .float (Double.mul (Double.ofInt value.toInt) scale)
  | some scale, .float value => .float (Double.mul value scale)
  | _, value => value

def divideBy (scale : Option Double) (value : PointValue) : PointValue :=
  match scale, value with
  | some scale, .int value => .float (Double.div (Double.ofInt value.toInt) scale)
  | some scale, .float value => .float (Double.div value scale)
  | _, value => value

/-- The number that a written value denotes, without the scale of the point. -/
def unscaled (scale : Option Double) : PointValue → Except EncodingError PointValue
  | .text text => do return scaleBy scale (← parseNumber text)
  | value => .ok (scaleBy scale value)

def toBool (rawType : RawType) : PointValue → Except EncodingError Bool
  | .bool value => .ok value
  | .int value => .ok (value != 0)
  | .float value => .ok (!value.isZero)
  | .text text =>
    let word := String.ofList ((trim text.toList).map Char.toLower)
    if ["true", "on", "1"].contains word then .ok true
    else if ["false", "off", "0"].contains word then .ok false
    else .error (.notANumber text)
  | value@(.bytes _) => .error (.typeMismatch rawType value.kind)

/-- The nearest number of a signed 128-bit accumulator. -/
def saturate (value : Int) : Int :=
  let limit : Int := 1 <<< 127
  max (-limit) (min value (limit - 1))

def toInteger (rawType : RawType) : PointValue → Except EncodingError Int
  | .bool value => .ok (if value then 1 else 0)
  | .int value => .ok value.toInt
  | .float value =>
    match value.toInt? with
    | some integer => .ok (saturate integer)
    | none => .error (.outOfRange rawType value.text)
  | other => .error (.typeMismatch rawType other.kind)

def toDouble (rawType : RawType) : PointValue → Except EncodingError Double
  | .bool value => .ok (Double.ofNat (if value then 1 else 0))
  | .int value => .ok (Double.ofInt value.toInt)
  | .float value => .ok value
  | other => .error (.typeMismatch rawType other.kind)

/-- The integers that a type of this kind holds. -/
def integerBounds? : RawType → Option (Int × Int)
  | .uint16 => some (0, UInt16.size - 1)
  | .int16 => some (Int16.minValue.toInt, Int16.maxValue.toInt)
  | .uint32 => some (0, UInt32.size - 1)
  | .int32 => some (Int32.minValue.toInt, Int32.maxValue.toInt)
  | .uint64 => some (0, UInt64.size - 1)
  | .int64 => some (Int64.minValue.toInt, Int64.maxValue.toInt)
  | .bool | .float32 | .float64 | .string _ => none

def inBounds (rawType : RawType) (bounds : Int × Int) (value : Int) : Except EncodingError Int :=
  if bounds.1 ≤ value ∧ value ≤ bounds.2 then .ok value
  else .error (.outOfRange rawType (toString value))

end Fieldbus.Codec
