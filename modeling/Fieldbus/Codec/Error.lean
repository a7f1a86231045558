import Fieldbus.Register.RawType
import Fieldbus.Register.RegisterClass

/-!
# What can go wrong between wire values and point values
-/

namespace Fieldbus

inductive DecodeError where
  | insufficientValues (required available : Nat)
  | classMismatch (registerClass : RegisterClass)
  /-- The bit field is so far outside the register that no mask exists for it. -/
  | fieldOutsideRegister
  deriving DecidableEq, Repr

namespace DecodeError

def message : DecodeError → String
  | insufficientValues required available =>
    s!"point requires {required} values but only {available} are available"
  | classMismatch registerClass =>
    s!"wire values do not match the register class {registerClass.name}"
  | fieldOutsideRegister => "the bit field lies outside the register"

end DecodeError

/-- The value of a write cannot be stored.  No retry can help. -/
inductive EncodingError where
  | typeMismatch (rawType : RawType) (found : String)
  | outOfRange (rawType : RawType) (value : String)
  | notANumber (text : String)
  | stringTooLong (length : Nat) (registers : UInt16)
  | bitFieldOverflow (value : Int64) (length : UInt8)
  | missingCurrentValue
  | fieldOutsideRegister
  deriving DecidableEq, Repr

namespace EncodingError

def message : EncodingError → String
  | typeMismatch rawType found => s!"cannot encode a {found} value as {rawType.text}"
  | outOfRange rawType value => s!"value {value} is out of range for {rawType.text}"
  | notANumber text => s!"'{text}' is not a number"
  | stringTooLong length registers =>
    s!"string of {length} bytes does not fit in {registers} registers"
  | bitFieldOverflow value length => s!"value {value.toInt} does not fit in {length} bits"
  | missingCurrentValue => "bit field write requires the current register value"
  | fieldOutsideRegister => "the bit field lies outside the register"

end EncodingError

end Fieldbus
