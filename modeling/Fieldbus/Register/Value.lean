import Fieldbus.Binary.Decimal
import Fieldbus.Text.Numeral

/-!
# Values

A point value is what a reader of the connection sees; wire values are what a block of addresses
holds.
-/

namespace Fieldbus

inductive PointValue where
  | bool (value : Bool)
  | int (value : Int64)
  | float (value : Double)
  | text (value : String)
  /-- Bytes that are not text. -/
  | bytes (value : List UInt8)
  deriving DecidableEq, Repr

namespace PointValue

def kind : PointValue → String
  | bool _ => "bool"
  | int _ => "int"
  | float _ => "float"
  | text _ => "text"
  | bytes _ => "bytes"

def display : PointValue → String
  | bool value => toString value
  | int value => toString value.toInt
  | float value => value.text
  | text value => "\"" ++ value ++ "\""
  | bytes value => Text.hexBytes value

end PointValue

inductive WireValues where
  | bits (values : List Bool)
  | words (values : List UInt16)
  deriving DecidableEq, Repr

namespace WireValues

def length : WireValues → Nat
  | bits values => values.length
  | words values => values.length

/-- The values of at most `count` addresses from `offset` on. -/
def slice (values : WireValues) (offset count : Nat) : WireValues :=
  match values with
  | bits values => bits ((values.drop offset).take count)
  | words values => words ((values.drop offset).take count)

def display : WireValues → List String
  | bits values => values.map fun value => toString value
  | words values => values.map Text.hexWord

end WireValues

end Fieldbus
