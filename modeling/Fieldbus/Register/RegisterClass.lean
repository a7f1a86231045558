import Fieldbus.Text.Blank

/-!
# Register classes

The four storage categories of a device, in the order in which writes are sorted.
-/

namespace Fieldbus

inductive RegisterClass where
  | coil
  | discreteInput
  | inputRegister
  | holdingRegister
  deriving DecidableEq, Repr

namespace RegisterClass

def all : List RegisterClass := [coil, discreteInput, inputRegister, holdingRegister]

/-- Coils and discrete inputs hold single bits, the others 16-bit words. -/
def isBit : RegisterClass → Bool
  | coil | discreteInput => true
  | inputRegister | holdingRegister => false

def isWritable : RegisterClass → Bool
  | coil | holdingRegister => true
  | discreteInput | inputRegister => false

def name : RegisterClass → String
  | coil => "COIL"
  | discreteInput => "DISCRETE_INPUT"
  | inputRegister => "INPUT_REGISTER"
  | holdingRegister => "HOLDING_REGISTER"

/-- The place of the class in the order of writes. -/
def rank : RegisterClass → Nat
  | coil => 0
  | discreteInput => 1
  | inputRegister => 2
  | holdingRegister => 3

/-- Reads a name in letters of either case with white space around it. -/
def ofText? (text : String) : Option RegisterClass :=
  let name := String.ofList ((Text.trim text.toList).map Char.toUpper)
  all.find? fun cls => cls.name == name

end RegisterClass

end Fieldbus
