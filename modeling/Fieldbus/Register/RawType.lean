import Fieldbus.Text.Blank

/-!
# Wire types and access modes

How many registers a value occupies is decided by its wire type alone.
-/

namespace Fieldbus

inductive RawType where
  | bool
  | uint16
  | int16
  | uint32
  | int32
  | float32
  | uint64
  | int64
  | float64
  /-- Text in the given number of registers, two bytes in each. -/
  | string (registers : UInt16)
  deriving DecidableEq, Repr

namespace RawType

def registers : RawType → UInt16
  | bool | uint16 | int16 => 1
  | uint32 | int32 | float32 => 2
  | uint64 | int64 | float64 => 4
  | string registers => registers

/-- Only the 16-bit integers can be divided into bit fields. -/
def is16Bit : RawType → Bool
  | uint16 | int16 => true
  | _ => false

def isString : RawType → Bool
  | string _ => true
  | _ => false

def text : RawType → String
  | bool => "bool"
  | uint16 => "uint16"
  | int16 => "int16"
  | uint32 => "uint32"
  | int32 => "int32"
  | float32 => "float32"
  | uint64 => "uint64"
  | int64 => "int64"
  | float64 => "float64"
  | string registers => s!"string({registers})"

/-- The types with a fixed width, under each of their names. -/
def named : List (String × RawType) :=
  [("bool", bool), ("boolean", bool), ("uint16", uint16), ("int16", int16),
   ("uint32", uint32), ("int32", int32), ("float32", float32), ("float", float32),
   ("uint64", uint64), ("int64", int64), ("float64", float64), ("double", float64)]

/-- Reads a name in letters of either case with white space around it.  A string without a
register count, or with none, has one register. -/
def ofText? (text : String) (stringRegisters : Option UInt16) : Option RawType :=
  let name := String.ofList ((Text.trim text.toList).map Char.toLower)
  if name = "string" then
    match stringRegisters with
    | none => some (string 1)
    | some count => some (string (if count = 0 then 1 else count))
  else
    named.lookup name

end RawType

inductive Access where
  | read
  | write
  | readWrite
  deriving DecidableEq, Repr

namespace Access

/-- The point takes part in polling. -/
def isReadable : Access → Bool
  | read | readWrite => true
  | write => false

def isWritable : Access → Bool
  | write | readWrite => true
  | read => false

def name : Access → String
  | read => "R"
  | write => "W"
  | readWrite => "RW"

def ofText? (text : String) : Option Access :=
  let name := String.ofList ((Text.trim text.toList).map Char.toUpper)
  [read, write, readWrite].find? fun access => access.name == name

end Access

end Fieldbus
