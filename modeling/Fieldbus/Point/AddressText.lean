import Fieldbus.Point.Basic
import Fieldbus.Text.Blank

/-!
# Addresses as text

Four notations of a register address: hexadecimal after `0x`, decimal before `d`, five characters
that count from one inside the table that the first of them names, and plain decimal.
-/

namespace Fieldbus.AddressText

open Text

/-- The largest address. -/
def maxAddress : Nat := UInt16.size - 1

def hexadecimal? (digits : List Char) : Option UInt16 :=
  (unsigned? 16 maxAddress digits).map UInt16.ofNat

def decimal? (digits : List Char) : Option UInt16 :=
  (unsigned? 10 maxAddress digits).map UInt16.ofNat

/-- The first number of each table: coils, discrete inputs, input registers and holding
registers. -/
def tables : List Nat := [1, 10001, 30001, 40001]

def tableSize : Nat := 9999

/-- The place of a number inside its table. -/
def offset? (number : Nat) : Option UInt16 :=
  (tables.find? fun first => first ≤ number && number < first + tableSize).map fun first =>
    UInt16.ofNat (number - first)

def tabular? (digits : List Char) : Option UInt16 :=
  (unsigned? 10 (UInt32.size - 1) digits).bind offset?

/-- The address that a text without white space around it stands for. -/
def read? (text : List Char) : Option UInt16 :=
  match text with
  | '0' :: 'x' :: digits => hexadecimal? digits
  | '0' :: 'X' :: digits => hexadecimal? digits
  | text =>
    if text.getLast? = some 'd' then decimal? text.dropLast
    else if text.length = 5 then tabular? text
    else decimal? text

def parse (text : String) : Except PointError UInt16 :=
  let trimmed := trim text.toList
  match read? trimmed with
  | some address => .ok address
  | none => .error (.badAddress (String.ofList trimmed))

end Fieldbus.AddressText
