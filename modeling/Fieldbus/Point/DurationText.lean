import Fieldbus.Point.Basic
import Fieldbus.Text.Blank

/-!
# Durations as text

A duration is a sequence of components such as `1m30.5s`, each a decimal number followed by a unit.
The total is kept in an accumulator of 128 bits and must be a positive number of nanoseconds that
fits 64 bits.
-/

namespace Fieldbus.DurationText

open Text

def isNumberChar (c : Char) : Bool := isDigit c || c == '.'

def unitNanoseconds? : List Char → Option Nanoseconds
  | ['n', 's'] => some 1
  | ['u', 's'] => some microsecond
  | ['µ', 's'] => some microsecond
  | ['m', 's'] => some millisecond
  | ['s'] => some second
  | ['m'] => some minute
  | ['h'] => some hour
  | _ => none

/-- Why a text is no duration. -/
inductive Fault where
  | malformed
  /-- The fraction of a number does not fit the accumulator any more. -/
  | overflow
  deriving DecidableEq, Repr

/-- The size of the accumulator. -/
def accumulatorSize : Nat := 1 <<< 128

/-- A total that the accumulator can hold. -/
def accumulated (fault : Fault) (total : Nat) : Except Fault Nat :=
  if total < accumulatorSize then .ok total else .error fault

/-- The digits before and after the first point. -/
def splitAtPoint (number : List Char) : List Char × List Char :=
  (number.takeWhile (· != '.'), (number.dropWhile (· != '.')).drop 1)

def whole : List Char → Except Fault Nat
  | [] => .ok 0
  | digits =>
    match unsigned? 10 (accumulatorSize - 1) digits with
    | some value => .ok value
    | none => .error .malformed

/-- Adds the digits of a fraction to a total.  Each place is worth a tenth of the place before it,
rounded down; a place worth less than a nanosecond adds nothing. -/
def addFraction (total place : Nat) : List Char → Except Fault Nat
  | [] => .ok total
  | c :: rest =>
    match digitValue? 10 c with
    | none => .error .malformed
    | some digit => do
      let total ← accumulated .overflow (total + digit * (place / 10))
      addFraction total (place / 10) rest

/-- One number with its unit. -/
def component (number unit : List Char) : Except Fault Nat :=
  match unitNanoseconds? unit with
  | none => .error .malformed
  | some scale =>
    let (before, after) := splitAtPoint number
    if before.isEmpty && after.isEmpty then .error .malformed
    else do
      let nanoseconds ← accumulated .malformed ((← whole before) * scale)
      addFraction nanoseconds scale after

/-- A component at the start of a text and what follows it. -/
def takeComponent (text : List Char) : List Char × List Char × List Char :=
  let afterNumber := text.dropWhile isNumberChar
  (text.takeWhile isNumberChar, afterNumber.takeWhile (!isNumberChar ·),
    afterNumber.dropWhile (!isNumberChar ·))

/-- Adds up the components of a text; no text has more components than characters. -/
def sum : (fuel total : Nat) → List Char → Except Fault Nat
  | _, total, [] => .ok total
  | 0, _, _ :: _ => .error .malformed
  | fuel + 1, total, c :: rest => do
    let (number, unit, rest) := takeComponent (c :: rest)
    let total ← accumulated .malformed (total + (← component number unit))
    sum fuel total rest

/-- The longest duration that a text can stand for. -/
def longest : Nanoseconds := UInt64.size - 1

/-- The duration that a text without white space around it stands for. -/
def read (text : List Char) : Except Fault Nanoseconds := do
  let total ← sum text.length 0 text
  if 0 < total ∧ total ≤ longest then return total else throw .malformed

def parse (text : String) : Except PointError Nanoseconds :=
  match read (trim text.toList) with
  | .ok duration => .ok duration
  | .error .malformed => .error (.badDuration text)
  | .error .overflow => .error .durationOverflow

end Fieldbus.DurationText
