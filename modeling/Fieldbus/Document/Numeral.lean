import Fieldbus.Document.Basic
import Fieldbus.Text.Numeral

/-!
# Numbers in documents

A numeral without a fraction and an exponent is an integer if it fits 64 bits.  Any other is a
double: the leading digits that fit 64 bits, scaled by a power of ten in double arithmetic.  A
numeral that is too large for a double stands for no number.
-/

namespace Fieldbus.Document

open Text

structure Exponent where
  negative : Bool
  digits : List Char

/-- The parts of a numeral. -/
structure Numeral where
  negative : Bool
  whole : List Char
  fraction : Option (List Char)
  exponent : Option Exponent

namespace Numeral

/-- A single zero, or digits of which the first is not zero. -/
def takeWhole? (text : List Char) : Option (List Char × List Char) :=
  let digits := text.takeWhile isDigit
  match digits with
  | [] => none
  | '0' :: _ :: _ => none
  | digits => some (digits, text.dropWhile isDigit)

def takeFraction? : List Char → Option (Option (List Char) × List Char)
  | '.' :: text =>
    match text.takeWhile isDigit with
    | [] => none
    | digits => some (some digits, text.dropWhile isDigit)
  | text => some (none, text)

def takeExponentDigits? (negative : Bool) (text : List Char) :
    Option (Option Exponent × List Char) :=
  match text.takeWhile isDigit with
  | [] => none
  | digits => some (some ⟨negative, digits⟩, text.dropWhile isDigit)

def takeExponent? : List Char → Option (Option Exponent × List Char)
  | [] => some (none, [])
  | mark :: text =>
    if mark = 'e' ∨ mark = 'E' then
      match text with
      | '-' :: digits => takeExponentDigits? true digits
      | '+' :: digits => takeExponentDigits? false digits
      | digits => takeExponentDigits? false digits
    else some (none, mark :: text)

/-- A numeral at the start of a text and what follows it. -/
def take? (text : List Char) : Option (Numeral × List Char) := do
  let (negative, text) := match text with
    | '-' :: rest => (true, rest)
    | rest => (false, rest)
  let (whole, text) ← takeWhole? text
  let (fraction, text) ← takeFraction? text
  let (exponent, text) ← takeExponent? text
  return (⟨negative, whole, fraction, exponent⟩, text)

/-- The largest significand. -/
def maxSignificand : Nat := UInt64.size - 1

/-- Takes digits into a significand until one does not fit; how many were taken. -/
def absorb (significand taken : Nat) : List Char → Nat × Nat
  | [] => (significand, taken)
  | c :: rest =>
    let next := significand * 10 + (c.toNat - '0'.toNat)
    if next ≤ maxSignificand then absorb next (taken + 1) rest else (significand, taken)

/-- The largest power of ten that is a double. -/
def maxPower : Nat := 308

def powerOfTen (exponent : Nat) : Double := Double.ofDecimal false 1 exponent

def neverInfinite? (value : Double) : Option Double :=
  if value.isInfinite then none else some value

/-- `value * 10 ^ exponent` in double arithmetic, unless that is infinite.  A power below the
smallest is divided out in several steps. -/
def scale? : (fuel : Nat) → (value : Double) → (exponent : Int) → Option Double
  | 0, value, _ => some value
  | fuel + 1, value, exponent =>
    if exponent.natAbs ≤ maxPower then
      if 0 ≤ exponent then neverInfinite? (Double.mul value (powerOfTen exponent.natAbs))
      else some (Double.div value (powerOfTen exponent.natAbs))
    else if value.isZero then some value
    else if 0 ≤ exponent then none
    else scale? fuel (Double.div value (powerOfTen maxPower)) (exponent + maxPower)

/-- The largest exponent that is not taken for an overflow. -/
def maxExponent : Int := Int32.maxValue.toInt

def clampExponent (exponent : Int) : Int := max Int32.minValue.toInt (min exponent maxExponent)

def double? (significand : Nat) (shift : Int) (exponent : Option Exponent) : Option Double :=
  let scaled (exponent : Int) : Option Double :=
    scale? (exponent.natAbs / maxPower + 1) (Double.ofNat significand) exponent
  match exponent with
  | none => scaled shift
  | some ⟨negative, digits⟩ =>
    let size := (digits? 10 digits).getD 0
    if maxExponent < size then
      if significand ≠ 0 && !negative then none else some Double.zero
    else scaled (clampExponent (if negative then shift - size else shift + size))

def value? (numeral : Numeral) : Option Number :=
  let (significand, taken) := absorb 0 0 numeral.whole
  let dropped := numeral.whole.length - taken
  let real (shift : Int) (significand : Nat) : Option Number :=
    (double? significand shift numeral.exponent).map fun value =>
      .real (if numeral.negative then value.neg else value)
  match numeral.fraction with
  | some digits =>
    let (significand, places) := absorb significand 0 digits
    real ((dropped : Int) - places) significand
  | none =>
    if numeral.exponent.isSome || dropped ≠ 0 then real dropped significand
    else if !numeral.negative then some (.integer significand)
    else if significand = 0 ∨ -(significand : Int) < Int64.minValue.toInt then
      some (.real (Double.ofNat significand).neg)
    else some (.integer (-(significand : Int)))

end Numeral

end Fieldbus.Document
