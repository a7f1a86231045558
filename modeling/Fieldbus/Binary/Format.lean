/-!
# Binary floating point formats

Bit patterns and the numbers they stand for.  The magnitude of a finite number is counted in units
of the smallest subnormal number of its format, so it is a natural number, and rounding a quotient
to a format is exact arithmetic: to the nearest number, and to the even significand on a tie.
-/

namespace Fieldbus.Binary

/-- `precision` counts the bits of a significand, with the one that is not stored. -/
structure Format where
  precision : Nat
  exponentBits : Nat

def single : Format := ⟨24, 8⟩

def double : Format := ⟨53, 11⟩

inductive Datum where
  | finite (negative : Bool) (magnitude : Nat)
  | infinite (negative : Bool)
  | notANumber (negative : Bool) (payload : Nat)
  deriving DecidableEq, Repr

namespace Format

def fractionBits (format : Format) : Nat := format.precision - 1

/-- The exponent field of infinities and of what is not a number. -/
def topExponent (format : Format) : Nat := (1 <<< format.exponentBits) - 1

/-- The number of units of the format in one, as a power of two. -/
def unitExponent (format : Format) : Nat :=
  (1 <<< (format.exponentBits - 1)) + format.precision - 3

def one (format : Format) : Nat := 1 <<< format.unitExponent

def largest (format : Format) : Nat :=
  ((1 <<< format.precision) - 1) <<< (format.topExponent - 2)

/-- How far the last bit of a number of this magnitude is from the unit. -/
def lastBit (format : Format) (magnitude : Nat) : Nat :=
  magnitude.log2 + 1 - format.precision

def quietBit (format : Format) : Nat := 1 <<< (format.fractionBits - 1)

def fields (format : Format) (negative : Bool) (exponent fraction : Nat) : Nat :=
  (((if negative then 1 <<< format.exponentBits else 0) + exponent) <<< format.fractionBits)
    + fraction

def encode (format : Format) : Datum → Nat
  | .finite negative magnitude =>
    if magnitude < 1 <<< format.fractionBits then
      format.fields negative 0 magnitude
    else
      let shift := format.lastBit magnitude
      format.fields negative (shift + 1) ((magnitude >>> shift) - (1 <<< format.fractionBits))
  | .infinite negative => format.fields negative format.topExponent 0
  | .notANumber negative payload => format.fields negative format.topExponent payload

def decode (format : Format) (bits : Nat) : Datum :=
  let fraction := bits % (1 <<< format.fractionBits)
  let exponent := (bits >>> format.fractionBits) % (1 <<< format.exponentBits)
  let negative := bits.testBit (format.fractionBits + format.exponentBits)
  if exponent = format.topExponent then
    if fraction = 0 then .infinite negative else .notANumber negative fraction
  else if exponent = 0 then
    .finite negative fraction
  else
    .finite negative (((1 <<< format.fractionBits) + fraction) <<< (exponent - 1))

end Format

/-- The quotient of two natural numbers, to the nearest and to the even one on a tie. -/
def nearestEven (numerator denominator : Nat) : Nat :=
  let quotient := numerator / denominator
  let remainder := numerator % denominator
  if 2 * remainder < denominator then quotient
  else if 2 * remainder > denominator then quotient + 1
  else quotient + quotient % 2

/-- The number of the format that is nearest to a quotient of natural numbers, in units. -/
def Format.round (format : Format) (negative : Bool) (numerator denominator : Nat) : Datum :=
  let step := 1 <<< format.lastBit (numerator / denominator)
  let magnitude := nearestEven numerator (denominator * step) * step
  if magnitude ≤ format.largest then .finite negative magnitude else .infinite negative

end Fieldbus.Binary
