import Fieldbus.Binary.Format

/-!
# Double precision numbers

A double is its bit pattern; equality is equality of patterns.  Arithmetic is exact arithmetic on
magnitudes followed by one rounding.
-/

namespace Fieldbus

structure Double where
  bits : UInt64
  deriving DecidableEq, Repr

namespace Double

open Binary

def datum (x : Double) : Datum := Binary.double.decode x.bits.toNat

def ofDatum (datum : Datum) : Double := ⟨UInt64.ofNat (Binary.double.encode datum)⟩

def zero : Double := ⟨0⟩

def isFinite (x : Double) : Bool :=
  match x.datum with
  | .finite _ _ => true
  | _ => false

/-- Both zeros count as zero. -/
def isZero (x : Double) : Bool :=
  match x.datum with
  | .finite _ 0 => true
  | _ => false

def isNaN (x : Double) : Bool :=
  match x.datum with
  | .notANumber _ _ => true
  | _ => false

def isInfinite (x : Double) : Bool :=
  match x.datum with
  | .infinite _ => true
  | _ => false

def neg (x : Double) : Double := ⟨x.bits ^^^ ((1 : UInt64) <<< 63)⟩

/-- The double nearest to a quotient of natural numbers. -/
def ofRatio (negative : Bool) (numerator denominator : Nat) : Double :=
  ofDatum (Binary.double.round negative (numerator * Binary.double.one) denominator)

def ofNat (value : Nat) : Double := ofRatio false value 1

def ofInt (value : Int) : Double := ofRatio (value < 0) value.natAbs 1

/-- The double nearest to `digits * 10 ^ exponent`. -/
def ofDecimal (negative : Bool) (digits : Nat) (exponent : Int) : Double :=
  match exponent with
  | .ofNat up => ofRatio negative (digits * Nat.pow 10 up) 1
  | .negSucc down => ofRatio negative digits (Nat.pow 10 (down + 1))

/-- The answer of an operation that has none: the default quiet pattern. -/
def invalid : Double := ofDatum (.notANumber true Binary.double.quietBit)

def quiet (negative : Bool) (payload : Nat) : Double :=
  ofDatum (.notANumber negative (payload ||| Binary.double.quietBit))

def mul (x y : Double) : Double :=
  match x.datum, y.datum with
  | .notANumber negative payload, _ => quiet negative payload
  | _, .notANumber negative payload => quiet negative payload
  | .infinite left, .infinite right => ofDatum (.infinite (left != right))
  | .infinite left, .finite right magnitude =>
    if magnitude = 0 then invalid else ofDatum (.infinite (left != right))
  | .finite left magnitude, .infinite right =>
    if magnitude = 0 then invalid else ofDatum (.infinite (left != right))
  | .finite left leftMagnitude, .finite right rightMagnitude =>
    ofDatum (Binary.double.round (left != right) (leftMagnitude * rightMagnitude)
      Binary.double.one)

def div (x y : Double) : Double :=
  match x.datum, y.datum with
  | .notANumber negative payload, _ => quiet negative payload
  | _, .notANumber negative payload => quiet negative payload
  | .infinite _, .infinite _ => invalid
  | .infinite left, .finite right _ => ofDatum (.infinite (left != right))
  | .finite left _, .infinite right => ofDatum (.finite (left != right) 0)
  | .finite left leftMagnitude, .finite right rightMagnitude =>
    if rightMagnitude = 0 then
      if leftMagnitude = 0 then invalid else ofDatum (.infinite (left != right))
    else
      ofRatio (left != right) leftMagnitude rightMagnitude

/-- The nearest integer to a finite number, away from zero on a tie. -/
def toInt? (x : Double) : Option Int :=
  match x.datum with
  | .finite negative magnitude =>
    let rounded := (2 * magnitude + Binary.double.one) / (2 * Binary.double.one)
    some (if negative then -(rounded : Int) else rounded)
  | _ => none

/-- The units of double precision in one of single precision, as a power of two. -/
def unitShift : Nat := Binary.double.unitExponent - Binary.single.unitExponent

/-- What a single precision payload keeps of a double precision one: its leading bits. -/
def payloadShift : Nat := Binary.double.fractionBits - Binary.single.fractionBits

def ofSingleBits (bits : UInt32) : Double :=
  match Binary.single.decode bits.toNat with
  | .finite negative magnitude =>
    ofDatum (.finite negative (magnitude <<< unitShift))
  | .infinite negative => ofDatum (.infinite negative)
  | .notANumber negative payload => quiet negative (payload <<< payloadShift)

def toSingleBits (x : Double) : UInt32 :=
  UInt32.ofNat <| Binary.single.encode <|
    match x.datum with
    | .finite negative magnitude =>
      Binary.single.round negative magnitude (1 <<< unitShift)
    | .infinite negative => .infinite negative
    | .notANumber negative payload =>
      .notANumber negative ((payload >>> payloadShift) ||| Binary.single.quietBit)

/-- A finite number whose magnitude is above the largest of single precision. -/
def exceedsSingle (x : Double) : Bool :=
  match x.datum with
  | .finite _ magnitude => Binary.single.largest <<< unitShift < magnitude
  | _ => false

end Double

end Fieldbus
