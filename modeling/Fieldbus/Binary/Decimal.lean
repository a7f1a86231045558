import Fieldbus.Binary.Double
import Fieldbus.Text.Numeral

/-!
# Decimal text of doubles

A double is written with the fewest digits that read back as the same double, always in positional
notation, and read by correct rounding of the decimal numeral.
-/

namespace Fieldbus.Double

open Binary Text

/-- The numeral `digits * 10 ^ exponent`. -/
structure Numeral where
  digits : Nat
  exponent : Int
  deriving DecidableEq, Repr

namespace Numeral

def value (negative : Bool) (numeral : Numeral) : Double :=
  ofDecimal negative numeral.digits numeral.exponent

/-- The numeral as a quotient of natural numbers. -/
def ratio (numeral : Numeral) : Nat × Nat :=
  match numeral.exponent with
  | .ofNat up => (numeral.digits * Nat.pow 10 up, 1)
  | .negSucc down => (numeral.digits, Nat.pow 10 (down + 1))

/-- The distance to `numerator / denominator`, times both denominators. -/
def distance (numeral : Numeral) (numerator denominator : Nat) : Nat :=
  let (digits, scale) := numeral.ratio
  let left := digits * denominator
  let right := numerator * scale
  (left - right) + (right - left)

/-- Positional notation: no exponent, and no point where no digit follows it. -/
def positional (numeral : Numeral) : String :=
  let digits := toString numeral.digits
  match numeral.exponent with
  | .ofNat up => digits ++ String.ofList (List.replicate up '0')
  | .negSucc down =>
    let places := down + 1
    let padded := (List.replicate (places + 1 - digits.length) '0') ++ digits.toList
    let whole := padded.length - places
    String.ofList (padded.take whole) ++ "." ++ String.ofList (padded.drop whole)

end Numeral

/-- The same number with one digit less, where the last digit is zero. -/
def Numeral.shorten (numeral : Numeral) : Numeral :=
  if numeral.digits % 10 = 0 then ⟨numeral.digits / 10, numeral.exponent + 1⟩ else numeral

/-- The least `exponent` with `numerator / denominator < 10 ^ exponent`, looked for among the
first `fuel` negative ones when the quotient is below one. -/
def decimalExponent (fuel numerator denominator : Nat) : Int :=
  if denominator ≤ numerator then
    (toString (numerator / denominator)).length
  else
    match fuel with
    | 0 => 0
    | fuel + 1 =>
      if denominator ≤ 10 * numerator then 0
      else decimalExponent fuel (10 * numerator) denominator - 1

/-- The two numerals with the given exponent next to a quotient, the nearer one first and the
upper one first on a tie. -/
def neighbours (numerator denominator : Nat) (exponent : Int) : List Numeral :=
  let below := match exponent with
    | .ofNat up => numerator / (denominator * Nat.pow 10 up)
    | .negSucc down => numerator * Nat.pow 10 (down + 1) / denominator
  let lower : Numeral := ⟨below, exponent⟩
  let upper : Numeral := ⟨below + 1, exponent⟩
  if lower.distance numerator denominator < upper.distance numerator denominator then
    [lower, upper]
  else
    [upper, lower]

/-- The first numeral that reads back, over growing numbers of digits. -/
def shortestFrom (x : Double) (numerator denominator : Nat) (top : Int) :
    (digits fuel : Nat) → Option Numeral
  | _, 0 => none
  | digits, fuel + 1 =>
    match (neighbours numerator denominator (top - digits)).find? (·.value false = x) with
    | some numeral => some numeral
    | none => shortestFrom x numerator denominator top (digits + 1) fuel

/-- Seventeen digits tell any two doubles apart. -/
def maxDigits : Nat := 17

/-- No double other than zero is below `10 ^ -324`. -/
def maxLeadingZeros : Nat := 324

/-- The shortest numeral of a positive magnitude.  Only a carry into a new digit can leave a zero
at its end. -/
def shortest (magnitude : Nat) : Numeral :=
  let top := decimalExponent maxLeadingZeros magnitude Binary.double.one
  ((shortestFrom (ofDatum (.finite false magnitude)) magnitude Binary.double.one top 1
    maxDigits).getD ⟨magnitude, 0⟩).shorten

def text (x : Double) : String :=
  match x.datum with
  | .notANumber _ _ => "NaN"
  | .infinite negative => if negative then "-inf" else "inf"
  | .finite negative magnitude =>
    let body := if magnitude = 0 then "0" else (shortest magnitude).positional
    if negative then "-" ++ body else body

/-- The special values that have a name, in either case. -/
def named? (negative : Bool) (text : List Char) : Option Double :=
  let name := String.ofList (text.map Char.toLower)
  if name = "inf" ∨ name = "infinity" then some (ofDatum (.infinite negative))
  else if name = "nan" then
    some (ofDatum (.notANumber negative Binary.double.quietBit))
  else none

/-- An exponent with its mark; a text that ends where the mark would stand has exponent zero. -/
def exponentPart? : List Char → Option Int
  | [] => some 0
  | mark :: rest =>
    if mark = 'e' ∨ mark = 'E' then
      match rest with
      | '-' :: digits => (digits? 10 digits).map fun value => -(value : Int)
      | '+' :: digits => (digits? 10 digits).map fun value => (value : Int)
      | digits => (digits? 10 digits).map fun value => (value : Int)
    else none

/-- The exponent at which a numeral of this many digits has certainly left the range of doubles,
upwards or to zero. -/
def exponentBound (length : Nat) : Nat := length + 400

def clampExponent (length : Nat) (exponent : Int) : Int :=
  max (-(exponentBound length : Int)) (min exponent (exponentBound length))

/-- Digits with an optional point among them and an optional exponent after them. -/
def unsignedNumeral? (text : List Char) : Option Numeral :=
  let whole := text.takeWhile isDigit
  let afterWhole := text.dropWhile isDigit
  let (fraction, rest) := match afterWhole with
    | '.' :: tail => (tail.takeWhile isDigit, tail.dropWhile isDigit)
    | tail => ([], tail)
  match digits? 10 (whole ++ fraction), exponentPart? rest with
  | some digits, some exponent =>
    let length := whole.length + fraction.length
    some ⟨digits, clampExponent length (exponent - fraction.length)⟩
  | _, _ => none

/-- The double that a text stands for. -/
def ofText? (text : List Char) : Option Double :=
  let (negative, body) := match text with
    | '-' :: rest => (true, rest)
    | '+' :: rest => (false, rest)
    | rest => (false, rest)
  match named? negative body with
  | some special => some special
  | none => (unsignedNumeral? body).map (Numeral.value negative)

end Fieldbus.Double
