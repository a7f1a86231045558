/-!
# Numerals

Reading of unsigned and signed numerals with an upper bound, and hexadecimal output of a fixed
width.  A numeral is an optional sign followed by at least one digit; leading zeros do not count
towards any limit.
-/

namespace Fieldbus.Text

def isDigit (c : Char) : Bool := '0' ≤ c && c ≤ '9'

/-- The value of a digit in bases up to sixteen, letters of either case. -/
def digitValue? (base : Nat) (c : Char) : Option Nat :=
  let value :=
    if '0' ≤ c ∧ c ≤ '9' then some (c.toNat - '0'.toNat)
    else if 'a' ≤ c ∧ c ≤ 'f' then some (c.toNat - 'a'.toNat + 10)
    else if 'A' ≤ c ∧ c ≤ 'F' then some (c.toNat - 'A'.toNat + 10)
    else none
  value.filter (· < base)

/-- The number that the digits denote when they follow digits that denote `accumulator`. -/
def continueDigits? (base accumulator : Nat) : List Char → Option Nat
  | [] => some accumulator
  | c :: rest =>
    match digitValue? base c with
    | some digit => continueDigits? base (accumulator * base + digit) rest
    | none => none

def digits? (base : Nat) : List Char → Option Nat
  | [] => none
  | text => continueDigits? base 0 text

/-- A numeral with an optional plus sign and a value of at most `limit`. -/
def unsigned? (base limit : Nat) (text : List Char) : Option Nat :=
  let body := match text with
    | '+' :: rest => rest
    | text => text
  (digits? base body).filter (· ≤ limit)

/-- A decimal numeral with an optional sign and a value from `-limit - 1` to `limit`. -/
def signed? (limit : Nat) : List Char → Option Int
  | '-' :: rest => ((digits? 10 rest).filter (· ≤ limit + 1)).map fun value => -(value : Int)
  | text => (unsigned? 10 limit text).map fun value => (value : Int)

def hexDigit (value : Nat) : Char :=
  if value < 10 then Char.ofNat ('0'.toNat + value) else Char.ofNat ('A'.toNat + value - 10)

/-- The last `width` hexadecimal digits of a number. -/
def hex : (width value : Nat) → String
  | 0, _ => ""
  | width + 1, value => hex width (value / 16) ++ (hexDigit (value % 16)).toString

def hexByte (value : UInt8) : String := hex 2 value.toNat

/-- Bytes as two digits each, separated by blanks. -/
def hexBytes (bytes : List UInt8) : String :=
  " ".intercalate (bytes.map hexByte)

/-- An address or register word, with its mark. -/
def hexWord (value : UInt16) : String := "0x" ++ hex 4 value.toNat

theorem continueDigits?_append (base accumulator : Nat) (left right : List Char) :
    continueDigits? base accumulator (left ++ right) =
      (continueDigits? base accumulator left).bind fun value =>
        continueDigits? base value right := by
  induction left generalizing accumulator with
  | nil => rfl
  | cons c rest ih =>
    simp only [List.cons_append, continueDigits?]
    cases digitValue? base c with
    | none => rfl
    | some digit => exact ih _

end Fieldbus.Text
