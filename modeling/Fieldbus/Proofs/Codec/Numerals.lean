import Fieldbus.Proofs.Codec.Doubles
import Fieldbus.Proofs.Codec.Integers
import Fieldbus.Proofs.Text.Digits
import Mathlib.Data.List.TakeWhile

/-!
# Written numerals

A text is written to an integer point by the integer that its digits denote.  An integer that does
not fit a value is taken for the nearest double, so just outside the values a numeral is written as
another number.
-/

namespace Fieldbus

namespace Text

/-- The text is an optional sign before decimal digits that denote the number. -/
inductive Spells : List Char → Int → Prop where
  | plain (digits : List (Fin 10)) (hsome : digits ≠ []) :
      Spells (digitText digits) (decimal digits)
  | plus (digits : List (Fin 10)) (hsome : digits ≠ []) :
      Spells ('+' :: digitText digits) (decimal digits)
  | minus (digits : List (Fin 10)) (hsome : digits ≠ []) :
      Spells ('-' :: digitText digits) (-(decimal digits))

variable {digits : List (Fin 10)} {text : List Char} {number : Int}

theorem exists_digitText (hsome : digits ≠ []) :
    ∃ digit rest, digitText digits = Nat.digitChar digit :: rest ∧ digit < 10 := by
  cases digits with
  | nil => exact absurd rfl hsome
  | cons digit rest => exact ⟨digit.val, digitText rest, rfl, digit.isLt⟩

/-- No digit is a sign or begins the name of a special value. -/
theorem digitChar_ne {digit : Nat} (hdigit : digit < 10) :
    Nat.digitChar digit ≠ '-' ∧ Nat.digitChar digit ≠ '+' ∧
      (Nat.digitChar digit).toLower ≠ 'i' ∧ (Nat.digitChar digit).toLower ≠ 'n' := by
  revert digit
  decide

theorem digitText_unsigned (hsome : digits ≠ []) :
    (∀ tail, digitText digits ≠ '-' :: tail) ∧ ∀ tail, digitText digits ≠ '+' :: tail := by
  obtain ⟨digit, rest, htext, hdigit⟩ := exists_digitText hsome
  obtain ⟨hminus, hplus, -, -⟩ := digitChar_ne hdigit
  rw [htext]
  exact ⟨fun tail hsame => hminus (List.cons.inj hsame).1,
    fun tail hsame => hplus (List.cons.inj hsame).1⟩

theorem signed?_of_unsigned {limit : Nat} (hminus : ∀ tail, text ≠ '-' :: tail) :
    signed? limit text = (unsigned? 10 limit text).map fun value : Nat => (value : Int) := by
  unfold signed?
  split
  · next tail => exact absurd rfl (hminus tail)
  · cases unsigned? 10 limit text <;> rfl

theorem unsigned?_of_unsigned {limit : Nat} (hplus : ∀ tail, text ≠ '+' :: tail) :
    unsigned? 10 limit text = (digits? 10 text).filter (· ≤ limit) := by
  unfold unsigned?
  split
  · next tail => exact absurd rfl (hplus tail)
  · rfl

/-- An integer numeral is read if it lies within the bounds. -/
theorem signed?_of_spells (limit : Nat) (hspells : Spells text number) :
    signed? limit text =
      if -(limit : Int) - 1 ≤ number ∧ number ≤ limit then some number else none := by
  have hunsigned (digits : List (Fin 10)) :
      ((some (decimal digits)).filter (· ≤ limit)).map (fun value : Nat => (value : Int)) =
        if -(limit : Int) - 1 ≤ decimal digits ∧ (decimal digits : Int) ≤ limit then
          some (decimal digits : Int) else none := by
    rw [Option.filter_some]
    by_cases hle : decimal digits ≤ limit
    · rw [if_pos (decide_eq_true hle), if_pos (by omega)]
      rfl
    · rw [if_neg (by simpa using hle), if_neg (by omega)]
      rfl
  cases hspells with
  | plain digits hsome =>
      obtain ⟨hminus, hplus⟩ := digitText_unsigned hsome
      rw [signed?_of_unsigned hminus, unsigned?_of_unsigned hplus, digits?_digitText hsome]
      exact hunsigned digits
  | plus digits hsome =>
      have hminus : ∀ tail, '+' :: digitText digits ≠ '-' :: tail := by simp
      rw [signed?_of_unsigned hminus, unsigned?, digits?_digitText hsome]
      exact hunsigned digits
  | minus digits hsome =>
      rw [signed?, digits?_digitText hsome, Option.filter_some]
      by_cases hle : decimal digits ≤ limit + 1
      · rw [if_pos (decide_eq_true hle), if_pos (by omega)]
        rfl
      · rw [if_neg (by simpa using hle), if_neg (by omega)]
        rfl

end Text

namespace Double

open Text

variable {digits : List (Fin 10)} {text : List Char} {number : Int}

theorem named?_digitText (negative : Bool) (hsome : digits ≠ []) :
    named? negative (digitText digits) = none := by
  obtain ⟨digit, rest, htext, hdigit⟩ := exists_digitText hsome
  obtain ⟨-, -, hi, hn⟩ := digitChar_ne hdigit
  have hname {name : String} {first : Char} {tail : List Char} (hlist : name.toList = first :: tail)
      (hfirst : (Nat.digitChar digit).toLower ≠ first) :
      String.ofList ((digitText digits).map Char.toLower) ≠ name := by
    rintro rfl
    rw [String.toList_ofList, htext] at hlist
    exact hfirst (List.cons.inj hlist).1
  have hinf : String.ofList ((digitText digits).map Char.toLower) ≠ "inf" := hname rfl hi
  have hinfinity : String.ofList ((digitText digits).map Char.toLower) ≠ "infinity" := hname rfl hi
  have hnan : String.ofList ((digitText digits).map Char.toLower) ≠ "nan" := hname rfl hn
  simp only [named?, hinf, hinfinity, hnan, or_self, if_false]

theorem unsignedNumeral?_digitText (hsome : digits ≠ []) :
    unsignedNumeral? (digitText digits) = some ⟨decimal digits, 0⟩ := by
  have hall : ∀ c ∈ digitText digits, isDigit c = true := by
    intro c hmem
    obtain ⟨digit, -, rfl⟩ := List.mem_map.mp hmem
    exact isDigit_digitChar digit
  have htake : (digitText digits).takeWhile isDigit = digitText digits :=
    List.takeWhile_eq_self_iff.mpr hall
  have hdrop : (digitText digits).dropWhile isDigit = [] := List.dropWhile_eq_nil_iff.mpr hall
  simp only [unsignedNumeral?, htake, hdrop, List.append_nil, digits?_digitText hsome,
    exponentPart?, List.length_nil, Nat.cast_zero, Int.sub_zero]
  have hclamp : clampExponent ((digitText digits).length + 0) 0 = 0 := by
    rw [clampExponent]
    omega
  rw [hclamp]

theorem value_whole (negative : Bool) (digits : Nat) :
    Numeral.value negative ⟨digits, 0⟩ = ofRatio negative digits 1 :=
  congrArg (ofRatio negative · 1) (Nat.mul_one digits)

theorem ofInt_natCast (value : Nat) : ofInt (value : Int) = ofRatio false value 1 := by
  have hsign : decide ((value : Int) < 0) = false := decide_eq_false (by omega)
  rw [ofInt, hsign, Int.natAbs_natCast]

theorem ofInt_neg_natCast {value : Nat} (hpositive : 0 < value) :
    ofInt (-(value : Int)) = ofRatio true value 1 := by
  have hsign : decide (-(value : Int) < 0) = true := decide_eq_true (by omega)
  rw [ofInt, hsign, Int.natAbs_neg, Int.natAbs_natCast]

theorem ofText?_of_unsigned {body : List Char} {value : Double}
    (hminus : ∀ tail, body ≠ '-' :: tail) (hplus : ∀ tail, body ≠ '+' :: tail)
    (hnamed : named? false body = none)
    (hvalue : (unsignedNumeral? body).map (Numeral.value false) = some value) :
    ofText? body = some value := by
  unfold ofText?
  split
  rename_i negative rest hparts
  split at hparts
  · next tail => exact absurd rfl (hminus tail)
  · next tail => exact absurd rfl (hplus tail)
  · obtain ⟨rfl, rfl⟩ := Prod.mk.inj hparts
    rw [hnamed]
    exact hvalue

theorem ofText?_of_sign {sign : Char} {negative : Bool} {body : List Char} {value : Double}
    (hsign : sign = '+' ∧ negative = false ∨ sign = '-' ∧ negative = true)
    (hnamed : named? negative body = none)
    (hvalue : (unsignedNumeral? body).map (Numeral.value negative) = some value) :
    ofText? (sign :: body) = some value := by
  unfold ofText?
  split
  rename_i other rest hparts
  have hsame : (negative, body) = (other, rest) := by
    rcases hsign with ⟨rfl, rfl⟩ | ⟨rfl, rfl⟩
    · exact hparts
    · exact hparts
  obtain ⟨rfl, rfl⟩ := Prod.mk.inj hsame
  rw [hnamed]
  exact hvalue

/-- An integer numeral is read as the nearest double. -/
theorem ofText?_of_spells (hspells : Spells text number) (hnonzero : number ≠ 0) :
    ofText? text = some (ofInt number) := by
  have hvalue (negative : Bool) {digits : List (Fin 10)} (hsome : digits ≠ []) :
      (unsignedNumeral? (digitText digits)).map (Numeral.value negative) =
        some (ofRatio negative (decimal digits) 1) := by
    rw [unsignedNumeral?_digitText hsome, Option.map_some, value_whole]
  cases hspells with
  | plain digits hsome =>
      obtain ⟨hminus, hplus⟩ := digitText_unsigned hsome
      rw [ofInt_natCast]
      exact ofText?_of_unsigned hminus hplus (named?_digitText false hsome) (hvalue false hsome)
  | plus digits hsome =>
      rw [ofInt_natCast]
      exact ofText?_of_sign (.inl ⟨rfl, rfl⟩) (named?_digitText false hsome) (hvalue false hsome)
  | minus digits hsome =>
      rw [ofInt_neg_natCast (by omega)]
      exact ofText?_of_sign (.inr ⟨rfl, rfl⟩) (named?_digitText true hsome) (hvalue true hsome)

end Double

/-! ## What a numeral is taken for -/

namespace Codec

open Text Binary

variable {text : String} {number : Int} {rawType : RawType}

/-- A text is taken for its integer if a value can hold it, and else for the nearest double. -/
theorem parseNumber_of_spells (hspells : Spells (trim text.toList) number) :
    parseNumber text =
      .ok (if -2 ^ 63 ≤ number ∧ number < 2 ^ 63 then .int (Int64.ofInt number)
        else .float (Double.ofInt number)) := by
  have hlimit : maxInt64 = 2 ^ 63 - 1 := rfl
  have hsigned := signed?_of_spells maxInt64 hspells
  rw [parseNumber]
  split_ifs with hfits
  · rw [if_pos (by omega)] at hsigned
    simp only [hsigned]
  · rw [if_neg (by omega)] at hsigned
    simp only [hsigned, Double.ofText?_of_spells hspells (by omega)]

/-- Saturation only touches what no integer type holds. -/
theorem saturate_cases (number : Int) :
    saturate number = number ∨ 2 ^ 64 < saturate number ∧ 2 ^ 64 < number ∨
      saturate number < -2 ^ 64 ∧ number < -2 ^ 64 := by
  have hlimit : 1 <<< 127 = 2 ^ 127 := rfl
  rw [saturate, hlimit]
  omega

theorem integerOf_text {value : PointValue} (hparse : parseNumber text = .ok value) :
    integerOf rawType (.text text) = toInteger rawType value := by
  simp only [integerOf, unscaled, hparse, bind, Except.bind, pure, Except.pure, scaleBy]

theorem toInteger_float {x : Double} {whole : Int} (hwhole : x.toInt? = some whole) :
    toInteger rawType (.float x) = .ok (saturate whole) := by
  simp only [toInteger, hwhole]

theorem toInteger_float_eq_error {x : Double} (hnone : x.toInt? = none) :
    toInteger rawType (.float x) = .error (.outOfRange rawType x.text) := by
  simp only [toInteger, hnone]

theorem integerOf_of_small (hspells : Spells (trim text.toList) number)
    (hlow : -2 ^ 63 ≤ number) (hhigh : number < 2 ^ 63) :
    integerOf rawType (.text text) = .ok number := by
  have hparse := parseNumber_of_spells hspells
  rw [if_pos ⟨hlow, hhigh⟩] at hparse
  rw [integerOf_text hparse, toInteger, Int64.toInt_ofInt_of_le hlow hhigh]

theorem integerOf_of_far (hspells : Spells (trim text.toList) number)
    (hfar : number < -2 ^ 63 ∨ 2 ^ 63 ≤ number) :
    integerOf rawType (.text text) = toInteger rawType (.float (Double.ofInt number)) := by
  have hparse := parseNumber_of_spells hspells
  rw [if_neg (by omega)] at hparse
  exact integerOf_text hparse

/-- A numeral of 64 bits that does not fit a value is taken for a multiple of 2048. -/
theorem integerOf_of_wide (hspells : Spells (trim text.toList) number)
    (hfar : number < -2 ^ 63 ∨ 2 ^ 63 ≤ number) (hwide : number.natAbs < 2 ^ 64) :
    integerOf rawType (.text text) =
      .ok (if number < 0 then -((nearestEven number.natAbs 2048 * 2048 : Nat) : Int)
        else (nearestEven number.natAbs 2048 * 2048 : Nat)) := by
  have hwhole : (Double.ofInt number).toInt? = _ :=
    Double.toInt?_ofRatio_of_wide (decide (number < 0)) (show 2 ^ 63 ≤ number.natAbs by omega) hwide
  have hrounded := nearestEven_le number.natAbs 2048
  rw [integerOf_of_far hspells hfar, toInteger_float hwhole]
  simp only [decide_eq_true_eq]
  generalize nearestEven number.natAbs 2048 = quotient at hrounded
  generalize hwritten : (if number < 0 then -((quotient * 2048 : Nat) : Int)
    else (quotient * 2048 : Nat)) = written
  rcases saturate_cases written with hkept | hfar | hfar
  · rw [hkept]
  · split at hwritten <;> omega
  · split at hwritten <;> omega

/-- No integer type holds what a larger numeral is taken for. -/
theorem integerOf_of_huge (hspells : Spells (trim text.toList) number)
    (hhuge : 2 ^ 64 ≤ number.natAbs) :
    (∃ shown, integerOf rawType (.text text) = .error (.outOfRange rawType shown)) ∨
      ∃ whole, integerOf rawType (.text text) = .ok whole ∧ 2 ^ 64 ≤ whole.natAbs := by
  rw [integerOf_of_far hspells (by omega)]
  rcases Double.toInt?_ofRatio_of_huge (decide (number < 0)) hhuge with
    hnone | ⟨whole, hle, hwhole⟩
  · exact .inl ⟨_, toInteger_float_eq_error hnone⟩
  · refine .inr ⟨_, toInteger_float hwhole, ?_⟩
    simp only [decide_eq_true_eq]
    generalize hwritten : (if number < 0 then -(whole : Int) else whole) = written
    have hkept := saturate_cases written
    split at hwritten <;> omega

end Codec

/-- The text is written, and then the registers hold the number. -/
def Point.WritesText (point : Point) (text : String) (number : Int) : Prop :=
  ∀ current, ∃ words, Codec.encode point (.text text) current = .ok (.words words) ∧
    words.length = point.quantity.toNat ∧ point.integer words = number

def Point.RefusesText (point : Point) (text : String) : Prop :=
  ∀ current, ∃ shown,
    Codec.encode point (.text text) current = .error (.outOfRange point.rawType shown)

/-- What a point does with a text that denotes an integer. -/
structure Point.TakesNumeral (point : Point) (text : String) (number : Int) : Prop where
  /-- An integer of the type is written, unless it is an unsigned one beyond the values. -/
  writes : point.rawType.Holds number → (point.rawType = .uint64 → number < 2 ^ 63) →
    point.WritesText text number
  /-- Any other integer is refused, unless it is just below the signed ones of 64 bits. -/
  refuses : ¬point.rawType.Holds number →
    (point.rawType = .int64 → number < -2 ^ 63 - 1024 ∨ 2 ^ 63 ≤ number) → point.RefusesText text
  /-- That is written as the least of them. -/
  below : point.rawType = .int64 → -2 ^ 63 - 1024 ≤ number → number < -2 ^ 63 →
    point.WritesText text (-2 ^ 63)
  /-- An unsigned integer beyond the values is written as the nearest multiple of 2048. -/
  rounds : point.rawType = .uint64 → 2 ^ 63 ≤ number → number < 2 ^ 64 - 1024 →
    point.WritesText text (Binary.nearestEven number.toNat 2048 * 2048 : Nat)
  /-- The last of them are refused. -/
  top : point.rawType = .uint64 → 2 ^ 64 - 1024 ≤ number → point.RefusesText text

namespace RawType

variable {rawType : RawType} {number : Int}

theorem holds_int64_iff : RawType.int64.Holds number ↔ -2 ^ 63 ≤ number ∧ number < 2 ^ 63 := by
  have hhalf : RawType.int64.half = 2 ^ 63 := rfl
  rw [Holds, if_pos (by decide), hhalf]
  omega

theorem holds_uint64_iff : RawType.uint64.Holds number ↔ 0 ≤ number ∧ number < 2 ^ 64 := by
  have hpatterns : RawType.uint64.patterns = 2 ^ 64 := rfl
  rw [Holds, if_neg (by decide), hpatterns]
  omega

theorem Holds.natAbs_lt (hinteger : rawType.isInteger = true) (hholds : rawType.Holds number) :
    number.natAbs < 2 ^ 64 := by
  have hhalf := half_le hinteger
  have hpatterns := patterns_eq hinteger
  rw [Holds] at hholds
  split at hholds <;> omega

/-- The other types have no integers that a value could not hold. -/
theorem Holds.lt_of_narrow (hinteger : rawType.isInteger = true) (hsigned : rawType ≠ .int64)
    (hunsigned : rawType ≠ .uint64) (hholds : rawType.Holds number) :
    number.natAbs < 2 ^ 32 := by
  have hhalf : rawType.half ≤ 2 ^ 31 := by
    cases rawType <;> first | decide | simp [isInteger] at hinteger hsigned hunsigned
  have hpatterns := patterns_eq hinteger
  rw [Holds] at hholds
  split at hholds <;> omega

end RawType

namespace Codec

open Text Binary

variable {point : Point} {text : String} {number whole : Int}

theorem writesText_of_integerOf (hword : point.registerClass.isBit = false)
    (hbits : point.bits = none) (hscale : point.scale = none)
    (hinteger : point.rawType.isInteger = true)
    (hvalue : integerOf point.rawType (.text text) = .ok whole)
    (hholds : point.rawType.Holds whole) : point.WritesText text whole := by
  intro current
  obtain ⟨words, hencode, hlength, hpattern⟩ :=
    exists_encode_of_integerOf hword hbits hscale hinteger hvalue hholds current
  refine ⟨words, hencode, ?_, ?_⟩
  · rw [hlength, Point.quantity, hword]
    rfl
  · rw [integer_eq, hpattern, RawType.integer_toNat_emod hinteger hholds]

theorem refusesText_of_integerOf (hword : point.registerClass.isBit = false)
    (hbits : point.bits = none) (hscale : point.scale = none)
    (hinteger : point.rawType.isInteger = true)
    (hvalue : integerOf point.rawType (.text text) = .ok whole)
    (hholds : ¬point.rawType.Holds whole) : point.RefusesText text := fun current =>
  ⟨_, encode_eq_error_of_integerOf hword hbits hscale hinteger hvalue hholds current⟩

theorem refusesText_of_eq_error {shown : String} (hword : point.registerClass.isBit = false)
    (hbits : point.bits = none) (hscale : point.scale = none)
    (hinteger : point.rawType.isInteger = true)
    (hvalue : integerOf point.rawType (.text text) = .error (.outOfRange point.rawType shown)) :
    point.RefusesText text := by
  intro current
  obtain ⟨bounds, hbounds, -⟩ := RawType.exists_integerBounds hinteger
  refine ⟨shown, ?_⟩
  rw [encode_plain hword hbits hinteger, encodeNumber_integer hscale hinteger hbounds, hvalue]
  rfl

section Cases

variable (hword : point.registerClass.isBit = false) (hbits : point.bits = none)
variable (hscale : point.scale = none) (hinteger : point.rawType.isInteger = true)
variable (hspells : Spells (trim text.toList) number)
include hword hbits hscale hinteger hspells

theorem takesNumeral_of_small (hlow : -2 ^ 63 ≤ number) (hhigh : number < 2 ^ 63) :
    point.TakesNumeral text number := by
  have hvalue : integerOf point.rawType (.text text) = .ok number :=
    integerOf_of_small hspells hlow hhigh
  constructor
  · intro hholds _
    exact writesText_of_integerOf hword hbits hscale hinteger hvalue hholds
  · intro hholds _
    exact refusesText_of_integerOf hword hbits hscale hinteger hvalue hholds
  · omega
  · omega
  · omega

theorem takesNumeral_of_wide (hfar : number < -2 ^ 63 ∨ 2 ^ 63 ≤ number)
    (hwide : number.natAbs < 2 ^ 64) : point.TakesNumeral text number := by
  have hvalue : integerOf point.rawType (.text text) = _ := integerOf_of_wide hspells hfar hwide
  have hfloor := div_le_nearestEven number.natAbs 2048
  have hnear := le_nearestEven_mul number.natAbs (show 0 < 2048 by decide)
  generalize hwhole : (if number < 0 then -((nearestEven number.natAbs 2048 * 2048 : Nat) : Int)
    else (nearestEven number.natAbs 2048 * 2048 : Nat)) = whole at hvalue
  have hwrites := writesText_of_integerOf hword hbits hscale hinteger hvalue
  have hrefuses := refusesText_of_integerOf hword hbits hscale hinteger hvalue
  constructor
  · intro hholds hsmall
    by_cases hsigned : point.rawType = .int64
    · rw [hsigned, RawType.holds_int64_iff] at hholds
      omega
    · by_cases hunsigned : point.rawType = .uint64
      · have hless := hsmall hunsigned
        rw [hunsigned, RawType.holds_uint64_iff] at hholds
        omega
      · have hless := hholds.lt_of_narrow hinteger hsigned hunsigned
        omega
  · intro hholds hjust
    refine hrefuses fun hheld => ?_
    by_cases hsigned : point.rawType = .int64
    · have houtside := hjust hsigned
      rw [hsigned, RawType.holds_int64_iff] at hheld
      split at hwhole <;> omega
    · by_cases hunsigned : point.rawType = .uint64
      · rw [hunsigned, RawType.holds_uint64_iff] at hheld hholds
        split at hwhole <;> omega
      · have hless := hheld.lt_of_narrow hinteger hsigned hunsigned
        split at hwhole <;> omega
  · intro hsigned hlow hhigh
    have hleast : nearestEven number.natAbs 2048 = 2 ^ 52 := by
      rw [nearestEven]
      split_ifs <;> omega
    rw [if_pos (by omega), hleast] at hwhole
    have hsame : whole = -2 ^ 63 := by omega
    rw [← hsame]
    exact hwrites (by rw [hsigned, RawType.holds_int64_iff]; omega)
  · intro hunsigned hlow hhigh
    have hless : nearestEven number.natAbs 2048 < 2 ^ 53 := by
      rw [nearestEven]
      split_ifs <;> omega
    rw [if_neg (by omega)] at hwhole
    rw [show number.toNat = number.natAbs by omega, hwhole]
    exact hwrites (by rw [hunsigned, RawType.holds_uint64_iff]; omega)
  · intro hunsigned hlow
    have hover : 2 ^ 53 ≤ nearestEven number.natAbs 2048 := by
      rw [nearestEven]
      split_ifs <;> omega
    rw [if_neg (by omega)] at hwhole
    exact hrefuses (by rw [hunsigned, RawType.holds_uint64_iff]; omega)

theorem takesNumeral_of_huge (hhuge : 2 ^ 64 ≤ number.natAbs) :
    point.TakesNumeral text number := by
  have hholds : ¬point.rawType.Holds number := fun hholds =>
    Nat.not_lt.mpr hhuge (hholds.natAbs_lt hinteger)
  have hrefuses : point.RefusesText text := by
    rcases integerOf_of_huge hspells hhuge with ⟨shown, herror⟩ | ⟨whole, hvalue, hlarge⟩
    · exact refusesText_of_eq_error hword hbits hscale hinteger herror
    · exact refusesText_of_integerOf hword hbits hscale hinteger hvalue fun hwhole =>
        Nat.not_lt.mpr hlarge (hwhole.natAbs_lt hinteger)
  constructor
  · exact fun hnumber => absurd hnumber hholds
  · exact fun _ _ => hrefuses
  · omega
  · omega
  · exact fun _ _ => hrefuses

end Cases

/-- Whatever the sign and the leading zeros of a numeral, this is what a plain integer point makes
of it. -/
theorem takesNumeral_of_spells (hword : point.registerClass.isBit = false)
    (hbits : point.bits = none) (hscale : point.scale = none)
    (hinteger : point.rawType.isInteger = true) (hspells : Spells (trim text.toList) number) :
    point.TakesNumeral text number := by
  by_cases hsmall : -2 ^ 63 ≤ number ∧ number < 2 ^ 63
  · exact takesNumeral_of_small hword hbits hscale hinteger hspells hsmall.1 hsmall.2
  · by_cases hwide : number.natAbs < 2 ^ 64
    · exact takesNumeral_of_wide hword hbits hscale hinteger hspells (by omega) hwide
    · exact takesNumeral_of_huge hword hbits hscale hinteger hspells (Nat.le_of_not_lt hwide)

/-- The digits of a number two above the largest value. -/
def sampleDigits : List (Fin 10) := [9, 2, 2, 3, 3, 7, 2, 0, 3, 6, 8, 5, 4, 7, 7, 5, 8, 0, 9]

theorem decimal_sampleDigits : (decimal sampleDigits : Int) = 9223372036854775809 := by
  decide +kernel

/-- The last digit of this number is lost. -/
theorem takesNumeral_uint64 :
    encode (.sampleRegister .uint64 false true) (.text " +9223372036854775809") none =
        .ok (.words [0, 0, 0, 0x8000]) ∧
      (Point.sampleRegister .uint64 false true).TakesNumeral " +9223372036854775809"
        9223372036854775809 := by
  have htext : trim " +9223372036854775809".toList = '+' :: digitText sampleDigits := by
    decide +kernel
  have hspells : Spells (trim " +9223372036854775809".toList) 9223372036854775809 := by
    rw [htext, ← decimal_sampleDigits]
    exact .plus sampleDigits (by decide)
  exact ⟨by decide +kernel, takesNumeral_of_spells rfl rfl rfl rfl hspells⟩

/-- So it is not true that a text is written only if the type holds its integer, and only by this
integer. -/
theorem not_forall_text_exact :
    ¬∀ (point : Point) (text : String) (number : Int) (current : Option UInt16),
      point.registerClass.isBit = false → point.bits = none → point.scale = none →
        point.rawType.isInteger = true → Spells (trim text.toList) number →
          ((∃ words, encode point (.text text) current = .ok (.words words)) ↔
            point.rawType.Holds number) ∧
          ∀ words, encode point (.text text) current = .ok (.words words) →
            point.integer words = number := by
  intro hexact
  have htext : trim "-9223372036854775809".toList = '-' :: digitText sampleDigits := by
    decide +kernel
  have hspells : Spells (trim "-9223372036854775809".toList) (-9223372036854775809) := by
    rw [htext, ← decimal_sampleDigits]
    exact .minus sampleDigits (by decide)
  have hwritten : encode (.sampleRegister .int64 false false) (.text "-9223372036854775809") none =
      .ok (.words [0x8000, 0, 0, 0]) := by decide +kernel
  obtain ⟨hiff, -⟩ := hexact (.sampleRegister .int64 false false) _ _ none rfl rfl rfl rfl hspells
  have hheld := RawType.holds_int64_iff.mp (hiff.mp ⟨_, hwritten⟩)
  omega

end Codec

end Fieldbus
