import Fieldbus.Proofs.Codec.Bytes
import Fieldbus.Proofs.Codec.Readings
import Mathlib.Algebra.Group.Int.Defs

/-!
# Integers in registers

A point of an integer type reads the big-endian number of its bytes, once the bytes of each
register and the registers are in order.  It takes the integers of its type and no others, and
neither direction loses anything.
-/

namespace Fieldbus

namespace RawType

variable {rawType : RawType}

def isInteger : RawType → Bool
  | uint16 | int16 | uint32 | int32 | uint64 | int64 => true
  | bool | float32 | float64 | string _ => false

def isSigned : RawType → Bool
  | int16 | int32 | int64 => true
  | bool | uint16 | uint32 | float32 | uint64 | float64 | string _ => false

/-- The number of patterns of bits in the registers of a type. -/
def patterns (rawType : RawType) : Nat := 2 ^ (16 * rawType.registers.toNat)

/-- The first pattern with its highest bit set. -/
def half (rawType : RawType) : Nat := 2 ^ (16 * rawType.registers.toNat - 1)

/-- The integers of a type. -/
def Holds (rawType : RawType) (number : Int) : Prop :=
  if rawType.isSigned then -(rawType.half : Int) ≤ number ∧ number < rawType.half
  else 0 ≤ number ∧ number < rawType.patterns

/-- The integer that a pattern of bits stands for, in two's complement if the type is signed. -/
def integer (rawType : RawType) (pattern : Nat) : Int :=
  if rawType.isSigned ∧ rawType.half ≤ pattern then (pattern : Int) - rawType.patterns
  else pattern

theorem size_pow_registers (rawType : RawType) :
    UInt16.size ^ rawType.registers.toNat = rawType.patterns :=
  (Nat.pow_mul 2 16 rawType.registers.toNat).symm

theorem patterns_eq (hinteger : rawType.isInteger = true) :
    rawType.patterns = 2 * rawType.half := by
  cases rawType <;> first | rfl | simp [isInteger] at hinteger

/-- Every pattern stands for an integer of the type. -/
theorem holds_integer (hinteger : rawType.isInteger = true) {pattern : Nat}
    (hpattern : pattern < rawType.patterns) : rawType.Holds (rawType.integer pattern) := by
  have hpatterns := patterns_eq hinteger
  rw [Holds, integer]
  split
  · next hsigned =>
      simp only [hsigned, true_and]
      split <;> omega
  · next hunsigned =>
      rw [if_neg fun hboth => hunsigned hboth.1]
      omega

/-- The pattern of an integer is its residue. -/
theorem toNat_emod_integer {pattern : Nat} (hpattern : pattern < rawType.patterns) :
    (rawType.integer pattern % (rawType.patterns : Int)).toNat = pattern := by
  rw [integer]
  split
  · rw [Int.sub_emod_right, ← Int.natCast_emod, Nat.mod_eq_of_lt hpattern, Int.toNat_natCast]
  · rw [← Int.natCast_emod, Nat.mod_eq_of_lt hpattern, Int.toNat_natCast]

/-- The residue of an integer of the type is its pattern. -/
theorem integer_toNat_emod (hinteger : rawType.isInteger = true) {number : Int}
    (hholds : rawType.Holds number) :
    rawType.integer (number % (rawType.patterns : Int)).toNat = number := by
  have hpatterns := patterns_eq hinteger
  have hhalf : 0 < rawType.half := Nat.two_pow_pos _
  rw [Holds] at hholds
  rw [integer]
  rcases Int.lt_or_le number 0 with hnegative | hnonneg
  · have hresidue : number % (rawType.patterns : Int) = number + rawType.patterns := by
      rw [← Int.add_emod_right]
      exact Int.emod_eq_of_lt (by split at hholds <;> omega) (by omega)
    rw [hresidue]
    split at hholds
    · next hsigned =>
        rw [if_pos ⟨hsigned, by omega⟩]
        omega
    · omega
  · have hresidue : number % (rawType.patterns : Int) = number :=
      Int.emod_eq_of_lt hnonneg (by split at hholds <;> omega)
    rw [hresidue]
    split at hholds
    · rw [if_neg fun hboth => by omega]
      omega
    · next hunsigned =>
        rw [if_neg fun hboth => hunsigned hboth.1]
        omega

theorem integerBounds?_eq (hinteger : rawType.isInteger = true) :
    Codec.integerBounds? rawType =
      some (if rawType.isSigned then (-(rawType.half : Int), (rawType.half : Int) - 1)
        else (0, (rawType.patterns : Int) - 1)) := by
  cases rawType <;> first | rfl | simp [isInteger] at hinteger

theorem half_le (hinteger : rawType.isInteger = true) : rawType.half ≤ 2 ^ 63 := by
  cases rawType <;> first | decide | simp [isInteger] at hinteger

theorem patterns_le (hinteger : rawType.isInteger = true) (hsigned : ¬rawType.isSigned = true)
    (hnarrow : rawType ≠ .uint64) : rawType.patterns ≤ 2 ^ 63 := by
  cases rawType <;> first | decide | simp [isInteger, isSigned] at hinteger hsigned hnarrow

/-- Of the integers of a type only unsigned ones of 64 bits can be too large for a value. -/
theorem Holds.exists_value (hinteger : rawType.isInteger = true) {number : Int}
    (hholds : rawType.Holds number)
    (hsmall : rawType = .uint64 → number ≤ Int64.maxValue.toInt) :
    ∃ value : Int64, value.toInt = number := by
  have hmax : Int64.maxValue.toInt = 2 ^ 63 - 1 := rfl
  have hbounds : -2 ^ 63 ≤ number ∧ number < 2 ^ 63 := by
    have hhalf := half_le hinteger
    rw [Holds] at hholds
    split at hholds
    · omega
    · next hunsigned =>
        by_cases hwide : rawType = .uint64
        · have hnumber := hsmall hwide
          omega
        · have hpatterns := patterns_le hinteger hunsigned hwide
          omega
  exact ⟨Int64.ofInt number, Int64.toInt_ofInt_of_le hbounds.1 hbounds.2⟩

/-- The integers of a type are those between its bounds. -/
theorem exists_integerBounds (hinteger : rawType.isInteger = true) :
    ∃ bounds, Codec.integerBounds? rawType = some bounds ∧
      ∀ number, (bounds.1 ≤ number ∧ number ≤ bounds.2) ↔ rawType.Holds number := by
  refine ⟨_, integerBounds?_eq hinteger, fun number => ?_⟩
  rw [Holds]
  split <;> omega

end RawType

/-! ## Decoding and encoding -/

/-- The integer in the registers of a point. -/
def Point.integer (point : Point) (words : List UInt16) : Int :=
  point.rawType.integer (Words.byteValue (Words.sentBytes point.byteSwap point.wordSwap words))

/-- The pattern of bits in the registers of a point. -/
def Point.pattern (point : Point) (words : List UInt16) : Nat :=
  Words.value (Words.orderWords point.wordSwap (Words.orderBytes point.byteSwap words))

namespace Codec

variable {point : Point} {words : List UInt16} {value : Int64} {current : Option UInt16}

theorem integer_eq (point : Point) (words : List UInt16) :
    point.integer words = point.rawType.integer (point.pattern words) := by
  rw [Point.integer, Words.byteValue_sentBytes, Point.pattern]

theorem pattern_lt (hlength : words.length = point.rawType.registers.toNat) :
    point.pattern words < point.rawType.patterns := by
  rw [← RawType.size_pow_registers, ← hlength]
  refine Nat.lt_of_lt_of_eq (Words.value_lt _) ?_
  rw [Words.length_orderWords, Words.length_orderBytes]

theorem signed_eq {rawType : RawType} {pattern : Nat} (hinteger : rawType.isInteger = true)
    (hsigned : rawType.isSigned = true) (hpattern : pattern < rawType.patterns) :
    signed (16 * rawType.registers.toNat) pattern =
      .int (Int64.ofInt (rawType.integer pattern)) := by
  have hpatterns := RawType.patterns_eq hinteger
  have hmodulus : 1 <<< (16 * rawType.registers.toNat) = rawType.patterns := Nat.one_shiftLeft _
  have hresidue : (pattern : Int) % (rawType.patterns : Int) = pattern :=
    Int.emod_eq_of_lt (by omega) (by omega)
  rw [signed, hmodulus, Int.bmod_def, hresidue, RawType.integer]
  simp only [hsigned, true_and]
  congr 2
  split <;> split <;> omega

theorem divideBy_none (value : PointValue) : divideBy none value = value := by
  cases value <;> rfl

theorem decodeWords_integer {pattern : Nat} (hbits : point.bits = none)
    (hscale : point.scale = none) (hinteger : point.rawType.isInteger = true)
    (hpattern : pattern < point.rawType.patterns)
    (hvalue : Words.value (Words.orderWords point.wordSwap words) = pattern) :
    decodeWords point words =
      .ok (if point.rawType.isSigned then signed (16 * point.rawType.registers.toNat) pattern
        else unsigned pattern) := by
  cases hraw : point.rawType with
  | uint16 | int16 =>
      have hnarrow : (UInt16.ofNat pattern).toNat = pattern := by
        rw [hraw] at hpattern
        exact UInt16.toNat_ofNat_of_lt' hpattern
      simp only [decodeWords, hraw, hvalue, decodeRegister, hbits, hscale, hnarrow, Except.map,
        divideBy_none]
      rfl
  | uint32 | int32 | uint64 | int64 =>
      simp only [decodeWords, hraw, hvalue, hscale, divideBy_none]
      rfl
  | bool | float32 | float64 | string registers => simp [hraw, RawType.isInteger] at hinteger

/-- What an integer point reads. -/
theorem decode_integer (hword : point.registerClass.isBit = false) (hbits : point.bits = none)
    (hscale : point.scale = none) (hinteger : point.rawType.isInteger = true)
    (hlength : words.length = point.rawType.registers.toNat) :
    decode point (.words words) =
      .ok (if point.rawType.isSigned then .int (Int64.ofInt (point.integer words))
        else unsigned (point.pattern words)) := by
  have hquantity : words.length = point.quantity.toNat := by rwa [Point.quantity, hword]
  have hpattern := pattern_lt hlength
  rw [decode_words hword hquantity, decodeWords_integer hbits hscale hinteger hpattern rfl,
    integer_eq]
  split
  · next hsigned => rw [signed_eq hinteger hsigned hpattern]
  · rfl

theorem ofInt_eq_iff {number : Int} (hlow : -2 ^ 63 ≤ number) (hhigh : number < 2 ^ 63) :
    Int64.ofInt number = value ↔ value.toInt = number := by
  constructor
  · rintro rfl
    exact Int64.toInt_ofInt_of_le hlow hhigh
  · rintro rfl
    exact Int64.ofInt_toInt value

/-- An integer point reads the integer in its registers, unless it is too large for a value. -/
theorem decode_eq_int_iff (hword : point.registerClass.isBit = false) (hbits : point.bits = none)
    (hscale : point.scale = none) (hinteger : point.rawType.isInteger = true)
    (hlength : words.length = point.rawType.registers.toNat) :
    decode point (.words words) = .ok (.int value) ↔ value.toInt = point.integer words := by
  have hholds := RawType.holds_integer hinteger (pattern_lt hlength)
  have hhalf := RawType.half_le hinteger
  rw [decode_integer hword hbits hscale hinteger hlength, integer_eq, Except.ok.injEq]
  rw [RawType.Holds] at hholds
  split
  · next hsigned =>
      rw [if_pos hsigned] at hholds
      rw [PointValue.int.injEq, ofInt_eq_iff (by omega) (by omega)]
  · next hunsigned =>
      have hinteger : point.rawType.integer (point.pattern words) = point.pattern words :=
        if_neg fun hboth => hunsigned hboth.1
      have hmax : maxInt64 = 2 ^ 63 - 1 := rfl
      rw [hinteger, unsigned]
      split
      · rw [PointValue.int.injEq, ofInt_eq_iff (by omega) (by omega)]
      · have hvalue := value.toInt_lt
        constructor
        · intro hfloat
          cases hfloat
        · intro htoo
          omega

/-- The integer that a value stands for if there is no scale. -/
def integerOf (rawType : RawType) (value : PointValue) : Except EncodingError Int := do
  toInteger rawType (← unscaled none value)

theorem encodeNumber_integer (hscale : point.scale = none)
    (hinteger : point.rawType.isInteger = true) {bounds : Int × Int}
    (hbounds : integerBounds? point.rawType = some bounds) (value : PointValue) :
    encodeNumber point value =
      (integerOf point.rawType value).bind fun number =>
        (inBounds point.rawType bounds number).map fun number =>
          (number % (point.rawType.patterns : Int)).toNat := by
  cases hraw : point.rawType with
  | uint16 | int16 | uint32 | int32 | uint64 | int64 =>
      rw [hraw] at hbounds
      simp only [encodeNumber, integerOf, hraw, hscale, hbounds, bind, Except.bind]
      cases unscaled none value with
      | error error => rfl
      | ok number =>
          dsimp only
          cases toInteger _ number with
          | error error => rfl
          | ok number =>
              dsimp only
              cases inBounds _ bounds number <;> rfl
  | bool | float32 | float64 | string registers => simp [hraw, RawType.isInteger] at hinteger

/-- A number is encoded as its pattern, digit by digit. -/
theorem encode_plain (hword : point.registerClass.isBit = false) (hbits : point.bits = none)
    (hinteger : point.rawType.isInteger = true) (value : PointValue) (current : Option UInt16) :
    encode point value current = (encodeNumber point value).map fun pattern =>
      .words (Words.orderBytes point.byteSwap (Words.orderWords point.wordSwap
        (Words.ofValue point.rawType.registers.toNat pattern))) := by
  cases hraw : point.rawType with
  | uint16 | int16 | uint32 | int32 | uint64 | int64 =>
      simp only [encode, hword, hbits, hraw, bind, Except.bind]
      cases encodeNumber point value <;> rfl
  | bool | float32 | float64 | string registers => simp [hraw, RawType.isInteger] at hinteger

/-- An integer of the type is written as its residue. -/
theorem exists_encode_of_integerOf {value : PointValue} {number : Int}
    (hword : point.registerClass.isBit = false) (hbits : point.bits = none)
    (hscale : point.scale = none) (hinteger : point.rawType.isInteger = true)
    (hvalue : integerOf point.rawType value = .ok number) (hholds : point.rawType.Holds number)
    (current : Option UInt16) :
    ∃ words, encode point value current = .ok (.words words) ∧
      words.length = point.rawType.registers.toNat ∧
        point.pattern words = (number % (point.rawType.patterns : Int)).toNat := by
  obtain ⟨bounds, hbounds, hiff⟩ := RawType.exists_integerBounds hinteger
  have hencode := encode_plain hword hbits hinteger value current
  rw [encodeNumber_integer hscale hinteger hbounds, hvalue, Except.bind, inBounds,
    if_pos ((hiff number).mpr hholds)] at hencode
  refine ⟨_, hencode, ?_, ?_⟩
  · rw [Words.length_orderBytes, Words.length_orderWords, Words.length_ofValue]
  · have hpositive : 0 < point.rawType.patterns := Nat.two_pow_pos _
    have hresidue := Int.emod_lt_of_pos number (Int.natCast_pos.mpr hpositive)
    rw [Point.pattern, Words.orderBytes_orderBytes, Words.orderWords_orderWords,
      Words.value_ofValue, Nat.pow_eq, RawType.size_pow_registers]
    exact Nat.mod_eq_of_lt (by dsimp only; omega)

/-- Any other integer is refused. -/
theorem encode_eq_error_of_integerOf {value : PointValue} {number : Int}
    (hword : point.registerClass.isBit = false) (hbits : point.bits = none)
    (hscale : point.scale = none) (hinteger : point.rawType.isInteger = true)
    (hvalue : integerOf point.rawType value = .ok number) (hholds : ¬point.rawType.Holds number)
    (current : Option UInt16) :
    encode point value current = .error (.outOfRange point.rawType (toString number)) := by
  obtain ⟨bounds, hbounds, hiff⟩ := RawType.exists_integerBounds hinteger
  rw [encode_plain hword hbits hinteger, encodeNumber_integer hscale hinteger hbounds, hvalue,
    Except.bind, inBounds, if_neg (mt (hiff number).mp hholds)]
  rfl

theorem exists_encode_integer (hword : point.registerClass.isBit = false)
    (hbits : point.bits = none) (hscale : point.scale = none)
    (hinteger : point.rawType.isInteger = true) (hholds : point.rawType.Holds value.toInt)
    (current : Option UInt16) :
    ∃ words, encode point (.int value) current = .ok (.words words) ∧
      words.length = point.rawType.registers.toNat ∧
        point.pattern words = (value.toInt % (point.rawType.patterns : Int)).toNat :=
  exists_encode_of_integerOf hword hbits hscale hinteger (by rfl) hholds current

theorem encode_integer_eq_error (hword : point.registerClass.isBit = false)
    (hbits : point.bits = none) (hscale : point.scale = none)
    (hinteger : point.rawType.isInteger = true) (hholds : ¬point.rawType.Holds value.toInt)
    (current : Option UInt16) :
    encode point (.int value) current =
      .error (.outOfRange point.rawType (toString value.toInt)) :=
  encode_eq_error_of_integerOf hword hbits hscale hinteger (by rfl) hholds current

/-- Registers with the same pattern are the same. -/
theorem pattern_injective {other : List UInt16} (hlength : other.length = words.length)
    (hpattern : point.pattern other = point.pattern words) : other = words := by
  have hdigits : ∀ list, Words.orderWords point.wordSwap (Words.orderBytes point.byteSwap list) =
      Words.ofValue list.length (point.pattern list) := by
    intro list
    have hsame := Words.ofValue_value
      (Words.orderWords point.wordSwap (Words.orderBytes point.byteSwap list))
    rw [Words.length_orderWords, Words.length_orderBytes] at hsame
    exact hsame.symm
  calc other
    _ = Words.orderBytes point.byteSwap (Words.orderWords point.wordSwap
        (Words.ofValue other.length (point.pattern other))) := by
      rw [← hdigits, Words.orderWords_orderWords, Words.orderBytes_orderBytes]
    _ = Words.orderBytes point.byteSwap (Words.orderWords point.wordSwap
        (Words.ofValue words.length (point.pattern words))) := by rw [hlength, hpattern]
    _ = words := by
      rw [← hdigits, Words.orderWords_orderWords, Words.orderBytes_orderBytes]

end Codec

/-- What a point does with the integers of its type. -/
structure Point.KeepsIntegers (point : Point) : Prop where
  /-- The point reads the integer in its registers.  Only an unsigned one of 64 bits may be too
  large. -/
  reads : ∀ words, words.length = point.quantity.toNat →
    (point.rawType = .uint64 → point.integer words ≤ Int64.maxValue.toInt) →
      ∃ value : Int64, value.toInt = point.integer words ∧
        Codec.decode point (.words words) = .ok (.int value)
  /-- An integer of the type can be written, and then the point reads it. -/
  accepts : ∀ (value : Int64) (current : Option UInt16), point.rawType.Holds value.toInt →
    ∃ words, Codec.encode point (.int value) current = .ok (.words words) ∧
      words.length = point.quantity.toNat ∧ Codec.decode point (.words words) = .ok (.int value)
  /-- Any other integer is refused. -/
  refuses : ∀ (value : Int64) (current : Option UInt16), ¬point.rawType.Holds value.toInt →
    Codec.encode point (.int value) current =
      .error (.outOfRange point.rawType (toString value.toInt))
  /-- An integer that has been read is written to the same registers. -/
  restores : ∀ words (value : Int64) (current : Option UInt16),
    words.length = point.quantity.toNat → Codec.decode point (.words words) = .ok (.int value) →
      Codec.encode point (.int value) current = .ok (.words words)

/-- A plain integer point keeps the integers of its type, however its bytes and registers are
ordered. -/
theorem Codec.keepsIntegers_of_integer {point : Point}
    (hword : point.registerClass.isBit = false) (hbits : point.bits = none)
    (hscale : point.scale = none) (hinteger : point.rawType.isInteger = true) :
    point.KeepsIntegers := by
  have hquantity : point.quantity = point.rawType.registers := by
    rw [Point.quantity, hword]
    rfl
  constructor
  · intro words hlength hsmall
    rw [hquantity] at hlength
    have hholds := RawType.holds_integer hinteger (pattern_lt hlength)
    rw [← integer_eq] at hholds
    obtain ⟨value, hvalue⟩ := hholds.exists_value hinteger hsmall
    exact ⟨value, hvalue, (decode_eq_int_iff hword hbits hscale hinteger hlength).mpr hvalue⟩
  · intro value current hholds
    obtain ⟨words, hencode, hlength, hpattern⟩ :=
      exists_encode_integer hword hbits hscale hinteger hholds current
    refine ⟨words, hencode, hquantity ▸ hlength, ?_⟩
    rw [decode_eq_int_iff hword hbits hscale hinteger hlength, integer_eq, hpattern,
      RawType.integer_toNat_emod hinteger hholds]
  · intro value current hholds
    exact encode_integer_eq_error hword hbits hscale hinteger hholds current
  · intro words value current hlength hdecode
    rw [hquantity] at hlength
    have hpatternLt := pattern_lt hlength
    rw [decode_eq_int_iff hword hbits hscale hinteger hlength, integer_eq] at hdecode
    have hholds : point.rawType.Holds value.toInt :=
      hdecode ▸ RawType.holds_integer hinteger hpatternLt
    obtain ⟨written, hencode, hwritten, hpattern⟩ :=
      exists_encode_integer hword hbits hscale hinteger hholds current
    rw [hdecode, RawType.toNat_emod_integer hpatternLt] at hpattern
    rw [hencode, pattern_injective (hwritten.trans hlength.symm) hpattern]

namespace Codec

/-- The low register of a negative number comes first here, and in each register the low byte. -/
theorem keepsIntegers_int32_swapped :
    encode (.sampleRegister .int32 true true) (.int (-2)) none = .ok (.words [0xFEFF, 0xFFFF]) ∧
      (Point.sampleRegister .int32 true true).KeepsIntegers :=
  ⟨rfl, keepsIntegers_of_integer rfl rfl rfl rfl⟩

end Codec

end Fieldbus
