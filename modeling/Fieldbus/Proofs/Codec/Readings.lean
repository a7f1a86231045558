import Fieldbus.Proofs.Codec.Fields
import Mathlib.Algebra.Group.Nat.Defs

/-!
# Readings

What a point reads in the registers of its addresses.  A point without a bit field reads all of
them with their bytes in order, and a bit field reads the number that its bits spell.
-/

namespace Fieldbus

namespace BitField

variable {field : BitField} {written : Nat} {word old new : UInt16}

/-- The number that the bits of a field spell. -/
def number (field : BitField) (word : UInt16) : Nat :=
  word.toNat / 2 ^ field.offset.toNat % 2 ^ field.length.toNat

theorem testBit_number (field : BitField) (word : UInt16) (index : Nat) :
    (field.number word).testBit index =
      (decide (index < field.length.toNat) && word.toNat.testBit (field.offset.toNat + index)) := by
  rw [BitField.number, Nat.testBit_mod_two_pow, Nat.testBit_div_two_pow, Nat.add_comm]

theorem le_maxValue_iff {value : Nat} :
    value ≤ field.maxValue ↔ value < 2 ^ field.length.toNat := by
  have hpos : 0 < 2 ^ field.length.toNat := Nat.two_pow_pos _
  rw [maxValue, Nat.one_shiftLeft]
  omega

theorem number_le_maxValue (field : BitField) (word : UInt16) :
    field.number word ≤ field.maxValue :=
  le_maxValue_iff.mpr (Nat.mod_lt _ (Nat.two_pow_pos _))

theorem number_lt_size (field : BitField) (word : UInt16) : field.number word < UInt16.size :=
  Nat.lt_of_le_of_lt (Nat.le_trans (Nat.mod_le _ _) (Nat.div_le_self _ _)) word.toNat_lt

/-- A register that is read through a mask shows the number of the field. -/
theorem extract?_of_fits (hfits : field.Fits) (word : UInt16) :
    ∃ value, field.extract? word = some value ∧ value.toNat = field.number word := by
  have hstop : field.offset.toNat + field.length.toNat ≤ 16 := hfits.2
  have hoffset : field.offset.toNat < 16 := by
    have hpos := hfits.1
    omega
  refine ⟨_, if_pos (hasMask_of_fits hfits), ?_⟩
  apply Nat.eq_of_testBit_eq
  intro index
  have hshift : field.offset.toUInt16.toNat % 16 = field.offset.toNat := by
    rw [UInt8.toNat_toUInt16, Nat.mod_eq_of_lt hoffset]
  rw [UInt16.toNat_shiftRight, hshift, Nat.testBit_shiftRight, UInt16.toNat_and,
    Nat.testBit_and, testBit_mask hfits, testBit_number, Bool.and_comm]
  congr 1
  rw [stop]
  simp

/-- The bits that have been replaced spell the number that replaced them. -/
theorem Replaces.number_eq (hreplaces : field.Replaces written old new)
    (hmax : written ≤ field.maxValue) : field.number new = written := by
  apply Nat.eq_of_testBit_eq
  intro index
  rw [testBit_number]
  by_cases hindex : index < field.length.toNat
  · rw [decide_eq_true hindex, Bool.true_and, hreplaces.inside index hindex]
  · have hlarge : written < 2 ^ index :=
      Nat.lt_of_lt_of_le (le_maxValue_iff.mp hmax)
        (Nat.pow_le_pow_right Nat.two_pos (Nat.le_of_not_lt hindex))
    rw [decide_eq_false hindex, Bool.false_and, Nat.testBit_lt_two_pow hlarge]

/-- A field may be replaced by what it holds. -/
theorem replaces_number (field : BitField) (word : UInt16) :
    field.Replaces (field.number word) word word where
  inside index hindex := by rw [testBit_number, decide_eq_true hindex, Bool.true_and]
  outside _ _ := rfl

/-- A field reads the same number in registers that agree on its bits. -/
theorem number_congr
    (hsame : ∀ index, field.offset.toNat ≤ index → index < field.stop →
      new.toNat.testBit index = old.toNat.testBit index) :
    field.number new = field.number old := by
  apply Nat.eq_of_testBit_eq
  intro index
  rw [testBit_number, testBit_number]
  by_cases hindex : index < field.length.toNat
  · rw [hsame _ (Nat.le_add_right _ _) (Nat.add_lt_add_left hindex _)]
  · rw [decide_eq_false hindex, Bool.false_and, Bool.false_and]

end BitField

namespace Point

/-- A point with a bit field has one register. -/
theorem quantity_of_field {point : Point} {field : BitField} (hvalid : point.Valid)
    (hbits : point.bits = some field) : point.quantity = 1 := by
  obtain ⟨hword, hnarrow, -⟩ := hvalid.field hbits
  rw [quantity, hword, Codec.registers_of_is16Bit hnarrow]
  rfl

/-- A holding register point without a bit field and a scale. -/
def sampleRegister (rawType : RawType) (byteSwap wordSwap : Bool) : Point where
  device := ⟨"plant"⟩
  name := "level"
  unit := ⟨1⟩
  registerClass := .holdingRegister
  address := 10
  rawType
  byteSwap
  wordSwap
  bits := none
  scale := none
  period := second
  access := .readWrite

/-- A bit field in the register of the sample. -/
def sampleField (field : BitField) (byteSwap : Bool) : Point :=
  { sampleRegister .uint16 byteSwap false with bits := some field }

end Point

namespace Codec

variable {point : Point} {field : BitField}

theorem unsigned_of_le {value : Nat} (hvalue : value ≤ maxInt64) :
    unsigned value = .int (Int64.ofInt value) := if_pos hvalue

/-- A point reads its registers with their bytes in order. -/
theorem decode_words (hword : point.registerClass.isBit = false) {words : List UInt16}
    (hlength : words.length = point.quantity.toNat) :
    decode point (.words words) = decodeWords point (Words.orderBytes point.byteSwap words) := by
  simp only [decode, WireValues.length, hlength, hword]
  rw [if_neg (Nat.lt_irrefl _), if_neg (by simp), ← hlength, List.take_length]

/-- A point with a bit field reads the number of the field. -/
theorem decode_field (hvalid : point.Valid) (hbits : point.bits = some field) (word : UInt16) :
    decode point (.words [word]) =
      .ok (divideBy point.scale (.int (Int64.ofInt (field.number (point.seen word))))) := by
  obtain ⟨hword, hnarrow, hfits⟩ := hvalid.field hbits
  have hquantity := Point.quantity_of_field hvalid hbits
  have hseen : Words.orderBytes point.byteSwap [word] = [point.seen word] := by
    rw [Words.orderBytes, Point.seen]
    split <;> rfl
  have hvalue : UInt16.ofNat (Words.value (Words.orderWords point.wordSwap [point.seen word])) =
      point.seen word := by
    simp [Words.orderWords, Words.value]
  have hsmall : field.number (point.seen word) ≤ maxInt64 :=
    Nat.le_of_lt (Nat.lt_trans (field.number_lt_size _) (by decide))
  obtain ⟨value, hextract, hnumber⟩ := BitField.extract?_of_fits hfits (point.seen word)
  rw [decode_words hword (by rw [hquantity]; rfl), hseen]
  cases hraw : point.rawType with
  | uint16 | int16 =>
      simp only [decodeWords, hraw, hvalue, decodeRegister, hbits, hextract, hnumber,
        unsigned_of_le hsmall]
      rfl
  | bool | uint32 | int32 | float32 | uint64 | int64 | float64 | string registers =>
      simp [hraw, RawType.is16Bit] at hnarrow

end Codec

end Fieldbus
