import Fieldbus.Proofs.Codec.Readings
import Mathlib.Algebra.Group.Int.Defs

/-!
# Numbers in bit fields

A bit field takes the numbers that its bits can spell and shows them again.  The rest of the
register is not touched, so numbers in disjoint fields of a register can be written in either
order.
-/

namespace Fieldbus

namespace BitField

variable {field other : BitField} {written otherWritten : Nat}
variable {old new first second last final : UInt16}

/-- The number can be spelled with the bits of the field. -/
def Holds (field : BitField) (value : Int64) : Prop :=
  0 ≤ value.toInt ∧ value.toInt < 2 ^ field.length.toNat

/-- The numbers that a field holds are those that a write accepts. -/
theorem holds_iff {value : Int64} :
    field.Holds value ↔ ¬(value.toInt < 0 ∨ (field.maxValue : Int) < value.toInt) := by
  have hpower : (2 : Int) ^ field.length.toNat = (2 ^ field.length.toNat : Nat) :=
    (Int.natCast_pow 2 _).symm
  have hpos : 0 < 2 ^ field.length.toNat := Nat.two_pow_pos _
  rw [Holds, hpower, maxValue, Nat.one_shiftLeft]
  omega

theorem Holds.le_maxValue {value : Int64} (hholds : field.Holds value) :
    value.toInt.toNat ≤ field.maxValue := by
  rw [holds_iff] at hholds
  omega

theorem Holds.natCast_toNat {value : Int64} (hholds : field.Holds value) :
    (value.toInt.toNat : Int) = value.toInt :=
  Int.toNat_of_nonneg hholds.1

theorem toInt_number (field : BitField) (word : UInt16) :
    (Int64.ofInt (field.number word)).toInt = field.number word := by
  have hsmall := field.number_lt_size word
  rw [UInt16.size] at hsmall
  exact Int64.toInt_ofInt_of_le (by omega) (by omega)

/-- What a field reads is a number that the field holds. -/
theorem holds_number (field : BitField) (word : UInt16) :
    field.Holds (Int64.ofInt (field.number word)) := by
  have hmax := field.number_le_maxValue word
  rw [holds_iff, toInt_number]
  omega

/-- Disjoint fields can be replaced in either order. -/
theorem Replaces.comm (hdisjoint : field.disjoint other = true)
    (hfirst : field.Replaces written old first) (hlast : other.Replaces otherWritten first last)
    (hsecond : other.Replaces otherWritten old second)
    (hfinal : field.Replaces written second final) : final = last := by
  simp only [disjoint, Bool.or_eq_true, decide_eq_true_eq] at hdisjoint
  apply UInt16.toNat_inj.mp
  apply Nat.eq_of_testBit_eq
  intro index
  rw [hfinal.testBit_eq, hsecond.testBit_eq, hlast.testBit_eq, hfirst.testBit_eq]
  by_cases hinside : field.offset.toNat ≤ index ∧ index < field.stop
  · have houtside : ¬(other.offset.toNat ≤ index ∧ index < other.stop) := by omega
    rw [if_pos hinside, if_neg houtside, if_pos hinside]
  · rw [if_neg hinside, if_neg hinside]

end BitField

namespace Codec

variable {point : Point} {field : BitField} {value : Int64}

theorem fieldNumber_int (hscale : point.scale = none) (value : Int64) :
    fieldNumber point (.int value) = .ok value.toInt := by
  rw [fieldNumber, hscale]
  rfl

/-- A number that the field holds can be written to it. -/
theorem exists_encode_number (hvalid : point.Valid) (hbits : point.bits = some field)
    (hscale : point.scale = none) (hholds : field.Holds value) (word : UInt16) :
    ∃ new, encode point (.int value) (some word) = .ok (.words [new]) ∧
      field.Replaces value.toInt.toNat (point.seen word) (point.seen new) := by
  obtain ⟨hword, -, hfits⟩ := hvalid.field hbits
  obtain ⟨merged, hmerge, hreplaces⟩ :=
    BitField.exists_merge hfits hholds.le_maxValue (point.seen word)
  refine ⟨point.seen merged, ?_, by rwa [Point.seen_seen]⟩
  rw [encode_field hword hbits, encodeField_eq, fieldNumber_int hscale]
  simp only [Except.bind, if_neg (BitField.holds_iff.mp hholds), hmerge, Except.map]

/-- Any other number is refused. -/
theorem encode_number_eq_error (hvalid : point.Valid) (hbits : point.bits = some field)
    (hscale : point.scale = none) (hholds : ¬field.Holds value) (word : UInt16) :
    encode point (.int value) (some word) =
      .error (.bitFieldOverflow value field.length) := by
  obtain ⟨hword, -, -⟩ := hvalid.field hbits
  have hbounds := Decidable.not_not.mp (mt BitField.holds_iff.mpr hholds)
  rw [encode_field hword hbits, encodeField_eq, fieldNumber_int hscale]
  simp only [Except.bind, if_pos hbounds, Int64.ofInt_toInt, Except.map]

/-- An unscaled bit field reads a number. -/
theorem decode_number (hvalid : point.Valid) (hbits : point.bits = some field)
    (hscale : point.scale = none) (word : UInt16) :
    decode point (.words [word]) =
      .ok (.int (Int64.ofInt (field.number (point.seen word)))) := by
  rw [decode_field hvalid hbits, hscale]
  rfl

end Codec

/-- What a point does with the numbers of its bit field. -/
structure Point.KeepsNumbers (point : Point) (field : BitField) : Prop where
  /-- A number that the field holds can be written.  Then the point reads it, all bits outside the
  field are as they were, and writing the number again changes nothing. -/
  accepts : ∀ (word : UInt16) (value : Int64), field.Holds value →
    ∃ new, Codec.encode point (.int value) (some word) = .ok (.words [new]) ∧
      Codec.decode point (.words [new]) = .ok (.int value) ∧
        (∀ index, index < field.offset.toNat ∨ field.stop ≤ index →
          (point.seen new).toNat.testBit index = (point.seen word).toNat.testBit index) ∧
            Codec.encode point (.int value) (some new) = .ok (.words [new])
  /-- Any other number is refused. -/
  refuses : ∀ (word : UInt16) (value : Int64), ¬field.Holds value →
    Codec.encode point (.int value) (some word) =
      .error (.bitFieldOverflow value field.length)
  /-- The point reads a number in every register, and writing it back changes nothing. -/
  restores : ∀ word : UInt16, ∃ value : Int64,
    Codec.decode point (.words [word]) = .ok (.int value) ∧
      Codec.encode point (.int value) (some word) = .ok (.words [word])
  /-- Numbers can be written to disjoint fields of a register in either order, if both points see
  its bytes in one order. -/
  commutes : ∀ (other : Point) (otherField : BitField), other.Valid →
    other.bits = some otherField → other.scale = none → other.byteSwap = point.byteSwap →
      field.disjoint otherField = true → ∀ (word : UInt16) (value otherValue : Int64),
        field.Holds value → otherField.Holds otherValue → ∃ first second last,
          Codec.encode point (.int value) (some word) = .ok (.words [first]) ∧
            Codec.encode other (.int otherValue) (some first) = .ok (.words [last]) ∧
              Codec.encode other (.int otherValue) (some word) = .ok (.words [second]) ∧
                Codec.encode point (.int value) (some second) = .ok (.words [last])

namespace Codec

variable {point : Point} {field : BitField}

/-- A bit field of a valid point keeps its numbers, whatever its width and place. -/
theorem keepsNumbers_of_field (hvalid : point.Valid) (hbits : point.bits = some field)
    (hscale : point.scale = none) : point.KeepsNumbers field where
  accepts word value hholds := by
    obtain ⟨new, hnew, hreplaces⟩ := exists_encode_number hvalid hbits hscale hholds word
    obtain ⟨again, hagain, hreplacesAgain⟩ := exists_encode_number hvalid hbits hscale hholds new
    obtain rfl : again = new := Point.eq_of_seen (hreplaces.again.unique hreplacesAgain)
    refine ⟨again, hnew, ?_, hreplaces.outside, hagain⟩
    rw [decode_number hvalid hbits hscale, hreplaces.number_eq hholds.le_maxValue,
      hholds.natCast_toNat, Int64.ofInt_toInt]
  refuses word value hholds := encode_number_eq_error hvalid hbits hscale hholds word
  restores word := by
    have hholds := field.holds_number (point.seen word)
    obtain ⟨new, hnew, hreplaces⟩ := exists_encode_number hvalid hbits hscale hholds word
    rw [BitField.toInt_number, Int.toNat_natCast] at hreplaces
    obtain rfl : new = word :=
      Point.eq_of_seen ((field.replaces_number (point.seen word)).unique hreplaces)
    exact ⟨_, decode_number hvalid hbits hscale new, hnew⟩
  commutes other otherField hother hotherBits hotherScale hswap hdisjoint word value otherValue
      hholds hotherHolds := by
    obtain ⟨first, hfirst, hfirstReplaces⟩ :=
      exists_encode_number hvalid hbits hscale hholds word
    obtain ⟨last, hlast, hlastReplaces⟩ :=
      exists_encode_number hother hotherBits hotherScale hotherHolds first
    obtain ⟨second, hsecond, hsecondReplaces⟩ :=
      exists_encode_number hother hotherBits hotherScale hotherHolds word
    obtain ⟨final, hfinal, hfinalReplaces⟩ :=
      exists_encode_number hvalid hbits hscale hholds second
    rw [Point.seen_congr hswap] at hlastReplaces hsecondReplaces
    obtain rfl : final = last :=
      Point.eq_of_seen (hfirstReplaces.comm hdisjoint hlastReplaces hsecondReplaces hfinalReplaces)
    exact ⟨first, second, final, hfirst, hlast, hsecond, hfinal⟩

/-- A field across both bytes of its register, of which the other eight bits stay. -/
theorem keepsNumbers_across_bytes :
    encode (.sampleField ⟨4, 8⟩ true) (.int 0xBC) (some 0x2F1E) = .ok (.words [0xCF1B]) ∧
      (Point.sampleField ⟨4, 8⟩ true).Valid ∧
        (Point.sampleField ⟨4, 8⟩ true).KeepsNumbers ⟨4, 8⟩ :=
  ⟨rfl, by decide, keepsNumbers_of_field (by decide) rfl rfl⟩

end Codec

end Fieldbus
