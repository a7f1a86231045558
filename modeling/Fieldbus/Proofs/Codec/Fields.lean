import Fieldbus.Codec.RegisterCodec
import Fieldbus.Proofs.Codec.Bytes

/-!
# Written fields

A value that is written to a bit field replaces the bits of the field and no others.  Whether a
value can be written does not depend on the register.
-/

namespace Fieldbus

section Success

variable {E A B : Type} {step : Except E A} {result : B}

/-- A sequence that succeeds has a first part that succeeds. -/
theorem exists_of_bind_eq_ok {next : A → Except E B} (hbind : step >>= next = .ok result) :
    ∃ value, step = .ok value ∧ next value = .ok result := by
  cases step with
  | error error => cases hbind
  | ok value => exact ⟨value, rfl, hbind⟩

theorem exists_of_map_eq_ok {f : A → B} (hmap : step.map f = .ok result) :
    ∃ value, step = .ok value ∧ f value = result := by
  cases step with
  | error error => cases hmap
  | ok value => exact ⟨value, rfl, Except.ok.inj hmap⟩

end Success

/-- The bits of a field are those of a number, and all other bits are left as they were. -/
structure BitField.Replaces (field : BitField) (number : Nat) (old new : UInt16) : Prop where
  inside : ∀ index < field.length.toNat,
    new.toNat.testBit (field.offset.toNat + index) = number.testBit index
  outside : ∀ index, index < field.offset.toNat ∨ field.stop ≤ index →
    new.toNat.testBit index = old.toNat.testBit index

namespace BitField

variable {field : BitField} {number : Nat} {old new other : UInt16}

theorem Replaces.testBit_eq (hreplaces : field.Replaces number old new) (index : Nat) :
    new.toNat.testBit index =
      if field.offset.toNat ≤ index ∧ index < field.stop then
        number.testBit (index - field.offset.toNat)
      else old.toNat.testBit index := by
  split
  · next hinside =>
      obtain ⟨place, rfl⟩ := Nat.exists_eq_add_of_le hinside.1
      rw [Nat.add_sub_cancel_left]
      exact hreplaces.inside place (Nat.lt_of_add_lt_add_left hinside.2)
  · next houtside =>
      apply hreplaces.outside
      omega

theorem Replaces.unique (hnew : field.Replaces number old new)
    (hother : field.Replaces number old other) : other = new := by
  apply UInt16.toNat_inj.mp
  apply Nat.eq_of_testBit_eq
  intro index
  rw [hother.testBit_eq, hnew.testBit_eq]

/-- A field that holds the number already is not changed. -/
theorem Replaces.again (hnew : field.Replaces number old new) : field.Replaces number new new where
  inside := hnew.inside
  outside _ _ := rfl

theorem testBit_not (word : UInt16) (index : Nat) :
    (~~~word).toNat.testBit index = (decide (index < 16) && !word.toNat.testBit index) := by
  rw [← UInt16.toNat_toBitVec, ← UInt16.toNat_toBitVec, UInt16.toBitVec_not,
    BitVec.testBit_toNat, BitVec.testBit_toNat, BitVec.getLsbD_not]

theorem testBit_shiftLeft (hoffset : field.offset.toNat < 16) (word : UInt16) (index : Nat) :
    (word <<< field.offset.toUInt16).toNat.testBit index =
      (decide (index < 16) && (decide (field.offset.toNat ≤ index) &&
        word.toNat.testBit (index - field.offset.toNat))) := by
  rw [UInt16.toNat_shiftLeft, Nat.testBit_mod_two_pow, Nat.testBit_shiftLeft]
  simp [Nat.mod_eq_of_lt hoffset]

theorem testBit_mask (hfits : field.Fits) (index : Nat) :
    field.mask.toNat.testBit index =
      decide (field.offset.toNat ≤ index ∧ index < field.stop) := by
  obtain ⟨hpos, hstop⟩ := hfits
  rw [stop] at hstop
  rw [mask, testBit_shiftLeft (by omega), UInt16.toNat_ofNat', Nat.testBit_mod_two_pow,
    Nat.one_shiftLeft, Nat.testBit_two_pow_sub_one, stop]
  by_cases hinside : field.offset.toNat ≤ index ∧ index < field.offset.toNat + field.length.toNat
  · simp [hinside]
    omega
  · simp [hinside]
    omega

/-- Merging a number into a register replaces the field. -/
theorem exists_merge (hfits : field.Fits) (hnumber : number ≤ field.maxValue) (old : UInt16) :
    ∃ new, field.merge? old (UInt16.ofNat number) = some new ∧
      field.Replaces number old new := by
  have hstop : field.offset.toNat + field.length.toNat ≤ 16 := hfits.2
  have hoffset : field.offset.toNat < 16 := by
    have hpos := hfits.1
    omega
  have hsmall : number < 2 ^ 16 := by
    have hlength : 2 ^ field.length.toNat ≤ 2 ^ 16 :=
      Nat.pow_le_pow_right Nat.two_pos (by omega)
    have hpos : 0 < 2 ^ field.length.toNat := Nat.two_pow_pos _
    rw [maxValue, Nat.one_shiftLeft] at hnumber
    omega
  refine ⟨_, if_pos (hasMask_of_fits hfits), ?_⟩
  constructor
  · intro index hindex
    have hinside : field.offset.toNat + index < field.stop := by
      rw [stop]
      omega
    rw [UInt16.toNat_or, UInt16.toNat_and, UInt16.toNat_and, Nat.testBit_or, Nat.testBit_and,
      Nat.testBit_and, testBit_not, testBit_mask hfits, testBit_shiftLeft hoffset,
      UInt16.toNat_ofNat', Nat.mod_eq_of_lt hsmall, Nat.add_sub_cancel_left]
    have hindex16 : field.offset.toNat + index < 16 := by omega
    simp [hinside, hindex16]
  · intro index houtside
    have hnot : ¬(field.offset.toNat ≤ index ∧ index < field.stop) := by omega
    rw [UInt16.toNat_or, UInt16.toNat_and, UInt16.toNat_and, Nat.testBit_or, Nat.testBit_and,
      Nat.testBit_and, testBit_not, testBit_mask hfits, decide_eq_false hnot]
    by_cases hindex : index < 16
    · simp [hindex]
    · have hlarge : old.toNat < 2 ^ index :=
        Nat.lt_of_lt_of_le old.toNat_lt (Nat.pow_le_pow_right Nat.two_pos (by omega))
      simp [hindex, Nat.testBit_lt_two_pow hlarge]

end BitField

namespace Point

variable {point : Point}

theorem Valid.checks (hvalid : point.Valid) :
    (∃ range, point.range = .ok range) ∧ point.checkBits = .ok () := by
  simp only [Valid, validate, bind, Except.bind] at hvalid
  split at hvalid
  · simp [throw, throwThe, MonadExceptOf.throw] at hvalid
  · split at hvalid
    · simp [throw, throwThe, MonadExceptOf.throw] at hvalid
    · cases hrange : point.range with
      | error error => simp [hrange] at hvalid
      | ok range =>
          cases hbits : point.checkBits with
          | error error => simp [hrange, hbits] at hvalid
          | ok _ => exact ⟨⟨range, rfl⟩, rfl⟩

/-- The addresses of a valid point do not leave the address space. -/
theorem Valid.stop_le (hvalid : point.Valid) :
    point.address.toNat + point.quantity.toNat ≤ AddressRange.spaceSize := by
  obtain ⟨⟨range, hrange⟩, -⟩ := hvalid.checks
  obtain ⟨rfl, hrangeValid⟩ := range_eq_ok_iff.mp hrange
  exact hrangeValid.2

theorem Valid.range_eq (hvalid : point.Valid) :
    point.range = .ok ⟨point.address, point.quantity⟩ := by
  obtain ⟨⟨range, hrange⟩, -⟩ := hvalid.checks
  rw [hrange, (range_eq_ok_iff.mp hrange).1]

/-- A bit field of a valid point lies in one register. -/
theorem Valid.field {field : BitField} (hvalid : point.Valid) (hbits : point.bits = some field) :
    point.registerClass.isBit = false ∧ point.rawType.is16Bit = true ∧ field.Fits := by
  have hchecks := hvalid.checks.2
  simp only [checkBits, hbits] at hchecks
  split at hchecks
  · next hcondition =>
      simp only [Bool.and_eq_true, Bool.not_eq_true', decide_eq_true_eq] at hcondition
      exact ⟨hcondition.1.1, hcondition.1.2, hcondition.2⟩
  · simp at hchecks

end Point

/-- A register as a point sees it. -/
def Point.seen (point : Point) (word : UInt16) : UInt16 :=
  if point.byteSwap then Words.swapBytes word else word

theorem Point.seen_seen (point : Point) (word : UInt16) : point.seen (point.seen word) = word := by
  rw [seen, seen]
  split
  · exact Words.swapBytes_swapBytes word
  · rfl

/-- Points that swap alike see the same. -/
theorem Point.seen_congr {point other : Point} (hswap : other.byteSwap = point.byteSwap) :
    other.seen = point.seen := by
  funext word
  rw [seen, seen, hswap]

theorem Point.eq_of_seen {point : Point} {left right : UInt16}
    (hseen : point.seen left = point.seen right) : left = right :=
  calc left
    _ = point.seen (point.seen left) := (point.seen_seen left).symm
    _ = point.seen (point.seen right) := by rw [hseen]
    _ = right := point.seen_seen right

namespace Codec

/-- The number that a value writes to a bit field. -/
def fieldNumber (point : Point) (value : PointValue) : Except EncodingError Int := do
  toInteger point.rawType (← unscaled point.scale value)

theorem encodeField_eq (point : Point) (field : BitField) (value : PointValue)
    (current : UInt16) :
    encodeField point field value (some current) =
      (fieldNumber point value).bind fun number =>
        if number < 0 ∨ field.maxValue < number then
          .error (.bitFieldOverflow (Int64.ofInt number) field.length)
        else
          match field.merge? (point.seen current) (UInt16.ofNat number.toNat) with
          | some merged => .ok (point.seen merged)
          | none => .error .fieldOutsideRegister := by
  simp only [encodeField, fieldNumber, Point.seen]
  cases unscaled point.scale value with
  | error error => rfl
  | ok plain =>
      cases hinteger : toInteger point.rawType plain with
      | error error => simp only [hinteger, Except.bind, bind]
      | ok number =>
          simp only [hinteger, Except.bind, bind]
          split
          · rfl
          · cases field.merge? (if point.byteSwap then Words.swapBytes current else current)
              (UInt16.ofNat number.toNat) <;> rfl

/-- What can be written to a bit field once can be written to it always. -/
theorem exists_encodeField {point : Point} {field : BitField} {value : PointValue}
    {current : Option UInt16} {word : UInt16} (hfits : field.Fits)
    (hencode : encodeField point field value current = .ok word) :
    ∃ number : Nat, fieldNumber point value = .ok number ∧ number ≤ field.maxValue ∧
      ∀ old, ∃ new, encodeField point field value (some old) = .ok new ∧
        field.Replaces number (point.seen old) (point.seen new) := by
  cases current with
  | none => simp [encodeField, throw, throwThe, MonadExceptOf.throw] at hencode
  | some current =>
      rw [encodeField_eq] at hencode
      cases hnumber : fieldNumber point value with
      | error error => simp [hnumber, Except.bind] at hencode
      | ok integer =>
          simp only [hnumber, Except.bind] at hencode
          split at hencode
          · simp at hencode
          · next hbounds =>
              obtain ⟨hnonneg, hsmall⟩ := not_or.mp hbounds
              obtain ⟨number, rfl⟩ := Int.eq_ofNat_of_zero_le (Int.not_lt.mp hnonneg)
              have hmax : number ≤ field.maxValue := by omega
              refine ⟨number, rfl, hmax, fun old => ?_⟩
              obtain ⟨merged, hmerge, hreplaces⟩ :=
                BitField.exists_merge hfits hmax (point.seen old)
              refine ⟨point.seen merged, ?_, by rwa [Point.seen_seen]⟩
              rw [encodeField_eq, hnumber]
              simp only [Except.bind, if_neg hbounds, Int.toNat_natCast, hmerge]

theorem length_encodeText {value : PointValue} {registers : UInt16} {words : List UInt16}
    (hencode : encodeText value registers = .ok words) : words.length = registers.toNat := by
  have hbytes : ∀ bytes, encodeText (.bytes bytes) registers = .ok words →
      words.length = registers.toNat := by
    intro bytes hpadded
    simp only [encodeText, pure_bind] at hpadded
    split at hpadded
    · cases hpadded
    · next hlength =>
        obtain rfl := Except.ok.inj hpadded
        apply Words.length_ofBytes
        rw [List.length_append, List.length_replicate]
        omega
  cases value with
  | text text => exact hbytes (textBytes text) hencode
  | bytes bytes => exact hbytes bytes hencode
  | bool | int | float => cases hencode

variable {point : Point} {field : BitField} {value : PointValue} {current : Option UInt16}
variable {values : WireValues}

theorem encode_bit (hbit : point.registerClass.isBit = true)
    (hencode : encode point value current = .ok values) : ∃ bit, values = .bits [bit] := by
  simp only [encode, hbit, if_true] at hencode
  obtain ⟨bit, -, hvalues⟩ := exists_of_bind_eq_ok hencode
  exact ⟨bit, (Except.ok.inj hvalues).symm⟩

theorem encode_field (hword : point.registerClass.isBit = false)
    (hbits : point.bits = some field) (value : PointValue) (current : Option UInt16) :
    encode point value current =
      (encodeField point field value current).map fun word => .words [word] := by
  simp only [encode, hword, hbits]
  cases encodeField point field value current <;> rfl

/-- Whether a value can be written to a bit field, and why not, does not depend on the register. -/
theorem encodeField_eq_error_iff (point : Point) (field : BitField) (value : PointValue)
    (old new : UInt16) (error : EncodingError) :
    encodeField point field value (some old) = .error error ↔
      encodeField point field value (some new) = .error error := by
  rw [encodeField_eq, encodeField_eq]
  cases fieldNumber point value with
  | error cause => rfl
  | ok number =>
      simp only [Except.bind]
      split
      · rfl
      · by_cases hmask : field.hasMask = true
        · simp [BitField.merge?, hmask]
        · simp [BitField.merge?, hmask]

/-- No point has a value whose encoding fails for some contents of a register only. -/
theorem encode_eq_error_iff (point : Point) (value : PointValue) (old new : UInt16)
    (error : EncodingError) :
    encode point value (some old) = .error error ↔
      encode point value (some new) = .error error := by
  cases hclass : point.registerClass.isBit with
  | true => simp only [encode, hclass, if_true]
  | false =>
      cases hbits : point.bits with
      | none =>
          simp only [encode, hclass, hbits]
          cases point.rawType <;> rfl
      | some field =>
          have hmapped : ∀ current, encode point value current = .error error ↔
              encodeField point field value current = .error error := by
            intro current
            rw [encode_field hclass hbits]
            cases encodeField point field value current <;> simp [Except.map]
          rw [hmapped, hmapped]
          exact encodeField_eq_error_iff point field value old new error

theorem length_encode_plain (hword : point.registerClass.isBit = false)
    (hbits : point.bits = none) (hencode : encode point value current = .ok values) :
    values.length = point.rawType.registers.toNat := by
  rw [encode, hword, hbits] at hencode
  have hnumber : ∀ count, (do
      let pattern ← encodeNumber point value
      let words := Words.ofValue count pattern
      return WireValues.words
        (Words.orderBytes point.byteSwap (Words.orderWords point.wordSwap words)) :
          Except EncodingError WireValues) = .ok values → values.length = count := by
    intro count hencode
    obtain ⟨pattern, -, hvalues⟩ := exists_of_bind_eq_ok hencode
    obtain rfl := Except.ok.inj hvalues
    rw [WireValues.length, Words.length_orderBytes, Words.length_orderWords,
      Words.length_ofValue]
  cases hraw : point.rawType with
  | string registers =>
      simp only [hraw] at hencode
      obtain ⟨words, hwords, hvalues⟩ := exists_of_bind_eq_ok hencode
      obtain rfl := Except.ok.inj hvalues
      exact (Words.length_orderBytes _ _).trans (length_encodeText hwords)
  | bool | uint16 | int16 | uint32 | int32 | float32 | uint64 | int64 | float64 =>
      simp only [hraw] at hencode
      exact hnumber _ hencode

theorem registers_of_is16Bit {rawType : RawType} (hnarrow : rawType.is16Bit = true) :
    rawType.registers = 1 := by
  cases rawType <;> first | rfl | simp [RawType.is16Bit] at hnarrow

/-- What a value is encoded as fills the addresses of its point. -/
theorem length_encode (hvalid : point.Valid)
    (hencode : encode point value current = .ok values) :
    values.length = point.quantity.toNat := by
  rw [Point.quantity]
  split
  · next hbit =>
      obtain ⟨bit, rfl⟩ := encode_bit hbit hencode
      rfl
  · next hword =>
      have hclass := (Bool.not_eq_true _).mp hword
      cases hbits : point.bits with
      | none => exact length_encode_plain hclass hbits hencode
      | some field =>
          rw [encode_field hclass hbits] at hencode
          obtain ⟨word, -, rfl⟩ := exists_of_map_eq_ok hencode
          rw [registers_of_is16Bit (hvalid.field hbits).2.1]
          rfl

end Codec

end Fieldbus
