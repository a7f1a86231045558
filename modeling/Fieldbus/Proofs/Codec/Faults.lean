import Fieldbus.Codec.Checked
import Fieldbus.Proofs.Codec.Bytes
import Fieldbus.Proofs.Codec.Readings
import Fieldbus.Proofs.Codec.Strings
import Fieldbus.Proofs.Polling.Members

/-!
# Faults

The codec of a valid point takes no step at which a machine stops.  What makes a point valid keeps
its bit field in one register and its number in four, and a reading that has enough values has a
word at every place that it looks at.
-/

namespace Fieldbus

namespace BitField.Fits

variable {field : BitField}

theorem length_le (hfits : field.Fits) : field.length.toNat ≤ 16 :=
  Nat.le_trans (Nat.le_add_left _ _) hfits.2

theorem offset_lt (hfits : field.Fits) : field.offset.toNat < 16 :=
  Nat.lt_of_lt_of_le (Nat.lt_add_of_pos_right hfits.1) hfits.2

end BitField.Fits

/-- The values are bits and not words. -/
def WireValues.areBits : WireValues → Bool
  | bits _ => true
  | words _ => false

namespace Codec

namespace Checked

section Fields

variable {E : Type} {field : BitField}

theorem toNat_one {width : Nat} (hwidth : 0 < width) : (1 : BitVec width).toNat = 1 :=
  Nat.mod_eq_of_lt (Nat.one_lt_two_pow (Nat.ne_of_gt hwidth))

/-- A power that a width holds. -/
theorem toNat_one_shiftLeft {width amount : Nat} (hamount : amount < width) :
    ((1 : BitVec width) <<< amount).toNat = 2 ^ amount := by
  have hpow : 2 ^ amount < 2 ^ width := Nat.pow_lt_pow_right (by decide) hamount
  rw [BitVec.toNat_shiftLeft, toNat_one (Nat.zero_lt_of_lt hamount), Nat.one_shiftLeft,
    Nat.mod_eq_of_lt hpow]

theorem one_le_one_shiftLeft {width amount : Nat} (hamount : amount < width) :
    (1 : BitVec width) ≤ (1 : BitVec width) <<< amount := by
  rw [BitVec.le_def, toNat_one_shiftLeft hamount, toNat_one (Nat.zero_lt_of_lt hamount)]
  exact Nat.one_le_two_pow

/-- A field of ones at the low end of a word. -/
theorem toNat_ones {width amount : Nat} (hamount : amount < width) :
    ((1 : BitVec width) <<< amount - 1).toNat = 2 ^ amount - 1 := by
  rw [BitVec.toNat_sub_of_le (one_le_one_shiftLeft hamount), toNat_one_shiftLeft hamount,
    toNat_one (Nat.zero_lt_of_lt hamount)]

theorem ofBitVec_shiftLeft (word : UInt16) {amount : UInt8} (hamount : amount.toNat < 16) :
    UInt16.ofBitVec (word.toBitVec <<< amount.toNat) = word <<< amount.toUInt16 := by
  apply UInt16.toNat_inj.mp
  rw [UInt16.toNat_shiftLeft, UInt8.toNat_toUInt16, Nat.mod_eq_of_lt hamount]
  exact BitVec.toNat_shiftLeft

theorem ofBitVec_shiftRight (word : UInt16) {amount : UInt8} (hamount : amount.toNat < 16) :
    UInt16.ofBitVec (word.toBitVec >>> amount.toNat) = word >>> amount.toUInt16 := by
  apply UInt16.toNat_inj.mp
  rw [UInt16.toNat_shiftRight, UInt8.toNat_toUInt16, Nat.mod_eq_of_lt hamount]
  exact BitVec.toNat_ushiftRight ..

theorem fieldMask_of_fits (hfits : field.Fits) :
    (fieldMask field : Checked E _) = .ok field.mask.toBitVec := by
  have hoffset := hfits.offset_lt
  have hlength := hfits.length_le
  have hwidth : field.length.toNat < 32 := by omega
  have hlow : UInt16.ofNat ((1 <<< field.length.toNat) - 1) =
      .ofBitVec (((1 : BitVec 32) <<< field.length.toNat - 1).setWidth 16) := by
    apply UInt16.toNat_inj.mp
    rw [UInt16.toNat_ofNat', Nat.one_shiftLeft, UInt16.toNat_ofBitVec, BitVec.toNat_setWidth,
      toNat_ones hwidth]
  rw [fieldMask, shiftLeft_of_lt hwidth, ok_bind, subtract_of_le (one_le_one_shiftLeft hwidth),
    ok_bind, shiftLeft_of_lt hoffset, BitField.mask, hlow, ← ofBitVec_shiftLeft _ hoffset]

theorem extractBits_of_fits (hfits : field.Fits) {word value : UInt16}
    (hextract : field.extract? word = some value) :
    (extractBits field word : Checked E _) = .ok value := by
  have hoffset := hfits.offset_lt
  rw [BitField.extract?, if_pos (BitField.hasMask_of_fits hfits)] at hextract
  rw [extractBits, fieldMask_of_fits hfits, ok_bind, shiftRight_of_lt hoffset, ok_bind,
    ← Option.some.inj hextract, ← ofBitVec_shiftRight _ hoffset]
  rfl

theorem mergeBits_of_fits (hfits : field.Fits) {word value merged : UInt16}
    (hmerge : field.merge? word value = some merged) :
    (mergeBits field word value : Checked E _) = .ok merged := by
  have hoffset := hfits.offset_lt
  rw [BitField.merge?, if_pos (BitField.hasMask_of_fits hfits)] at hmerge
  rw [mergeBits, fieldMask_of_fits hfits, ok_bind, shiftLeft_of_lt hoffset, ok_bind,
    ← Option.some.inj hmerge, ← ofBitVec_shiftLeft _ hoffset]
  rfl

theorem maxValue_of_fits (hfits : field.Fits) :
    (maxValue field : Checked E _) = .ok (field.maxValue : Int) := by
  have hlength := hfits.length_le
  have hwidth : field.length.toNat < 128 := by omega
  have hsmall : 2 ^ field.length.toNat ≤ 2 ^ 16 := Nat.pow_le_pow_right Nat.two_pos hlength
  have hpos : 0 < 2 ^ field.length.toNat := Nat.two_pow_pos _
  have hone : (1 : BitVec 128).toInt = 1 := by decide
  have hpower : ((1 : BitVec 128) <<< field.length.toNat).toInt =
      (2 ^ field.length.toNat : Nat) := by
    rw [BitVec.toInt_eq_toNat_of_lt, toNat_one_shiftLeft hwidth]
    rw [toNat_one_shiftLeft hwidth]
    omega
  rw [maxValue, shiftLeft_of_lt hwidth, ok_bind, subtractSigned_of_bounds, ok_bind,
    BitVec.toInt_eq_toNat_of_lt, toNat_ones hwidth, BitField.maxValue, Nat.one_shiftLeft]
  · rfl
  · rw [toNat_ones hwidth]
    omega
  · rw [hpower, hone]
    omega

end Fields

section Numbers

variable {E A B : Type}

theorem mapM_eq_ok {step : A → Checked E B} {result : A → B} {items : List A}
    (hstep : ∀ item ∈ items, step item = .ok (result item)) :
    items.mapM step = .ok (items.map result) := by
  induction items with
  | nil => rfl
  | cons first rest ih =>
      rw [List.mapM_cons, hstep first List.mem_cons_self, ok_bind,
        ih fun item hitem => hstep item (List.mem_cons_of_mem first hitem), ok_bind]
      rfl

/-- One more word is one more digit. -/
theorem or_setWidth_word (high : Nat) (word : UInt16) :
    (BitVec.ofNat 64 high <<< 16 ||| word.toBitVec.setWidth 64) =
      .ofNat 64 (high * UInt16.size + word.toNat) := by
  have hword := word.toNat_lt
  have hsmall : word.toNat % 2 ^ 64 = word.toNat := Nat.mod_eq_of_lt (by omega)
  have hshift : (high % 2 ^ 64) <<< 16 % 2 ^ 64 = (high % 2 ^ 48) <<< 16 := by
    rw [Nat.shiftLeft_eq, Nat.shiftLeft_eq]
    omega
  apply BitVec.eq_of_toNat_eq
  rw [BitVec.toNat_or, BitVec.toNat_shiftLeft, BitVec.toNat_setWidth, BitVec.toNat_ofNat,
    BitVec.toNat_ofNat, hshift, UInt16.toNat_toBitVec, hsmall,
    ← Nat.shiftLeft_add_eq_or_of_lt hword, Nat.shiftLeft_eq, UInt16.size]
  omega

theorem join_eq (words : List UInt16) :
    (join words : Checked E _) = .ok (.ofNat 64 (Words.value words)) := by
  induction words using List.reverseRecOn with
  | nil => rfl
  | append_singleton words word ih =>
      rw [join, List.foldlM_append]
      change ((join words : Checked E _) >>= fun high => _) = _
      rw [ih, ok_bind, List.foldlM_cons, shiftLeft_of_lt (by decide), ok_bind,
        Words.value_append_singleton, ← or_setWidth_word]
      rfl

theorem word_eq (number : Nat) {place : Nat} (hplace : place < 4) :
    (word (.ofNat 64 number) place : Checked E _) =
      .ok (.ofNat (number / UInt16.size ^ place)) := by
  have hamount : ((16 : BitVec 32) * .ofNat 32 place).toNat = 16 * place := by
    rw [BitVec.toNat_mul, BitVec.toNat_ofNat]
    change 16 * (place % 2 ^ 32) % 2 ^ 32 = 16 * place
    omega
  have hmultiply : (multiply (16 : BitVec 32) (.ofNat 32 place) : Checked E _) =
      .ok (16 * .ofNat 32 place) := by
    apply multiply_of_lt
    rw [BitVec.toNat_ofNat]
    change 16 * (place % 2 ^ 32) < 2 ^ 32
    omega
  have hdigit : number % 2 ^ 64 / 2 ^ (16 * place) % 2 ^ 16 =
      number / UInt16.size ^ place % 2 ^ 16 := by
    have hsize : UInt16.size ^ place = 2 ^ (16 * place) := by rw [Nat.pow_mul]
    apply Nat.eq_of_testBit_eq
    intro index
    rw [hsize, Nat.testBit_mod_two_pow, Nat.testBit_mod_two_pow, Nat.testBit_div_two_pow,
      Nat.testBit_div_two_pow, Nat.testBit_mod_two_pow]
    by_cases hindex : index < 16
    · have hinside : index + 16 * place < 64 := by omega
      simp [hinside]
    · simp [hindex]
  rw [word, hmultiply, ok_bind, hamount, shiftRight_of_lt (by omega), ok_bind]
  apply congrArg Except.ok
  apply UInt16.toNat_inj.mp
  rw [UInt16.toNat_ofBitVec, BitVec.toNat_setWidth, BitVec.toNat_ushiftRight,
    Nat.shiftRight_eq_div_pow, BitVec.toNat_ofNat, UInt16.toNat_ofNat', hdigit]

/-- The digits of a number, by their places. -/
theorem ofValue_eq_map (count number : Nat) :
    Words.ofValue count number =
      (List.range count).reverse.map fun place => .ofNat (number / UInt16.size ^ place) := by
  induction count generalizing number with
  | zero => rfl
  | succ count ih =>
      rw [Words.ofValue, ih, List.range_succ_eq_map, List.reverse_cons, List.map_append,
        ← List.map_reverse, List.map_map]
      congr 1
      · apply List.map_congr_left
        intro place _
        rw [Function.comp, Nat.pow_succ', Nat.div_div_eq_div_mul]
      · simp

theorem split_eq (number : Nat) {registers : UInt16} (hregisters : registers.toNat ≤ 4) :
    (split (.ofNat 64 number) registers : Checked E _) =
      .ok (Words.ofValue registers.toNat number) := by
  rw [split, ofValue_eq_map]
  apply mapM_eq_ok
  intro place hplace
  rw [List.mem_reverse, List.mem_range] at hplace
  exact word_eq number (Nat.lt_of_lt_of_le hplace hregisters)

theorem mapM_chunks (count : Nat) (bytes : List UInt8) (hlength : bytes.length = 2 * count) :
    (chunks bytes).mapM chunkWord = (.ok (Words.ofBytes bytes) : Checked E _) := by
  refine Words.pairs_induction
    (motive := fun _ bytes =>
      (chunks bytes).mapM chunkWord = (.ok (Words.ofBytes bytes) : Checked E _)) rfl ?_ hlength
  intro count high low rest ih
  rw [chunks, List.mapM_cons, ih]
  rfl

theorem encodeText_eq (value : PointValue) (registers : UInt16) :
    encodeText value registers = ofExcept (Codec.encodeText value registers) := by
  have hcapacity : ∀ bytes, encodeText (.bytes bytes) registers =
      ofExcept (Codec.encodeText (.bytes bytes) registers) := by
    intro bytes
    have hregisters := registers.toNat_lt
    have hsize : (registers.toBitVec.setWidth 32).toNat = registers.toNat := by
      rw [BitVec.toNat_setWidth, UInt16.toNat_toBitVec]
      omega
    have hdouble : (registers.toBitVec.setWidth 32 * 2).toNat = 2 * registers.toNat := by
      rw [BitVec.toNat_mul, hsize]
      change registers.toNat * 2 % 2 ^ 32 = 2 * registers.toNat
      omega
    have hmultiply : (multiply (registers.toBitVec.setWidth 32) 2 : Checked EncodingError _) =
        .ok (registers.toBitVec.setWidth 32 * 2) := by
      apply multiply_of_lt
      rw [hsize]
      change registers.toNat * 2 < 2 ^ 32
      omega
    have hcontent : (PointValue.bytes bytes).content? = some bytes := rfl
    simp only [encodeText, pure_bind, hmultiply, ok_bind, hdouble,
      Codec.encodeText_eq hcontent]
    split
    · rfl
    · apply mapM_chunks registers.toNat
      rw [List.length_append, List.length_replicate]
      omega
  cases value with
  | text text => exact hcapacity (textBytes text)
  | bytes bytes => exact hcapacity bytes
  | bool value | int value | float value => rfl

end Numbers

/-! ## Points -/

section Points

variable {point : Point}

/-- A point in one register decodes from its word. -/
theorem decodeWords_singleton (hfits : ∀ field, point.bits = some field → field.Fits)
    (hsingle : point.rawType = .bool ∨ point.rawType.is16Bit = true) (word : UInt16) :
    decodeWords point [word] = ofExcept (Codec.decodeWords point [word]) := by
  have hordered : Words.orderWords point.wordSwap [word] = [word] := by
    cases point.wordSwap <;> rfl
  have hvalue : Words.value [word] = word.toNat := by simp [Words.value]
  cases hraw : point.rawType with
  | bool =>
      have hzero : (word.toNat != 0) = (word != 0) := by
        rw [Bool.eq_iff_iff, bne_iff_ne, bne_iff_ne, ← UInt16.toNat_zero]
        exact not_congr UInt16.toNat_inj
      simp only [decodeWords, Codec.decodeWords, hraw, item_zero, ok_bind, hordered, hvalue, hzero]
      rfl
  | uint16 | int16 =>
      cases hbits : point.bits with
      | none =>
          simp only [decodeWords, Codec.decodeWords, decodeRegister, hraw, hbits, item_zero,
            ok_bind, hordered, hvalue, UInt16.ofNat_toNat]
          rfl
      | some field =>
          obtain ⟨value, hextract, -⟩ := BitField.extract?_of_fits (hfits field hbits) word
          simp only [decodeWords, Codec.decodeWords, decodeRegister, hraw, hbits, item_zero,
            ok_bind, hordered, hvalue, UInt16.ofNat_toNat, hextract,
            extractBits_of_fits (hfits field hbits) hextract]
          rfl
  | uint32 | int32 | float32 | uint64 | int64 | float64 | string registers =>
      simp [hraw, RawType.is16Bit] at hsingle

theorem decodeWords_eq (hfits : ∀ field, point.bits = some field → field.Fits)
    {words : List UInt16} (hlength : words.length = point.rawType.registers.toNat) :
    decodeWords point words = ofExcept (Codec.decodeWords point words) := by
  have hvalue := Words.value_lt (Words.orderWords point.wordSwap words)
  rw [Words.length_orderWords, hlength] at hvalue
  cases hraw : point.rawType with
  | string registers =>
      simp only [decodeWords, Codec.decodeWords, hraw]
      rfl
  | bool | uint16 | int16 =>
      rw [hraw] at hlength
      obtain ⟨word, rfl⟩ := List.length_eq_one_iff.mp hlength
      exact decodeWords_singleton hfits (by simp [hraw, RawType.is16Bit]) word
  | uint32 | int32 | float32 =>
      have hnarrow : 32 ≤ 64 := by decide
      replace hvalue : Words.value (Words.orderWords point.wordSwap words) < 2 ^ 32 := by
        rwa [hraw] at hvalue
      simp only [decodeWords, Codec.decodeWords, hraw, join_eq, ok_bind,
        BitVec.setWidth_ofNat_of_le hnarrow, BitVec.toNat_ofNat, Nat.mod_eq_of_lt hvalue]
      rfl
  | uint64 | int64 | float64 =>
      replace hvalue : Words.value (Words.orderWords point.wordSwap words) < 2 ^ 64 := by
        rwa [hraw] at hvalue
      simp only [decodeWords, Codec.decodeWords, hraw, join_eq, ok_bind, BitVec.toNat_ofNat,
        Nat.mod_eq_of_lt hvalue]
      rfl

theorem encodeField_eq {field : BitField} (hfits : field.Fits) (value : PointValue)
    (current : Option UInt16) :
    encodeField point field value current =
      ofExcept (Codec.encodeField point field value current) := by
  cases current with
  | none => rfl
  | some current =>
      rw [Codec.encodeField_eq, fieldNumber]
      have hseen : ∀ word,
          (if point.byteSwap then Words.swapBytes word else word) = point.seen word :=
        fun _ => rfl
      simp only [encodeField, maxValue_of_fits hfits, ok_bind, hseen]
      cases unscaled point.scale value with
      | error error => rfl
      | ok plain =>
          simp only [ofExcept_ok, ok_bind]
          cases hnumber : toInteger point.rawType plain with
          | error error => simp only [hnumber, bind, Except.bind]; rfl
          | ok number =>
              simp only [hnumber, bind, Except.bind, ofExcept_ok]
              split
              · rfl
              · next hbounds =>
                  obtain ⟨number, rfl⟩ := Int.eq_ofNat_of_zero_le
                    (Int.not_lt.mp (not_or.mp hbounds).1)
                  obtain ⟨merged, hmerge, -⟩ := BitField.exists_merge hfits
                    (Int.ofNat_le.mp (Int.not_lt.mp (not_or.mp hbounds).2)) (point.seen current)
                  simp only [Int.toNat_natCast, hmerge, mergeBits_of_fits hfits hmerge]
                  rfl

theorem decode_eq (hvalid : point.Valid) (values : WireValues) :
    decode point values = ofExcept (Codec.decode point values) := by
  have hpos : 0 < point.quantity.toNat := (Point.range_eq_ok_iff.mp hvalid.range_eq).2.1
  cases values with
  | bits bits =>
      cases bits with
      | nil =>
          simp only [decode, Codec.decode, WireValues.length, List.length_nil, hpos, if_true]
          rfl
      | cons first rest =>
          simp only [decode, Codec.decode, item_zero, ok_bind]
          split
          · rfl
          · cases point.registerClass.isBit <;> rfl
  | words words =>
      simp only [decode, Codec.decode]
      split
      · rfl
      · next hshort =>
          have henough : point.quantity.toNat ≤ words.length := Nat.not_lt.mp hshort
          cases hclass : point.registerClass.isBit with
          | true => rfl
          | false =>
              have hlength : (Words.orderBytes point.byteSwap
                  (words.take point.quantity.toNat)).length = point.rawType.registers.toNat := by
                rw [Words.length_orderBytes, List.length_take_of_le henough, Point.quantity,
                  hclass]
                rfl
              simp only [Bool.false_eq_true, if_false, front_of_le henough, ok_bind]
              exact decodeWords_eq (fun field hbits => (hvalid.field hbits).2.2) hlength

theorem encode_eq (hvalid : point.Valid) (value : PointValue) (current : Option UInt16) :
    encode point value current = ofExcept (Codec.encode point value current) := by
  cases hclass : point.registerClass.isBit with
  | true =>
      simp only [encode, Codec.encode, hclass, if_true]
      cases toBool point.rawType value <;> rfl
  | false =>
      cases hbits : point.bits with
      | some field =>
          simp only [encode, hclass, hbits, Bool.false_eq_true, if_false]
          rw [encodeField_eq (hvalid.field hbits).2.2, Codec.encode_field hclass hbits]
          cases Codec.encodeField point field value current <;> rfl
      | none =>
          cases hraw : point.rawType with
          | string registers =>
              simp only [encode, Codec.encode, hclass, hbits, hraw, Bool.false_eq_true, if_false,
                encodeText_eq]
              cases Codec.encodeText value registers <;> rfl
          | bool | uint16 | int16 | uint32 | int32 | float32 | uint64 | int64 | float64 =>
              simp only [encode, Codec.encode, hclass, hbits, hraw, Bool.false_eq_true, if_false]
              cases encodeNumber point value with
              | error error => rfl
              | ok pattern =>
                  rw [ofExcept_ok, ok_bind, split_eq pattern (by decide)]
                  rfl

end Points

end Checked

/-! ## Failing readings -/

section Failures

variable {point : Point} {values : WireValues}

theorem decode_of_short (hshort : values.length < point.quantity.toNat) :
    decode point values = .error (.insufficientValues point.quantity.toNat values.length) :=
  if_pos hshort

theorem decode_of_mismatch (henough : point.quantity.toNat ≤ values.length)
    (hkind : values.areBits ≠ point.registerClass.isBit) :
    decode point values = .error (.classMismatch point.registerClass) := by
  have hlength : ¬values.length < point.quantity.toNat := Nat.not_lt.mpr henough
  simp only [decode, if_neg hlength]
  cases values with
  | bits bits =>
      have hclass : point.registerClass.isBit = false := (Bool.eq_not.mpr hkind.symm)
      simp only [hclass, Bool.not_false, if_true]
  | words words =>
      have hclass : point.registerClass.isBit = true := (Bool.eq_not.mpr hkind.symm)
      simp only [hclass, if_true]

/-- Enough values of the kind of the point can be read. -/
theorem exists_decode_of_enough (hvalid : point.Valid)
    (henough : point.quantity.toNat ≤ values.length)
    (hkind : values.areBits = point.registerClass.isBit) :
    ∃ value, decode point values = .ok value := by
  have hpos : 0 < point.quantity.toNat := (Point.range_eq_ok_iff.mp hvalid.range_eq).2.1
  have hlength : ¬values.length < point.quantity.toNat := Nat.not_lt.mpr henough
  simp only [decode, if_neg hlength, ← hkind]
  cases values with
  | bits bits =>
      cases bits with
      | nil => exact absurd (Nat.lt_of_lt_of_le hpos henough) (Nat.lt_irrefl 0)
      | cons first rest => exact ⟨.bool first, rfl⟩
  | words words => exact exists_decodeWords hvalid _

theorem decode_eq_error_iff (hvalid : point.Valid) (error : DecodeError) :
    decode point values = .error error ↔
      (values.length < point.quantity.toNat ∧
          error = .insufficientValues point.quantity.toNat values.length) ∨
        (point.quantity.toNat ≤ values.length ∧
          values.areBits ≠ point.registerClass.isBit ∧
            error = .classMismatch point.registerClass) := by
  rcases Nat.lt_or_ge values.length point.quantity.toNat with hshort | henough
  · rw [decode_of_short hshort, Except.error.injEq, eq_comm]
    simp [hshort, Nat.not_le.mpr hshort]
  · by_cases hkind : values.areBits = point.registerClass.isBit
    · obtain ⟨value, hvalue⟩ := exists_decode_of_enough hvalid henough hkind
      simp [hvalue, hkind, Nat.not_lt.mpr henough]
    · rw [decode_of_mismatch henough hkind, Except.error.injEq, eq_comm]
      simp [hkind, henough, Nat.not_lt.mpr henough]

end Failures

end Codec

/-- What the codec of a point does on a machine. -/
structure Point.Faultless (point : Point) : Prop where
  /-- A reading takes no step at which the machine stops, whatever the values are. -/
  decode_ne_fault : ∀ values cause,
    Codec.Checked.decode point values ≠ Codec.Checked.fault cause
  /-- Nor does a write, whatever the value is and with a current word or without one. -/
  encode_ne_fault : ∀ value current cause,
    Codec.Checked.encode point value current ≠ Codec.Checked.fault cause
  /-- The machine computes what the codec does. -/
  decode_eq : ∀ values,
    Codec.Checked.decode point values = Codec.Checked.ofExcept (Codec.decode point values)
  encode_eq : ∀ value current,
    Codec.Checked.encode point value current =
      Codec.Checked.ofExcept (Codec.encode point value current)
  /-- A reading is refused for want of values or else for values of the other kind, and for
  nothing else. -/
  refused_iff : ∀ values error, Codec.decode point values = .error error ↔
    (values.length < point.quantity.toNat ∧
        error = .insufficientValues point.quantity.toNat values.length) ∨
      (point.quantity.toNat ≤ values.length ∧ values.areBits ≠ point.registerClass.isBit ∧
        error = .classMismatch point.registerClass)

theorem Codec.faultless_of_valid {point : Point} (hvalid : point.Valid) : point.Faultless where
  decode_ne_fault values cause := by
    rw [Checked.decode_eq hvalid]
    exact Checked.ofExcept_ne_fault _ cause
  encode_ne_fault value current cause := by
    rw [Checked.encode_eq hvalid]
    exact Checked.ofExcept_ne_fault _ cause
  decode_eq := Checked.decode_eq hvalid
  encode_eq := Checked.encode_eq hvalid
  refused_iff _ := decode_eq_error_iff hvalid

/-- The last bits of a register in which a device exchanges the bytes. -/
theorem faultless_high_field :
    (Point.sampleField ⟨12, 4⟩ true).Valid ∧ (Point.sampleField ⟨12, 4⟩ true).Faultless :=
  ⟨by decide, Codec.faultless_of_valid (by decide)⟩

/-- One bit further on, no machine can read the field. -/
example : Codec.Checked.decode (Point.sampleField ⟨16, 1⟩ false) (.words [7]) =
    Codec.Checked.fault .shift := by
  decide

end Fieldbus
