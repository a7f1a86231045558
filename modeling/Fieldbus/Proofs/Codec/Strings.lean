import Fieldbus.Proofs.Codec.Bytes
import Fieldbus.Proofs.Codec.Readings
import Mathlib.Data.List.TakeWhile

/-!
# Text in registers

A string point takes any bytes that its registers have room for and fills the rest with zeros.  It
shows them without the zeros at their end: as a text if they are one, and else as bytes.  What has
been read can be written back, whatever the registers hold.
-/

namespace Fieldbus

/-- The bytes end in zeros, and what is kept of them does not. -/
structure Trims (bytes kept : List UInt8) : Prop where
  padding : ∃ count, bytes = kept ++ List.replicate count 0
  last : kept.getLast? ≠ some 0

namespace Codec

theorem trims_dropPadding (bytes : List UInt8) : Trims bytes (dropPadding bytes) where
  padding := by
    have hzeros : bytes.reverse.takeWhile (· == 0) =
        List.replicate (bytes.reverse.takeWhile (· == 0)).length 0 := by
      rw [List.eq_replicate_iff]
      refine ⟨rfl, fun byte hbyte => ?_⟩
      have hzero : (byte == 0) = true := List.mem_takeWhile_imp (p := (· == 0)) hbyte
      exact beq_iff_eq.mp hzero
    refine ⟨(bytes.reverse.takeWhile (· == 0)).length, ?_⟩
    rw [dropPadding, ← List.reverse_replicate, ← hzeros, ← List.reverse_append,
      List.takeWhile_append_dropWhile, List.reverse_reverse]
  last := by
    have hhead := List.head?_dropWhile_not (· == 0) bytes.reverse
    rw [dropPadding, List.getLast?_reverse]
    intro hzero
    rw [hzero] at hhead
    simp at hhead

theorem dropPadding_append_zeros (bytes : List UInt8) (count : Nat) :
    dropPadding (bytes ++ List.replicate count 0) = dropPadding bytes := by
  have hzeros : ∀ byte ∈ List.replicate count (0 : UInt8), (byte == 0) = true := by
    intro byte hbyte
    rw [List.eq_of_mem_replicate hbyte]
    rfl
  rw [dropPadding, dropPadding, List.reverse_append, List.reverse_replicate,
    List.dropWhile_append_of_pos hzeros]

end Codec

namespace PointValue

/-- The bytes of a text, or of bytes that are none. -/
def content? : PointValue → Option (List UInt8)
  | text value => some (Codec.textBytes value)
  | bytes value => some value
  | bool _ | int _ | float _ => none

/-- Bytes are shown as a text if they are one. -/
inductive Spells (content : List UInt8) : PointValue → Prop where
  | text {value : String} (hvalue : Codec.textBytes value = content) : Spells content (.text value)
  | bytes (hinvalid : ¬(ByteArray.mk content.toArray).IsValidUTF8) :
      Spells content (.bytes content)

theorem Spells.content_eq {content : List UInt8} {value : PointValue}
    (hspells : value.Spells content) : value.content? = some content := by
  cases hspells with
  | text hvalue => exact congrArg some hvalue
  | bytes hinvalid => rfl

end PointValue

namespace Codec

theorem spells_ofBytes (content : List UInt8) : (ofBytes content).Spells content := by
  rw [ofBytes, String.fromUTF8?]
  split
  · next text htext =>
      split at htext
      · next hvalid =>
          obtain rfl := Option.some.inj htext
          exact .text rfl
      · simp at htext
  · next hnone =>
      split at hnone
      · simp at hnone
      · next hinvalid => exact .bytes hinvalid

/-- The registers of a text are its bytes, filled up with zeros. -/
theorem encodeText_eq {value : PointValue} {content : List UInt8}
    (hcontent : value.content? = some content) (registers : UInt16) :
    encodeText value registers =
      if 2 * registers.toNat < content.length then
        .error (.stringTooLong content.length registers)
      else .ok (Words.ofBytes
        (content ++ List.replicate (2 * registers.toNat - content.length) 0)) := by
  cases value with
  | text text | bytes bytes =>
      obtain rfl := Option.some.inj hcontent
      simp only [encodeText, pure_bind]
      split <;> rfl
  | bool value | int value | float value => simp [PointValue.content?] at hcontent

variable {point : Point} {registers : UInt16}

/-- A string point has registers, and no bit field. -/
theorem string_of_valid (hvalid : point.Valid) (hraw : point.rawType = .string registers) :
    point.registerClass.isBit = false ∧ point.bits = none := by
  constructor
  · cases hbit : point.registerClass.isBit with
    | false => rfl
    | true =>
        simp only [Point.Valid, Point.validate, hraw, hbit, RawType.isString, bind,
          Except.bind] at hvalid
        split at hvalid <;> simp [throw, throwThe, MonadExceptOf.throw] at hvalid
  · cases hbits : point.bits with
    | none => rfl
    | some field =>
        have hnarrow := (hvalid.field hbits).2.1
        rw [hraw] at hnarrow
        simp [RawType.is16Bit] at hnarrow

theorem encode_string (hvalid : point.Valid) (hraw : point.rawType = .string registers)
    (value : PointValue) (current : Option UInt16) :
    encode point value current = (encodeText value registers).map fun words =>
      .words (Words.orderBytes point.byteSwap words) := by
  obtain ⟨hword, hbits⟩ := string_of_valid hvalid hraw
  simp only [encode, hword, hbits, hraw]
  cases encodeText value registers <;> rfl

theorem decode_string (hvalid : point.Valid) (hraw : point.rawType = .string registers)
    {words : List UInt16} (hlength : words.length = registers.toNat) :
    decode point (.words words) =
      .ok (decodeText (Words.orderBytes point.byteSwap words)) := by
  obtain ⟨hword, -⟩ := string_of_valid hvalid hraw
  have hquantity : point.quantity = registers := by
    rw [Point.quantity, hword, hraw]
    rfl
  rw [decode_words hword (by rwa [hquantity]), decodeWords, hraw]

end Codec

/-- What a point does with texts and bytes in a number of registers. -/
structure Point.KeepsText (point : Point) (registers : UInt16) : Prop where
  /-- Bytes that fit are written to all registers.  Then the point reads them without the zeros at
  their end. -/
  accepts : ∀ (value : PointValue) (content : List UInt8) (current : Option UInt16),
    value.content? = some content → content.length ≤ 2 * registers.toNat →
      ∃ words shown kept, Codec.encode point value current = .ok (.words words) ∧
        words.length = registers.toNat ∧ Codec.decode point (.words words) = .ok shown ∧
          Trims content kept ∧ shown.Spells kept
  /-- Longer ones are refused. -/
  refuses : ∀ (value : PointValue) (content : List UInt8) (current : Option UInt16),
    value.content? = some content → 2 * registers.toNat < content.length →
      Codec.encode point value current = .error (.stringTooLong content.length registers)
  /-- Whatever the registers hold can be read, and written back. -/
  restores : ∀ (words : List UInt16) (current : Option UInt16),
    words.length = registers.toNat → ∃ value,
      Codec.decode point (.words words) = .ok value ∧
        Codec.encode point value current = .ok (.words words)

namespace Codec

variable {point : Point} {registers : UInt16}

/-- A valid string point keeps texts and bytes, in either order of the bytes of its registers. -/
theorem keepsText_of_string (hvalid : point.Valid) (hraw : point.rawType = .string registers) :
    point.KeepsText registers where
  accepts value content current hcontent hfits := by
    have hencode := encode_string hvalid hraw value current
    rw [encodeText_eq hcontent, if_neg (Nat.not_lt.mpr hfits)] at hencode
    have hfull : (content ++ List.replicate (2 * registers.toNat - content.length) 0).length =
        2 * registers.toNat := by
      rw [List.length_append, List.length_replicate]
      omega
    have hlength := Words.length_ofBytes registers.toNat _ hfull
    rw [← Words.length_orderBytes point.byteSwap] at hlength
    refine ⟨_, _, _, hencode, hlength, decode_string hvalid hraw hlength,
      trims_dropPadding content, ?_⟩
    rw [Words.orderBytes_orderBytes, decodeText, Words.toBytes_ofBytes _ _ hfull,
      dropPadding_append_zeros]
    exact spells_ofBytes (dropPadding content)
  refuses value content current hcontent hlong := by
    rw [encode_string hvalid hraw, encodeText_eq hcontent, if_pos hlong]
    rfl
  restores words current hlength := by
    refine ⟨_, decode_string hvalid hraw hlength, ?_⟩
    have hbytes : (Words.toBytes (Words.orderBytes point.byteSwap words)).length =
        2 * registers.toNat := by
      rw [Words.length_toBytes, Words.length_orderBytes, hlength]
    obtain ⟨count, hpadding⟩ :=
      (trims_dropPadding (Words.toBytes (Words.orderBytes point.byteSwap words))).padding
    have hcount := congrArg List.length hpadding
    rw [hbytes, List.length_append, List.length_replicate] at hcount
    have hrest : 2 * registers.toNat - (dropPadding (Words.toBytes
        (Words.orderBytes point.byteSwap words))).length = count := by omega
    rw [encode_string hvalid hraw, decodeText, encodeText_eq (spells_ofBytes _).content_eq,
      if_neg (by omega), hrest, ← hpadding, Words.ofBytes_toBytes]
    exact congrArg (fun words => Except.ok (WireValues.words words))
      (Words.orderBytes_orderBytes point.byteSwap words)

/-- A zero inside the bytes stays, and so does a byte that no text has. -/
theorem keepsText_two_registers :
    encode (.sampleRegister (.string 2) true false) (.bytes [0x41, 0, 0xFF]) none =
        .ok (.words [0x0041, 0x00FF]) ∧
      (Point.sampleRegister (.string 2) true false).Valid ∧
        (Point.sampleRegister (.string 2) true false).KeepsText 2 :=
  ⟨rfl, by decide, keepsText_of_string (by decide) rfl⟩

end Codec

end Fieldbus
