import Fieldbus.Codec.Words
import Mathlib.Algebra.Group.Nat.Defs
import Mathlib.Data.List.Induction

/-!
# Bytes of registers

A register is two bytes, the high one first, and a block of registers is a number with one digit a
register.  Neither view loses anything, and both agree with the order in which a device sends its
bytes.
-/

namespace Fieldbus.Words

theorem toNat_shiftRight_eight (word : UInt16) : (word >>> 8).toNat = word.toNat / 256 := by
  rw [UInt16.toNat_shiftRight, Nat.shiftRight_eq_div_pow]
  rfl

theorem toNat_shiftLeft_eight (word : UInt16) : (word <<< 8).toNat = word.toNat % 256 * 256 := by
  rw [UInt16.toNat_shiftLeft, Nat.shiftLeft_eq]
  change word.toNat * 256 % 65536 = word.toNat % 256 * 256
  omega

theorem toNat_swapBytes (word : UInt16) :
    (swapBytes word).toNat = word.toNat % 256 * 256 + word.toNat / 256 := by
  have hword := word.toNat_lt
  have hhigh : word.toNat % 256 * 256 = (word.toNat % 256) <<< 8 :=
    (Nat.shiftLeft_eq (word.toNat % 256) 8).symm
  rw [swapBytes, UInt16.toNat_or, toNat_shiftLeft_eight, toNat_shiftRight_eight, hhigh,
    Nat.shiftLeft_add_eq_or_of_lt (by omega)]

/-- The bits of the two bytes change places. -/
theorem testBit_swapBytes (word : UInt16) {index : Nat} (hindex : index < 16) :
    (swapBytes word).toNat.testBit index = word.toNat.testBit ((index + 8) % 16) := by
  have hshift : (8 : UInt16).toNat % 16 = 8 := rfl
  rw [swapBytes, UInt16.toNat_or, UInt16.toNat_shiftLeft, UInt16.toNat_shiftRight, hshift,
    Nat.testBit_or, Nat.testBit_mod_two_pow, Nat.testBit_shiftLeft, Nat.testBit_shiftRight]
  rcases Nat.lt_or_ge index 8 with hlow | hhigh
  · have hplace : (index + 8) % 16 = 8 + index := by omega
    simp [hplace, Nat.not_le.mpr hlow]
  · have hplace : (index + 8) % 16 = index - 8 := by omega
    have hnone : word.toNat.testBit (8 + index) = false :=
      Nat.testBit_lt_two_pow (Nat.lt_of_lt_of_le word.toNat_lt
        (Nat.pow_le_pow_right Nat.two_pos (by omega)))
    simp [hplace, hnone, hhigh, hindex]

/-- A register that is made of two bytes. -/
theorem toNat_join (high low : UInt8) :
    ((high.toUInt16 <<< 8) ||| low.toUInt16).toNat = high.toNat * 256 + low.toNat := by
  have hhigh := high.toNat_lt
  have hlow := low.toNat_lt
  have hshift : high.toNat * 256 = high.toNat <<< 8 := (Nat.shiftLeft_eq high.toNat 8).symm
  rw [UInt16.toNat_or, toNat_shiftLeft_eight, UInt8.toNat_toUInt16, UInt8.toNat_toUInt16,
    Nat.mod_eq_of_lt hhigh, hshift, Nat.shiftLeft_add_eq_or_of_lt hlow]

theorem toBytes_cons (word : UInt16) (rest : List UInt16) :
    toBytes (word :: rest) = (word >>> 8).toUInt8 :: word.toUInt8 :: toBytes rest := rfl

theorem length_toBytes (words : List UInt16) : (toBytes words).length = 2 * words.length := by
  induction words with
  | nil => rfl
  | cons word rest ih =>
      rw [toBytes_cons, List.length_cons, List.length_cons, List.length_cons, ih]
      omega

theorem ofBytes_toBytes (words : List UInt16) : ofBytes (toBytes words) = words := by
  induction words with
  | nil => rfl
  | cons word rest ih =>
      have hword : ((word >>> 8).toUInt8.toUInt16 <<< 8) ||| word.toUInt8.toUInt16 = word := by
        have hsmall := word.toNat_lt
        apply UInt16.toNat_inj.mp
        rw [toNat_join, UInt16.toNat_toUInt8, UInt16.toNat_toUInt8, toNat_shiftRight_eight]
        omega
      rw [toBytes_cons, ofBytes, ih, hword]

/-- Bytes that fill their registers come in pairs. -/
theorem pairs_induction {motive : Nat → List UInt8 → Prop} (hnil : motive 0 [])
    (hpair : ∀ count high low rest, motive count rest → motive (count + 1) (high :: low :: rest))
    {count : Nat} {bytes : List UInt8} (hlength : bytes.length = 2 * count) :
    motive count bytes := by
  induction count generalizing bytes with
  | zero => exact List.length_eq_zero_iff.mp hlength ▸ hnil
  | succ count ih =>
      match bytes with
      | [] => simp at hlength
      | [high] =>
          rw [List.length_singleton] at hlength
          omega
      | high :: low :: rest =>
          rw [List.length_cons, List.length_cons] at hlength
          exact hpair count high low rest (ih (by omega))

theorem length_ofBytes (count : Nat) (bytes : List UInt8) (hlength : bytes.length = 2 * count) :
    (ofBytes bytes).length = count := by
  refine pairs_induction
    (motive := fun count bytes => (ofBytes bytes).length = count) rfl ?_ hlength
  intro count high low rest ih
  rw [ofBytes, List.length_cons, ih]

theorem toBytes_ofBytes (count : Nat) (bytes : List UInt8) (hlength : bytes.length = 2 * count) :
    toBytes (ofBytes bytes) = bytes := by
  refine pairs_induction (motive := fun _ bytes => toBytes (ofBytes bytes) = bytes) rfl ?_ hlength
  intro count high low rest ih
  have hhigh := high.toNat_lt
  have hlow := low.toNat_lt
  have hlowByte : ((high.toUInt16 <<< 8) ||| low.toUInt16).toUInt8 = low := by
    apply UInt8.toNat_inj.mp
    rw [UInt16.toNat_toUInt8, toNat_join]
    omega
  have hhighByte : (((high.toUInt16 <<< 8) ||| low.toUInt16) >>> 8).toUInt8 = high := by
    apply UInt8.toNat_inj.mp
    rw [UInt16.toNat_toUInt8, toNat_shiftRight_eight, toNat_join]
    omega
  rw [ofBytes, toBytes_cons, ih, hhighByte, hlowByte]

theorem value_lt (words : List UInt16) : value words < UInt16.size ^ words.length := by
  induction words using List.reverseRecOn with
  | nil => simp [value]
  | append_singleton words word ih =>
      have hword : word.toNat < UInt16.size := word.toNat_lt
      have hstep : (value words + 1) * UInt16.size ≤ UInt16.size ^ words.length * UInt16.size :=
        Nat.mul_le_mul_right _ ih
      rw [Nat.add_mul, Nat.one_mul] at hstep
      rw [value_append_singleton, List.length_append, List.length_singleton, Nat.pow_succ]
      omega

/-- The digits of the number that words spell are the words. -/
theorem ofValue_value (words : List UInt16) : ofValue words.length (value words) = words := by
  induction words using List.reverseRecOn with
  | nil => rfl
  | append_singleton words word ih =>
      have hword : word.toNat < UInt16.size := word.toNat_lt
      have hdigits : (value words * UInt16.size + word.toNat) / UInt16.size = value words := by
        rw [Nat.mul_comm, Nat.mul_add_div (by decide), Nat.div_eq_of_lt hword, Nat.add_zero]
      have hlast : UInt16.ofNat (value words * UInt16.size + word.toNat) = word := by
        apply UInt16.toNat_inj.mp
        rw [UInt16.toNat_ofNat', Nat.mul_comm]
        exact (Nat.mul_add_mod _ _ _).trans (Nat.mod_eq_of_lt hword)
      rw [value_append_singleton, List.length_append, List.length_singleton, ofValue, hdigits, ih,
        hlast]

/-- The number that bytes spell, the most significant one first. -/
def byteValue (bytes : List UInt8) : Nat :=
  bytes.foldl (fun high byte => high * UInt8.size + byte.toNat) 0

/-- The bytes of registers that a device sends in another order. -/
def sentBytes (byteSwap wordSwap : Bool) (words : List UInt16) : List UInt8 :=
  (if wordSwap then words.reverse else words).flatMap fun word =>
    if byteSwap then (toBytes [word]).reverse else toBytes [word]

/-- Registers in order spell the number of their bytes in order. -/
theorem byteValue_sentBytes (byteSwap wordSwap : Bool) (words : List UInt16) :
    byteValue (sentBytes byteSwap wordSwap words) =
      value (orderWords wordSwap (orderBytes byteSwap words)) := by
  have hword : ∀ (high : Nat) (word : UInt16),
      (if byteSwap then (toBytes [word]).reverse else toBytes [word]).foldl
          (fun high byte => high * UInt8.size + byte.toNat) high =
        high * UInt16.size + (if byteSwap then swapBytes word else word).toNat := by
    intro high word
    have hword := word.toNat_lt
    cases byteSwap with
    | false =>
        simp only [toBytes, List.flatMap_singleton, List.foldl_cons, List.foldl_nil,
          UInt16.toNat_toUInt8, toNat_shiftRight_eight, UInt8.size, UInt16.size,
          Bool.false_eq_true, if_false]
        omega
    | true =>
        simp only [toBytes, List.flatMap_singleton, List.reverse_cons, List.reverse_nil,
          List.nil_append, List.singleton_append, List.foldl_cons, List.foldl_nil,
          UInt16.toNat_toUInt8, toNat_shiftRight_eight, toNat_swapBytes, UInt8.size, UInt16.size,
          if_true]
        omega
  have hordered : orderWords wordSwap (orderBytes byteSwap words) =
      (if wordSwap then words.reverse else words).map
        fun word => if byteSwap then swapBytes word else word := by
    cases byteSwap <;> cases wordSwap <;> simp [orderWords, orderBytes]
  rw [byteValue, sentBytes, value, hordered, List.foldl_flatMap, List.foldl_map]
  simp only [hword]

end Fieldbus.Words
