import Fieldbus.Point.Basic

/-!
# Bit fields

Reading and replacing the bits of a field.  A field for which a 16-bit register has no mask is
refused; `BitField.Fits` describes the narrower fields that a valid point can have.
-/

namespace Fieldbus.BitField

/-- The register has a mask for the field, though perhaps a truncated one. -/
def hasMask (field : BitField) : Bool := field.offset < 16 && field.length < 32

/-- The bits of the field that lie inside the register. -/
def mask (field : BitField) : UInt16 :=
  UInt16.ofNat ((1 <<< field.length.toNat) - 1) <<< field.offset.toUInt16

/-- The largest number that the field holds. -/
def maxValue (field : BitField) : Nat := (1 <<< field.length.toNat) - 1

def extract? (field : BitField) (word : UInt16) : Option UInt16 :=
  if field.hasMask then some ((word &&& field.mask) >>> field.offset.toUInt16) else none

/-- The word with the field replaced. -/
def merge? (field : BitField) (word value : UInt16) : Option UInt16 :=
  if field.hasMask then
    some ((word &&& ~~~field.mask) ||| ((value <<< field.offset.toUInt16) &&& field.mask))
  else none

theorem hasMask_of_fits {field : BitField} (hfits : field.Fits) : field.hasMask = true := by
  obtain ⟨hpos, hstop⟩ := hfits
  unfold stop at hstop
  simp only [hasMask, Bool.and_eq_true, decide_eq_true_eq, UInt8.lt_iff_toNat_lt]
  have hoffset : field.offset.toNat < 16 := by omega
  have hlength : field.length.toNat < 32 := by omega
  exact ⟨hoffset, hlength⟩

end Fieldbus.BitField
