import Fieldbus.Text.Numeral

/-!
# Units and address ranges

A unit is one station on a shared link.  A range is a start and a count; `AddressRange.ofCount`
refuses the pairs that hold no address or leave the 16-bit address space, while the structure
itself also describes what a request claims before it is checked.
-/

namespace Fieldbus

structure UnitId where
  value : UInt8
  deriving DecidableEq, Repr

namespace UnitId

def text (unit : UnitId) : String := "0x" ++ Text.hexByte unit.value

end UnitId

structure AddressRange where
  start : UInt16
  count : UInt16
  deriving DecidableEq, Repr

inductive RangeError where
  | countOfZero
  | addressOverflow (start count : UInt16)
  deriving DecidableEq, Repr

namespace RangeError

def message : RangeError → String
  | countOfZero => "request contains a count of zero"
  | addressOverflow start count =>
    s!"start == {start} and count == {count} would overflow the representation of u16"

end RangeError

namespace AddressRange

/-- The number of addresses. -/
def spaceSize : Nat := UInt16.size

/-- One past the last address. -/
def stop (range : AddressRange) : Nat := range.start.toNat + range.count.toNat

def Valid (range : AddressRange) : Prop := 0 < range.count.toNat ∧ range.stop ≤ spaceSize

instance (range : AddressRange) : Decidable range.Valid := inferInstanceAs (Decidable (_ ∧ _))

def ofCount (start count : UInt16) : Except RangeError AddressRange :=
  if count = 0 then .error .countOfZero
  else if start.toNat + count.toNat ≤ spaceSize then .ok ⟨start, count⟩
  else .error (.addressOverflow start count)

/-- How many addresses the smallest range around both ranges has. -/
def unionSpan (left right : AddressRange) : Nat :=
  max left.stop right.stop - min left.start.toNat right.start.toNat

/-- The smallest range around both ranges. -/
def union (left right : AddressRange) : AddressRange :=
  ⟨min left.start right.start, UInt16.ofNat (left.unionSpan right)⟩

/-- The ranges share an address. -/
def overlaps (left right : AddressRange) : Bool :=
  left.start.toNat < right.stop && right.start.toNat < left.stop

def text (range : AddressRange) : String :=
  s!"start: {Text.hexWord range.start} qty: {range.count}"

theorem ofCount_eq_ok_iff {start count : UInt16} {range : AddressRange} :
    ofCount start count = .ok range ↔ range = ⟨start, count⟩ ∧ range.Valid := by
  have hzero : count = 0 ↔ count.toNat = 0 := by
    rw [← UInt16.toNat_inj]; rfl
  unfold ofCount Valid stop
  split
  · next h =>
    constructor
    · intro hok; cases hok
    · rintro ⟨rfl, hpos, -⟩
      exact absurd (hzero.mp h) (by simpa using Nat.ne_of_gt hpos)
  · next h =>
    split
    · next hfits =>
      constructor
      · rintro hok
        cases hok
        exact ⟨rfl, Nat.pos_of_ne_zero (fun hz => h (hzero.mpr hz)), hfits⟩
      · rintro ⟨rfl, -, -⟩; rfl
    · next hover =>
      constructor
      · intro hok; cases hok
      · rintro ⟨rfl, -, hfits⟩; exact absurd hfits hover

end AddressRange

end Fieldbus
