import Fieldbus.Bench.Memory
import Mathlib.Data.List.GetD

/-!
# Changes of a memory

A change does something to every cell of a memory, whatever the other cells hold.  Changes of
different cells can be made in either order, and a store can be made again without harm.
-/

namespace Fieldbus

structure Change where
  bit : UnitId → RegisterClass → UInt16 → Bool → Bool
  word : UnitId → RegisterClass → UInt16 → UInt16 → UInt16

def Memory.revise (change : Change) (memory : Memory) : Memory where
  bit unit registerClass address :=
    change.bit unit registerClass address (memory.bit unit registerClass address)
  word unit registerClass address :=
    change.word unit registerClass address (memory.word unit registerClass address)

/-- Some addresses of one class on one unit, up to one that is not among them. -/
structure Block where
  unit : UnitId
  registerClass : RegisterClass
  start : Nat
  stop : Nat

namespace Block

def Holds (block : Block) (unit : UnitId) (registerClass : RegisterClass) (address : UInt16) :
    Prop :=
  unit = block.unit ∧ registerClass = block.registerClass ∧
    block.start ≤ address.toNat ∧ address.toNat < block.stop

/-- The blocks share no cell. -/
def Apart (left right : Block) : Prop :=
  left.unit = right.unit → left.registerClass = right.registerClass →
    left.stop ≤ right.start ∨ right.stop ≤ left.start

theorem Apart.symm {left right : Block} (hapart : left.Apart right) : right.Apart left :=
  fun hunit hclass => (hapart hunit.symm hclass.symm).symm

theorem Apart.not_holds {left right : Block} (hapart : left.Apart right) {unit : UnitId}
    {registerClass : RegisterClass} {address : UInt16}
    (hleft : left.Holds unit registerClass address) :
    ¬right.Holds unit registerClass address := by
  rintro ⟨hunit, hclass, hstart, hstop⟩
  obtain ⟨hleftUnit, hleftClass, hleftStart, hleftStop⟩ := hleft
  rcases hapart (hleftUnit.symm.trans hunit) (hleftClass.symm.trans hclass) with hle | hle
  · omega
  · omega

end Block

namespace Change

/-- The change leaves the cells outside a block alone. -/
structure Within (change : Change) (block : Block) : Prop where
  bit : ∀ unit registerClass address, ¬block.Holds unit registerClass address →
    change.bit unit registerClass address = id
  word : ∀ unit registerClass address, ¬block.Holds unit registerClass address →
    change.word unit registerClass address = id

/-- Making the change again changes nothing. -/
structure Settles (change : Change) : Prop where
  bit : ∀ unit registerClass address old,
    change.bit unit registerClass address (change.bit unit registerClass address old) =
      change.bit unit registerClass address old
  word : ∀ unit registerClass address old,
    change.word unit registerClass address (change.word unit registerClass address old) =
      change.word unit registerClass address old

theorem Settles.revise_revise {change : Change} (hsettles : change.Settles) (memory : Memory) :
    (memory.revise change).revise change = memory.revise change := by
  rw [Memory.revise, Memory.revise]
  congr 1
  · funext unit registerClass address
    exact hsettles.bit unit registerClass address _
  · funext unit registerClass address
    exact hsettles.word unit registerClass address _

theorem apply_comm_of_id {A : Type} {first second : A → A} (hid : first = id ∨ second = id)
    (item : A) : second (first item) = first (second item) := by
  rcases hid with rfl | rfl
  · rfl
  · rfl

/-- Changes of different cells can be made in either order. -/
theorem revise_comm {left right : Change} {leftBlock rightBlock : Block}
    (hleft : left.Within leftBlock) (hright : right.Within rightBlock)
    (hapart : leftBlock.Apart rightBlock) (memory : Memory) :
    (memory.revise left).revise right = (memory.revise right).revise left := by
  rw [Memory.revise, Memory.revise, Memory.revise, Memory.revise]
  congr 1
  · funext unit registerClass address
    dsimp only
    apply apply_comm_of_id
    by_cases hholds : leftBlock.Holds unit registerClass address
    · exact .inr (hright.bit _ _ _ (hapart.not_holds hholds))
    · exact .inl (hleft.bit _ _ _ hholds)
  · funext unit registerClass address
    dsimp only
    apply apply_comm_of_id
    by_cases hholds : leftBlock.Holds unit registerClass address
    · exact .inr (hright.word _ _ _ (hapart.not_holds hholds))
    · exact .inl (hleft.word _ _ _ hholds)

/-- The cells of a class, from an address on, get the values of a list. -/
def storing {A : Type} (unit : UnitId) (registerClass : RegisterClass) (start : UInt16)
    (values : List A) (otherUnit : UnitId) (otherClass : RegisterClass) (address : UInt16)
    (old : A) : A :=
  if otherUnit = unit ∧ otherClass = registerClass then values.getD (address - start).toNat old
  else old

def ofStore (unit : UnitId) (registerClass : RegisterClass) (start : UInt16) :
    WireValues → Change
  | .bits bits => ⟨storing unit registerClass start bits, fun _ _ _ => id⟩
  | .words words => ⟨fun _ _ _ => id, storing unit registerClass start words⟩

end Change

open Change

variable {unit : UnitId} {registerClass : RegisterClass} {start : UInt16} {values : WireValues}

theorem Memory.store_eq_revise (unit : UnitId) (registerClass : RegisterClass) (start : UInt16)
    (values : WireValues) (memory : Memory) :
    memory.store unit registerClass start values =
      memory.revise (ofStore unit registerClass start values) := by
  cases values with
  | bits bits =>
      rw [Memory.store, Memory.revise]
      congr 1
      funext otherUnit otherClass address
      dsimp only [ofStore, storing]
      split <;> rfl
  | words words =>
      rw [Memory.store, Memory.revise]
      congr 1
      funext otherUnit otherClass address
      dsimp only [ofStore, storing]
      split <;> rfl

/-- How far an address is from the start of a block that does not wrap around. -/
theorem toNat_sub_lt_iff {address : UInt16} {count : Nat}
    (hfits : start.toNat + count ≤ AddressRange.spaceSize) :
    (address - start).toNat < count ↔
      start.toNat ≤ address.toNat ∧ address.toNat < start.toNat + count := by
  have haddress := address.toNat_lt
  rw [AddressRange.spaceSize, UInt16.size] at hfits
  rw [UInt16.toNat_sub]
  omega

theorem Change.storing_of_not_holds {A : Type} {values : List A} {otherUnit : UnitId}
    {otherClass : RegisterClass} {address : UInt16}
    (hfits : start.toNat + values.length ≤ AddressRange.spaceSize)
    (houtside : ¬Block.Holds ⟨unit, registerClass, start.toNat, start.toNat + values.length⟩
      otherUnit otherClass address) :
    storing unit registerClass start values otherUnit otherClass address = id := by
  funext old
  rw [storing]
  split
  · next hsame =>
      have hfar : ¬(address - start).toNat < values.length := by
        rw [toNat_sub_lt_iff hfits]
        exact fun hnear => houtside ⟨hsame.1, hsame.2, hnear⟩
      exact List.getD_eq_default _ _ (Nat.le_of_not_lt hfar)
  · rfl

theorem Change.within_ofStore (hfits : start.toNat + values.length ≤ AddressRange.spaceSize) :
    (ofStore unit registerClass start values).Within
      ⟨unit, registerClass, start.toNat, start.toNat + values.length⟩ := by
  cases values with
  | bits bits => exact ⟨fun _ _ _ => storing_of_not_holds hfits, fun _ _ _ _ => rfl⟩
  | words words => exact ⟨fun _ _ _ _ => rfl, fun _ _ _ => storing_of_not_holds hfits⟩

theorem Change.storing_storing {A : Type} (values : List A) (otherUnit : UnitId)
    (otherClass : RegisterClass) (address : UInt16) (old : A) :
    storing unit registerClass start values otherUnit otherClass address
        (storing unit registerClass start values otherUnit otherClass address old) =
      storing unit registerClass start values otherUnit otherClass address old := by
  rw [storing, storing]
  split
  · rcases Nat.lt_or_ge (address - start).toNat values.length with hnear | hfar
    · rw [List.getD_eq_getElem _ _ hnear, List.getD_eq_getElem _ _ hnear]
    · rw [List.getD_eq_default _ _ hfar]
  · rfl

theorem Change.settles_ofStore (unit : UnitId) (registerClass : RegisterClass) (start : UInt16)
    (values : WireValues) : (ofStore unit registerClass start values).Settles := by
  cases values with
  | bits bits => exact ⟨storing_storing bits, fun _ _ _ _ => rfl⟩
  | words words => exact ⟨fun _ _ _ _ => rfl, storing_storing words⟩

/-- Two stores of neighbouring words are one. -/
theorem Memory.store_append {next : UInt16} {words more : List UInt16}
    (hnext : next.toNat = start.toNat + words.length)
    (hfits : next.toNat + more.length ≤ AddressRange.spaceSize) (memory : Memory) :
    memory.store unit registerClass start (.words (words ++ more)) =
      (memory.store unit registerClass start (.words words)).store unit registerClass next
        (.words more) := by
  have hwords : start.toNat + words.length ≤ AddressRange.spaceSize := by omega
  rw [Memory.store_eq_revise, Memory.store_eq_revise, Memory.store_eq_revise, Memory.revise,
    Memory.revise, Memory.revise]
  congr 1
  funext otherUnit otherClass address
  dsimp only [ofStore, storing]
  split
  · have hspace : AddressRange.spaceSize = 65536 := rfl
    have hdistance : words.length ≤ (address - start).toNat →
        (address - next).toNat = (address - start).toNat - words.length := by
      have haddress := address.toNat_lt
      rw [UInt16.toNat_sub, UInt16.toNat_sub]
      omega
    rcases Nat.lt_or_ge (address - start).toNat words.length with hnear | hfar
    · have hbeyond : ¬(address - next).toNat < more.length := by
        rw [toNat_sub_lt_iff hfits]
        rw [toNat_sub_lt_iff hwords] at hnear
        omega
      rw [List.getD_append _ _ _ _ hnear, List.getD_eq_default _ _ (Nat.le_of_not_lt hbeyond)]
    · rw [List.getD_append_right _ _ _ _ hfar, hdistance hfar]
      rw [List.getD_eq_default words _ hfar]
  · rfl

end Fieldbus
