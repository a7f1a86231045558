import Fieldbus.Proofs.Codec.Fields
import Fieldbus.Proofs.Write.Cells
import Fieldbus.Proofs.Write.Device

/-!
# What commands do

With the register codec a command changes the addresses of its own block only, every cell of it on
its own.  So commands of different blocks can be made in either order, and a command can be made
again without harm.
-/

namespace Fieldbus

open Codec

namespace WriteCommand

/-- The command writes a value to a bit field. -/
structure Rewrites (command : WriteCommand) (point : Point) (value : PointValue) : Prop where
  registerClass : command.registerClass = .holdingRegister
  width : command.values.length = 1
  encodes : ∃ (field : BitField) (number : Nat), point.bits = some field ∧
    fieldNumber point value = .ok number ∧ ∀ old, ∃ new,
      encode point value (some old) = .ok (.words [new]) ∧
        field.Replaces number (point.seen old) (point.seen new)

/-- A command that comes from a valid point, or from several ones. -/
structure Sound (command : WriteCommand) : Prop where
  fits : command.stop ≤ AddressRange.spaceSize
  field : ∀ point value, command.field = some (point, value) → command.Rewrites point value

/-- The addresses that a command writes to. -/
def block (command : WriteCommand) : Block :=
  ⟨command.unit, command.registerClass, command.start.toNat, command.stop⟩

variable {command left right : WriteCommand} {point : Point} {value : PointValue}
variable {memory : Memory}

/-- A register that is rewritten depends on what it held, and on no other. -/
theorem Rewrites.exists_change (hrewrites : command.Rewrites point value)
    (hfield : command.field = some (point, value)) :
    ∃ change : Change, (∀ memory, command.apply registerCodec memory = memory.revise change) ∧
      change.Within command.block ∧ change.Settles := by
  obtain ⟨field, number, -, -, hencodes⟩ := hrewrites.encodes
  choose merged hencode hreplaces using hencodes
  have hsettles (old : UInt16) : merged (merged old) = merged old :=
    Point.eq_of_seen ((hreplaces old).again.unique (hreplaces (merged old)))
  let change : Change :=
    ⟨fun _ _ _ => id, fun unit registerClass address old =>
      if (unit = command.unit ∧ registerClass = command.registerClass) ∧ address = command.start
      then merged old else old⟩
  refine ⟨change, ?_, ⟨fun _ _ _ _ => rfl, ?_⟩, ⟨fun _ _ _ _ => rfl, ?_⟩⟩
  · intro memory
    rw [apply, hfield]
    simp only [registerCodec, hencode]
    rw [Memory.store_eq_revise, Memory.revise, Memory.revise]
    congr 1
    funext unit registerClass address
    dsimp only [Change.ofStore, Change.storing, change]
    by_cases hclass : unit = command.unit ∧ registerClass = command.registerClass
    · rw [if_pos hclass]
      by_cases haddress : address = command.start
      · subst haddress
        simp [hclass, hrewrites.registerClass]
      · have hfar : ([merged (memory.word command.unit .holdingRegister command.start)] :
            List UInt16).length ≤ (address - command.start).toNat := by
          apply Nat.le_of_not_lt
          rw [List.length_singleton, toNat_sub_lt_iff command.start.toNat_lt]
          exact fun hnear => haddress (UInt16.toNat_inj.mp (by omega))
        rw [List.getD_eq_default _ _ hfar, if_neg fun hsame => haddress hsame.2]
    · rw [if_neg hclass, if_neg fun hsame => hclass hsame.1]
  · intro unit registerClass address houtside
    funext old
    apply if_neg
    rintro ⟨⟨rfl, rfl⟩, rfl⟩
    apply houtside
    have hstop : command.stop = command.start.toNat + 1 := by rw [stop, hrewrites.width]
    exact ⟨rfl, rfl, Nat.le_refl _, by rw [block, hstop]; exact Nat.lt_succ_self _⟩
  · intro unit registerClass address old
    dsimp only [change]
    split
    · exact hsettles old
    · rfl

theorem Sound.exists_change (hsound : command.Sound) :
    ∃ change : Change, (∀ memory, command.apply registerCodec memory = memory.revise change) ∧
      change.Within command.block ∧ change.Settles := by
  cases hfield : command.field with
  | some field => exact (hsound.field field.1 field.2 hfield).exists_change hfield
  | none =>
      refine ⟨Change.ofStore command.unit command.registerClass command.start command.values, ?_,
        Change.within_ofStore hsound.fits, Change.settles_ofStore _ _ _ _⟩
      intro memory
      rw [apply, hfield]
      exact Memory.store_eq_revise _ _ _ _ _

/-- A command that has been made can be made again. -/
theorem Sound.apply_apply (hsound : command.Sound) (memory : Memory) :
    command.apply registerCodec (command.apply registerCodec memory) =
      command.apply registerCodec memory := by
  obtain ⟨change, hchange, -, hsettles⟩ := hsound.exists_change
  rw [hchange, hchange, hsettles.revise_revise]

/-- Commands of different blocks can be made in either order. -/
theorem Sound.apply_comm (hleft : left.Sound) (hright : right.Sound)
    (hapart : left.block.Apart right.block) (memory : Memory) :
    right.apply registerCodec (left.apply registerCodec memory) =
      left.apply registerCodec (right.apply registerCodec memory) := by
  obtain ⟨leftChange, hleftChange, hleftWithin, -⟩ := hleft.exists_change
  obtain ⟨rightChange, hrightChange, hrightWithin, -⟩ := hright.exists_change
  rw [hleftChange, hrightChange, hrightChange, hleftChange]
  exact Change.revise_comm hleftWithin hrightWithin hapart memory

/-- The register of a command, as a point sees it, has the bits of a number in a field. -/
def Keeps (command : WriteCommand) (point : Point) (field : BitField) (number : Nat)
    (memory : Memory) : Prop :=
  ∀ index < field.length.toNat,
    (point.seen (memory.word command.unit command.registerClass command.start)).toNat.testBit
      (field.offset.toNat + index) = number.testBit index

/-- A command does not write to a field of the register of another one: it writes elsewhere, or to
other bits. -/
def Spares (other command : WriteCommand) (point : Point) (field : BitField) : Prop :=
  ¬other.block.Holds command.unit command.registerClass command.start ∨
    ∃ otherPoint otherValue otherField, other.field = some (otherPoint, otherValue) ∧
      otherPoint.bits = some otherField ∧ otherPoint.byteSwap = point.byteSwap ∧
        field.disjoint otherField = true

variable {other : WriteCommand} {field : BitField} {number : Nat}

/-- What a command for a bit field does to its register. -/
theorem Rewrites.exists_word (hrewrites : command.Rewrites point value)
    (hfield : command.field = some (point, value)) (memory : Memory) :
    ∃ field number, point.bits = some field ∧ fieldNumber point value = .ok (number : Nat) ∧
      field.Replaces number
        (point.seen (memory.word command.unit command.registerClass command.start))
        (point.seen ((command.apply registerCodec memory).word command.unit
          command.registerClass command.start)) := by
  obtain ⟨field, number, hbits, hnumber, hencodes⟩ := hrewrites.encodes
  obtain ⟨new, hnew, hreplaces⟩ :=
    hencodes (memory.word command.unit .holdingRegister command.start)
  refine ⟨field, number, hbits, hnumber, ?_⟩
  rw [apply, hfield]
  simp only [registerCodec, hnew]
  rw [hrewrites.registerClass]
  simpa [Memory.store, Memory.override] using hreplaces

/-- A command for a bit field leaves its number in the field. -/
theorem Rewrites.keeps (hrewrites : command.Rewrites point value)
    (hfield : command.field = some (point, value)) (hbits : point.bits = some field)
    (hnumber : fieldNumber point value = .ok number) (memory : Memory) :
    command.Keeps point field number (command.apply registerCodec memory) := by
  obtain ⟨found, written, hfound, hwritten, hreplaces⟩ := hrewrites.exists_word hfield memory
  obtain rfl := Option.some.inj (hfound.symm.trans hbits)
  obtain rfl := Int.ofNat_inj.mp (Except.ok.inj (hwritten.symm.trans hnumber))
  exact hreplaces.inside

/-- A field that is spared stays as it is. -/
theorem Keeps.apply (hkeeps : command.Keeps point field number memory) (hother : other.Sound)
    (hspares : other.Spares command point field) :
    command.Keeps point field number (other.apply registerCodec memory) := by
  by_cases hholds : other.block.Holds command.unit command.registerClass command.start
  · rcases hspares with hfar | ⟨otherPoint, otherValue, otherField, hfield, hbits, hswap,
      hdisjoint⟩
    · exact absurd hholds hfar
    · have hrewrites := hother.field otherPoint otherValue hfield
      obtain ⟨hunit, hclass, hlow, hhigh⟩ := hholds
      have hstop : other.stop = other.start.toNat + 1 := by rw [stop, hrewrites.width]
      have hstart : command.start = other.start := by
        apply UInt16.toNat_inj.mp
        dsimp only [block] at hlow hhigh
        omega
      obtain ⟨found, written, hfound, -, hreplaces⟩ := hrewrites.exists_word hfield memory
      obtain rfl := Option.some.inj (hfound.symm.trans hbits)
      rw [Point.seen_congr hswap] at hreplaces
      intro index hindex
      have hkept := hkeeps index hindex
      rw [hunit, hclass, hstart] at hkept ⊢
      rw [← hkept]
      apply hreplaces.outside
      simp only [BitField.disjoint, Bool.or_eq_true, decide_eq_true_eq] at hdisjoint
      dsimp only [BitField.stop] at hdisjoint ⊢
      omega
  · obtain ⟨change, hchange, hwithin, -⟩ := hother.exists_change
    intro index hindex
    rw [hchange]
    dsimp only [Memory.revise]
    rw [hwithin.word _ _ _ hholds]
    exact hkeeps index hindex

/-- A number that a command has written to a bit field is kept by all that spare the field. -/
theorem Rewrites.keeps_applyAll {later : List WriteCommand}
    (hrewrites : command.Rewrites point value) (hfield : command.field = some (point, value))
    (hbits : point.bits = some field) (hnumber : fieldNumber point value = .ok number)
    (hsound : ∀ other ∈ later, other.Sound)
    (hspares : ∀ other ∈ later, other.Spares command point field) (memory : Memory) :
    command.Keeps point field number (applyAll registerCodec (command :: later) memory) := by
  have hlater : ∀ memory, command.Keeps point field number memory →
      command.Keeps point field number (applyAll registerCodec later memory) := by
    induction later with
    | nil => exact fun _ hkeeps => hkeeps
    | cons other rest ih =>
        intro memory hkeeps
        apply ih (fun next hnext => hsound next (List.mem_cons_of_mem _ hnext))
          (fun next hnext => hspares next (List.mem_cons_of_mem _ hnext))
        exact hkeeps.apply (hsound other List.mem_cons_self) (hspares other List.mem_cons_self)
  exact hlater _ (hrewrites.keeps hfield hbits hnumber memory)

end WriteCommand

namespace PointWrite

/-- What writing one point does to a memory: a plain point stores its encoded values, and a bit
field replaces its own bits of the register. -/
inductive Performs (points : List Point) (device : DeviceId) (write : PointWrite) :
    Memory → Memory → Prop where
  | plain {memory : Memory} {point : Point} {values : WireValues}
      (hpoint : findPoint? points device write.name = some point) (hbits : point.bits = none)
      (hencode : encode point write.value none = .ok values) :
      Performs points device write memory
        (memory.store point.unit point.registerClass point.address values)
  | field {memory : Memory} {point : Point} {field : BitField} {number : Nat} {new : UInt16}
      (hpoint : findPoint? points device write.name = some point)
      (hbits : point.bits = some field)
      (hnumber : fieldNumber point write.value = .ok number) (hmax : number ≤ field.maxValue)
      (hreplaces : field.Replaces number
        (point.seen (memory.word point.unit point.registerClass point.address))
        (point.seen new)) :
      Performs points device write memory
        (memory.store point.unit point.registerClass point.address (.words [new]))

variable {points : List Point} {device : DeviceId} {write : PointWrite} {memory next : Memory}

/-- The memory after a write is determined by the memory before it. -/
theorem Performs.unique {other : Memory} (hnext : write.Performs points device memory next)
    (hother : write.Performs points device memory other) : other = next := by
  cases hnext with
  | plain hpoint hbits hencode =>
      cases hother with
      | plain hotherPoint hotherBits hotherEncode =>
          obtain rfl := Option.some.inj (hpoint.symm.trans hotherPoint)
          rw [Except.ok.inj (hencode.symm.trans hotherEncode)]
      | field hotherPoint hotherBits =>
          obtain rfl := Option.some.inj (hpoint.symm.trans hotherPoint)
          simp [hbits] at hotherBits
  | field hpoint hbits hnumber hmax hreplaces =>
      cases hother with
      | plain hotherPoint hotherBits =>
          obtain rfl := Option.some.inj (hpoint.symm.trans hotherPoint)
          simp [hbits] at hotherBits
      | field hotherPoint hotherBits hotherNumber hotherMax hotherReplaces =>
          obtain rfl := Option.some.inj (hpoint.symm.trans hotherPoint)
          obtain rfl := Option.some.inj (hbits.symm.trans hotherBits)
          obtain rfl := Int.ofNat_inj.mp (Except.ok.inj (hnumber.symm.trans hotherNumber))
          rw [Point.eq_of_seen (hreplaces.unique hotherReplaces)]

end PointWrite

end Fieldbus
