import Fieldbus.Point.Overlap
import Fieldbus.Proofs.Codec.Bytes
import Fieldbus.Proofs.Codec.FieldNumbers
import Fieldbus.Proofs.Polling.Members
import Fieldbus.Proofs.Write.Cells

/-!
# Interference

A write of one point does not change what another one reads, if the two are not reported as
overlapping.  There is one exception: the report compares bit fields by their offsets, so two
fields of a register whose points see its bytes in different orders may share bits unnoticed.
-/

namespace Fieldbus

open Codec

namespace Point

/-- What a write of a value does to a memory.  A bit field is merged into what its register
holds. -/
def write (point : Point) (value : PointValue) (memory : Memory) :
    Except EncodingError Memory := do
  let current := point.bits.map fun _ => memory.word point.unit point.registerClass point.address
  let values ← encode point value current
  return memory.store point.unit point.registerClass point.address values

/-- What a read of the point alone shows. -/
def valueIn (point : Point) (memory : Memory) : Except DecodeError PointValue :=
  decode point (memory.read point.readRequest).values

/-- The value can be written to the point, at least for some contents of its register. -/
def Accepts (point : Point) (value : PointValue) : Prop :=
  ∃ current values, encode point value current = .ok values

/-- Every value that is accepted can be written, and the other point does not notice. -/
def Spares (point other : Point) : Prop :=
  ∀ (memory : Memory) (value : PointValue), point.Accepts value →
    ∃ next, point.write value memory = .ok next ∧ other.valueIn next = other.valueIn memory

/-- The block of addresses of a point. -/
def block (point : Point) : Block :=
  ⟨point.unit, point.registerClass, point.address.toNat,
    point.address.toNat + point.quantity.toNat⟩

variable {point : Point} {field : BitField} {value : PointValue} {memory : Memory}

theorem write_of_none (hbits : point.bits = none) (value : PointValue) (memory : Memory) :
    point.write value memory = (encode point value none).map
      (memory.store point.unit point.registerClass point.address) := by
  simp only [write, hbits, Option.map_none]
  cases encode point value none <;> rfl

theorem write_of_field (hvalid : point.Valid) (hbits : point.bits = some field)
    (value : PointValue) (memory : Memory) :
    point.write value memory =
      (encodeField point field value
        (some (memory.word point.unit point.registerClass point.address))).map fun word =>
          memory.store point.unit point.registerClass point.address (.words [word]) := by
  simp only [write, hbits, Option.map_some, encode_field (hvalid.field hbits).1 hbits]
  cases encodeField point field value
    (some (memory.word point.unit point.registerClass point.address)) <;> rfl

theorem encode_eq_of_none (hbits : point.bits = none) (value : PointValue)
    (current other : Option UInt16) : encode point value current = encode point value other := by
  simp only [encode, hbits]
  cases point.rawType <;> rfl

/-- A field that is written gets a number, and its register is stored again. -/
theorem exists_write_field (hvalid : point.Valid) (hbits : point.bits = some field)
    (haccepts : point.Accepts value) (memory : Memory) :
    ∃ (number : Nat) (new : UInt16), point.write value memory =
        .ok (memory.store point.unit point.registerClass point.address (.words [new])) ∧
      field.Replaces number
        (point.seen (memory.word point.unit point.registerClass point.address))
        (point.seen new) := by
  obtain ⟨current, values, hencode⟩ := haccepts
  obtain ⟨hword, -, hfits⟩ := hvalid.field hbits
  rw [encode_field hword hbits] at hencode
  obtain ⟨word, hfield, -⟩ := exists_of_map_eq_ok hencode
  obtain ⟨number, -, -, hmerges⟩ := exists_encodeField hfits hfield
  obtain ⟨new, hnew, hreplaces⟩ :=
    hmerges (memory.word point.unit point.registerClass point.address)
  refine ⟨number, new, ?_, hreplaces⟩
  rw [write_of_field hvalid hbits, hnew]
  rfl

/-- An accepted value is stored at the addresses of the point. -/
theorem exists_write (hvalid : point.Valid) (haccepts : point.Accepts value) (memory : Memory) :
    ∃ values, values.length = point.quantity.toNat ∧ point.write value memory =
      .ok (memory.store point.unit point.registerClass point.address values) := by
  cases hbits : point.bits with
  | none =>
      obtain ⟨current, values, hencode⟩ := haccepts
      have hlength := length_encode hvalid hencode
      rw [encode_eq_of_none hbits value current none] at hencode
      refine ⟨values, hlength, ?_⟩
      rw [write_of_none hbits, hencode]
      rfl
  | some field =>
      obtain ⟨number, new, hwrite, -⟩ := exists_write_field hvalid hbits haccepts memory
      refine ⟨.words [new], ?_, hwrite⟩
      rw [quantity_of_field hvalid hbits]
      rfl

/-- A field is read from its register. -/
theorem valueIn_field (hvalid : point.Valid) (hbits : point.bits = some field)
    (memory : Memory) :
    point.valueIn memory = .ok (divideBy point.scale (.int (Int64.ofInt (field.number
      (point.seen (memory.word point.unit point.registerClass point.address)))))) := by
  have hread : (memory.read point.readRequest).values =
      .words [memory.word point.unit point.registerClass point.address] := by
    simp [Memory.read, readRequest, (hvalid.field hbits).1, quantity_of_field hvalid hbits,
      Memory.addresses, Response.values]
  rw [valueIn, hread, decode_field hvalid hbits]

end Point

namespace Memory

variable {memory : Memory} {range : AddressRange} {address : UInt16}

theorem mem_addresses (hvalid : range.Valid) (haddress : address ∈ addresses range) :
    range.start.toNat ≤ address.toNat ∧ address.toNat < range.stop := by
  obtain ⟨offset, hoffset, rfl⟩ := List.mem_map.mp haddress
  have hstop := hvalid.2
  have hinside := List.mem_range.mp hoffset
  rw [AddressRange.stop, AddressRange.spaceSize, UInt16.size] at hstop
  rw [AddressRange.stop, UInt16.toNat_add, UInt16.toNat_ofNat']
  omega

/-- A change of other cells is not read. -/
theorem read_revise_of_within {change : Change} {block : Block} {request : ReadRequest}
    (hwithin : change.Within block) (hvalid : request.range.Valid)
    (hapart : Block.Apart
      ⟨request.unit, request.registerClass, request.range.start.toNat, request.range.stop⟩
      block) :
    (memory.revise change).read request = memory.read request := by
  have houtside : ∀ address ∈ addresses request.range,
      ¬block.Holds request.unit request.registerClass address := fun address haddress =>
    hapart.not_holds ⟨rfl, rfl, mem_addresses hvalid haddress⟩
  rw [read, read]
  split
  · congr 1
    apply List.map_congr_left
    intro address haddress
    exact congrFun (hwithin.bit _ _ _ (houtside address haddress)) _
  · congr 1
    apply List.map_congr_left
    intro address haddress
    exact congrFun (hwithin.word _ _ _ (houtside address haddress)) _

@[simp] theorem word_store_singleton (memory : Memory) (unit : UnitId)
    (registerClass : RegisterClass) (start word : UInt16) :
    (memory.store unit registerClass start (.words [word])).word unit registerClass start =
      word := by
  simp [store, override]

end Memory

namespace Point

variable {first second : Point}

/-- A write of addresses that another point does not have is not noticed there. -/
theorem spares_of_apart (hfirst : first.Valid) (hsecond : second.Valid)
    (hapart : second.block.Apart first.block) : first.Spares second := by
  intro memory value haccepts
  obtain ⟨values, hlength, hwrite⟩ := exists_write hfirst haccepts memory
  refine ⟨_, hwrite, ?_⟩
  have hrange : second.readRequest.range.Valid := (range_eq_ok_iff.mp hsecond.range_eq).2
  rw [block, block, ← hlength] at hapart
  rw [valueIn, valueIn, Memory.store_eq_revise, Memory.read_revise_of_within
    (Change.within_ofStore (hlength ▸ hfirst.stop_le)) hrange hapart]

end Point

/-! ## Fields of one register -/

namespace Point

variable {point first second : Point} {field firstField secondField : BitField}

/-- The bit of the register that a point sees at a place.  The other way around it is the place
where the point sees a bit. -/
def wireBit (point : Point) (index : Nat) : Nat :=
  if point.byteSwap then (index + 8) % 16 else index

theorem wireBit_lt (point : Point) {index : Nat} (hindex : index < 16) :
    point.wireBit index < 16 := by
  rw [wireBit]
  split <;> omega

theorem wireBit_wireBit (point : Point) {index : Nat} (hindex : index < 16) :
    point.wireBit (point.wireBit index) = index := by
  rw [wireBit, wireBit]
  split <;> omega

theorem testBit_seen (point : Point) (word : UInt16) {index : Nat} (hindex : index < 16) :
    (point.seen word).toNat.testBit index = word.toNat.testBit (point.wireBit index) := by
  rw [seen, wireBit]
  split
  · exact Words.testBit_swapBytes word hindex
  · rfl

theorem testBit_wireBit (point : Point) (word : UInt16) {index : Nat} (hindex : index < 16) :
    (point.seen word).toNat.testBit (point.wireBit index) = word.toNat.testBit index := by
  rw [testBit_seen point word (point.wireBit_lt hindex), point.wireBit_wireBit hindex]

/-- The point has a field that holds a bit of its register. -/
def Occupies (point : Point) (index : Nat) : Prop :=
  ∃ field, point.bits = some field ∧ field.offset.toNat ≤ point.wireBit index ∧
    point.wireBit index < field.stop

theorem Occupies.exists_field {index : Nat} (hoccupies : point.Occupies index) :
    ∃ field, point.bits = some field := by
  obtain ⟨field, hbits, -⟩ := hoccupies
  exact ⟨field, hbits⟩

theorem Occupies.exists_place {index : Nat} (hoccupies : point.Occupies index)
    (hbits : point.bits = some field) :
    ∃ place < field.length.toNat, point.wireBit index = field.offset.toNat + place := by
  obtain ⟨found, hfound, hlow, hhigh⟩ := hoccupies
  obtain rfl := Option.some.inj (hbits.symm.trans hfound)
  obtain ⟨place, hplace⟩ := Nat.exists_eq_add_of_le hlow
  exact ⟨place, Nat.lt_of_add_lt_add_left (hplace ▸ hhigh), hplace⟩

/-- A write of a field leaves the bits alone that the field does not hold. -/
theorem testBit_of_not_occupies {number : Nat} {old new : UInt16}
    (hbits : point.bits = some field)
    (hreplaces : field.Replaces number (point.seen old) (point.seen new)) {index : Nat}
    (hindex : index < 16) (hfree : ¬point.Occupies index) :
    new.toNat.testBit index = old.toNat.testBit index := by
  have houtside : point.wireBit index < field.offset.toNat ∨
      field.stop ≤ point.wireBit index := by
    by_contra hinside
    rw [not_or, Nat.not_lt, Nat.not_le] at hinside
    exact hfree ⟨field, hbits, hinside⟩
  have hkept := hreplaces.outside _ houtside
  rwa [testBit_wireBit point _ hindex, testBit_wireBit point _ hindex] at hkept

/-- A field reads the bits that it holds and no others. -/
theorem number_seen_eq_iff {old new : UInt16} (hbits : point.bits = some field)
    (hfits : field.Fits) :
    field.number (point.seen new) = field.number (point.seen old) ↔
      ∀ index < 16, point.Occupies index →
        new.toNat.testBit index = old.toNat.testBit index := by
  constructor
  · intro hnumber index hindex hoccupies
    obtain ⟨place, hinside, hplace⟩ := hoccupies.exists_place hbits
    have hbit := congrArg (Nat.testBit · place) hnumber
    simpa only [BitField.testBit_number, decide_eq_true hinside, Bool.true_and, ← hplace,
      testBit_wireBit point _ hindex] using hbit
  · intro hsame
    apply BitField.number_congr
    intro index hlow hhigh
    have hindex : index < 16 := Nat.lt_of_lt_of_le hhigh hfits.2
    have hoccupies : point.Occupies (point.wireBit index) := by
      refine ⟨field, hbits, ?_⟩
      rw [wireBit_wireBit point hindex]
      exact ⟨hlow, hhigh⟩
    rw [testBit_seen point _ hindex, testBit_seen point _ hindex]
    exact hsame _ (point.wireBit_lt hindex) hoccupies

/-- The points start with the same register. -/
structure SameRegister (first second : Point) : Prop where
  unit : first.unit = second.unit
  registerClass : first.registerClass = second.registerClass
  address : first.address = second.address

theorem SameRegister.symm (hsame : first.SameRegister second) : second.SameRegister first :=
  ⟨hsame.unit.symm, hsame.registerClass.symm, hsame.address.symm⟩

/-- Two fields share a bit of their register, which they see at different places. -/
structure Collides (first second : Point) : Prop extends SameRegister first second where
  byteSwap : first.byteSwap ≠ second.byteSwap
  shares : ∃ index < 16, first.Occupies index ∧ second.Occupies index

/-- A field keeps its number when a field without a common bit is written. -/
theorem spares_of_fields (hfirst : first.Valid) (hsecond : second.Valid)
    (hfirstBits : first.bits = some firstField) (hsecondBits : second.bits = some secondField)
    (hregister : first.SameRegister second)
    (hfree : ∀ index < 16, first.Occupies index → ¬second.Occupies index) :
    first.Spares second := by
  intro memory value haccepts
  obtain ⟨number, new, hwrite, hreplaces⟩ :=
    exists_write_field hfirst hfirstBits haccepts memory
  refine ⟨_, hwrite, ?_⟩
  have hsame := (number_seen_eq_iff hsecondBits (hsecond.field hsecondBits).2.2).mpr
    fun index hindex hoccupies => testBit_of_not_occupies hfirstBits hreplaces hindex
      fun hshared => hfree index hindex hshared hoccupies
  rw [valueIn_field hsecond hsecondBits, valueIn_field hsecond hsecondBits, ← hregister.unit,
    ← hregister.registerClass, ← hregister.address, Memory.word_store_singleton, hsame]

/-- Disjoint fields share no bit of their register if both points see it in one order. -/
theorem not_occupies_of_disjoint (hfirstBits : first.bits = some firstField)
    (hsecondBits : second.bits = some secondField) (hswap : first.byteSwap = second.byteSwap)
    (hdisjoint : firstField.disjoint secondField = true) {index : Nat}
    (hoccupies : first.Occupies index) : ¬second.Occupies index := by
  rintro ⟨otherField, hother, hlow, hhigh⟩
  obtain ⟨field, hfield, hfirstLow, hfirstHigh⟩ := hoccupies
  obtain rfl := Option.some.inj (hfirstBits.symm.trans hfield)
  obtain rfl := Option.some.inj (hsecondBits.symm.trans hother)
  simp only [BitField.disjoint, Bool.or_eq_true, decide_eq_true_eq] at hdisjoint
  rw [wireBit, hswap] at hfirstLow hfirstHigh
  rw [wireBit] at hlow hhigh
  omega

/-- A write can set all bits that an unscaled field holds. -/
theorem exists_write_ones (hvalid : point.Valid) (hbits : point.bits = some field)
    (hscale : point.scale = none) (memory : Memory) :
    ∃ value new, point.Accepts value ∧ point.write value memory =
        .ok (memory.store point.unit point.registerClass point.address (.words [new])) ∧
      ∀ index < 16, point.Occupies index → new.toNat.testBit index = true := by
  obtain ⟨new, hencode, hreplaces⟩ := exists_encode_number hvalid hbits hscale
    (field.holds_number 0xFFFF) (memory.word point.unit point.registerClass point.address)
  refine ⟨_, new, ⟨_, _, hencode⟩, ?_, ?_⟩
  · simp only [write, hbits, Option.map_some, hencode]
    rfl
  · intro index hindex hoccupies
    obtain ⟨place, hinside, hplace⟩ := hoccupies.exists_place hbits
    have hone : (0xFFFF : UInt16).toNat.testBit (point.wireBit index) = true :=
      (Nat.testBit_two_pow_sub_one 16 _).trans (decide_eq_true (point.wireBit_lt hindex))
    rw [← testBit_wireBit point new hindex, hplace, hreplaces.inside _ hinside,
      BitField.toInt_number, Int.toNat_natCast, BitField.testBit_number,
      decide_eq_true hinside, ← hplace, hone, Bool.true_and]

/-- Unscaled fields that share a bit do notice each other's writes. -/
theorem Collides.not_spares (hcollides : first.Collides second) (hfirst : first.Valid)
    (hsecond : second.Valid) (hfirstScale : first.scale = none)
    (hsecondScale : second.scale = none) : ¬first.Spares second := by
  intro hspares
  obtain ⟨index, hindex, hfirstOccupies, hsecondOccupies⟩ := hcollides.shares
  obtain ⟨firstField, hfirstBits⟩ := hfirstOccupies.exists_field
  obtain ⟨secondField, hsecondBits⟩ := hsecondOccupies.exists_field
  -- the shared bit is zero at first, and then it is set
  obtain ⟨value, new, haccepts, hwrite, hones⟩ :=
    exists_write_ones hfirst hfirstBits hfirstScale .zero
  obtain ⟨next, hnext, hsame⟩ := hspares .zero value haccepts
  obtain rfl := Except.ok.inj (hwrite.symm.trans hnext)
  rw [valueIn_field hsecond hsecondBits, valueIn_field hsecond hsecondBits, hsecondScale,
    hcollides.unit, hcollides.registerClass, hcollides.address,
    Memory.word_store_singleton] at hsame
  have hnumber : secondField.number (second.seen new) = secondField.number (second.seen 0) := by
    have hinteger := congrArg Int64.toInt (PointValue.int.inj (Except.ok.inj hsame))
    rw [BitField.toInt_number, BitField.toInt_number] at hinteger
    exact Int.ofNat_inj.mp hinteger
  have hbit := (number_seen_eq_iff hsecondBits (hsecond.field hsecondBits).2.2).mp hnumber index
    hindex hsecondOccupies
  rw [hones index hindex hfirstOccupies] at hbit
  simp at hbit

/-- The report names exactly the pairs that overlap, the earlier point first. -/
theorem mem_overlapsFrom {points : List Point} {place left right : Nat} :
    ((left, first), (right, second)) ∈ overlapsFrom place points ↔
      place ≤ left ∧ left < right ∧ points[left - place]? = some first ∧
        points[right - place]? = some second ∧ first.overlaps second = true := by
  induction points generalizing place with
  | nil => simp [overlapsFrom]
  | cons point rest ih =>
      have hlater : ∀ index, place < index →
          (point :: rest)[index - place]? = rest[index - (place + 1)]? := by
        intro index hindex
        rw [show index - place = index - (place + 1) + 1 by omega, List.getElem?_cons_succ]
      rw [overlapsFrom, List.mem_append, ih]
      simp only [List.mem_map, List.mem_filter, Prod.exists, Prod.mk.injEq,
        List.mk_mem_zipIdx_iff_le_and_getElem?_sub]
      constructor
      · rintro (⟨other, index, ⟨⟨hindex, hother⟩, hoverlaps⟩, ⟨rfl, rfl⟩, rfl, rfl⟩ |
          ⟨hleft, hlt, hfirst, hsecond, hoverlaps⟩)
        · exact ⟨Nat.le_refl _, hindex, by simp, (hlater index hindex).trans hother, hoverlaps⟩
        · exact ⟨by omega, hlt, (hlater left hleft).trans hfirst,
            (hlater right (by omega)).trans hsecond, hoverlaps⟩
      · rintro ⟨hplace, hlt, hfirst, hsecond, hoverlaps⟩
        rw [hlater right (by omega)] at hsecond
        rcases Nat.eq_or_lt_of_le hplace with rfl | hleft
        · rw [Nat.sub_self, List.getElem?_cons_zero] at hfirst
          obtain rfl := Option.some.inj hfirst
          exact .inl ⟨second, right, ⟨⟨hlt, hsecond⟩, hoverlaps⟩, ⟨rfl, rfl⟩, rfl, rfl⟩
        · exact .inr ⟨hleft, hlt, (hlater left hleft).symm.trans hfirst, hsecond, hoverlaps⟩

theorem mem_findOverlaps {points : List Point} {left right : Nat} :
    ((left, first), (right, second)) ∈ findOverlaps points ↔
      left < right ∧ points[left]? = some first ∧ points[right]? = some second ∧
        first.overlaps second = true := by
  rw [findOverlaps, mem_overlapsFrom]
  simp

/-- Points that share an address are not reported only if they have disjoint fields. -/
theorem exists_disjoint_fields (hfirst : first.Valid) (hsecond : second.Valid)
    (hmeet : ¬first.block.Apart second.block) (hunreported : first.overlaps second = false) :
    ∃ firstField secondField, first.bits = some firstField ∧ second.bits = some secondField ∧
      first.SameRegister second ∧ firstField.disjoint secondField = true := by
  simp only [Block.Apart, block, Classical.not_imp] at hmeet
  obtain ⟨hunit, hclass, hmeet⟩ := hmeet
  have hranges : first.rangesOverlap second = true := by
    simp only [rangesOverlap, hfirst.range_eq, hsecond.range_eq, AddressRange.overlaps,
      Bool.and_eq_true, decide_eq_true_eq]
    dsimp only [AddressRange.stop]
    omega
  have hfields : first.haveDisjointFields second = true := by
    simpa [overlaps, hunit, hclass, hranges] using hunreported
  rw [haveDisjointFields] at hfields
  split at hfields
  · next firstField secondField hfirstBits hsecondBits =>
      rw [Bool.and_eq_true, beq_iff_eq] at hfields
      exact ⟨firstField, secondField, hfirstBits, hsecondBits, ⟨hunit, hclass, hfields.1⟩,
        hfields.2⟩
  · cases hfields

/-- Points that are not reported do not notice each other's writes, unless their fields collide. -/
theorem spares_or_collides {points : List Point} {left right : Nat}
    (hvalid : ∀ point ∈ points, point.Valid) (hlt : left < right)
    (hfirst : points[left]? = some first) (hsecond : points[right]? = some second)
    (hunreported : ((left, first), (right, second)) ∉ findOverlaps points) :
    first.Spares second ∧ second.Spares first ∨ first.Collides second := by
  have hfirstValid := hvalid first (List.mem_of_getElem? hfirst)
  have hsecondValid := hvalid second (List.mem_of_getElem? hsecond)
  have hoverlaps : first.overlaps second = false := by
    rw [mem_findOverlaps] at hunreported
    simpa [hlt, hfirst, hsecond] using hunreported
  by_cases hapart : first.block.Apart second.block
  · exact .inl ⟨spares_of_apart hfirstValid hsecondValid hapart.symm,
      spares_of_apart hsecondValid hfirstValid hapart⟩
  obtain ⟨firstField, secondField, hfirstBits, hsecondBits, hregister, hdisjoint⟩ :=
    exists_disjoint_fields hfirstValid hsecondValid hapart hoverlaps
  by_cases hfree : ∀ index < 16, first.Occupies index → ¬second.Occupies index
  · exact .inl ⟨spares_of_fields hfirstValid hsecondValid hfirstBits hsecondBits hregister hfree,
      spares_of_fields hsecondValid hfirstValid hsecondBits hfirstBits hregister.symm
        fun index hindex hsecond hfirst => hfree index hindex hfirst hsecond⟩
  · push Not at hfree
    refine .inr ⟨hregister, fun hswap => ?_, hfree⟩
    obtain ⟨index, -, hfirst, hsecond⟩ := hfree
    exact not_occupies_of_disjoint hfirstBits hsecondBits hswap hdisjoint hfirst hsecond

/-- A field of the low byte and one across both bytes share no bit. -/
theorem spares_sampleFields :
    findOverlaps [sampleField ⟨0, 4⟩ true, sampleField ⟨4, 8⟩ true] = [] ∧
      (sampleField ⟨0, 4⟩ true).Spares (sampleField ⟨4, 8⟩ true) ∧
        (sampleField ⟨4, 8⟩ true).Spares (sampleField ⟨0, 4⟩ true) := by
  have hunreported : findOverlaps [sampleField ⟨0, 4⟩ true, sampleField ⟨4, 8⟩ true] = [] := by
    decide +kernel
  refine ⟨hunreported, ?_⟩
  have hspares := spares_or_collides
    (show ∀ point ∈ [sampleField ⟨0, 4⟩ true, sampleField ⟨4, 8⟩ true], point.Valid by
      decide +kernel) Nat.zero_lt_one rfl rfl (by simp [hunreported])
  exact hspares.resolve_right fun hcollides => hcollides.byteSwap rfl

theorem collides_sampleFields :
    (sampleField ⟨0, 4⟩ false).Collides (sampleField ⟨8, 4⟩ true) where
  unit := rfl
  registerClass := rfl
  address := rfl
  byteSwap := by decide
  shares := ⟨0, by decide, ⟨⟨0, 4⟩, rfl, by decide⟩, ⟨⟨8, 4⟩, rfl, by decide⟩⟩

/-- Two points that are not reported may write the same bits: with its bytes swapped, the lowest
bits of a register are the lowest of its high byte. -/
theorem not_spares_of_unreported :
    ¬∀ (points : List Point) (left right : Nat) (first second : Point),
      (∀ point ∈ points, point.Valid ∧ point.registerClass = .holdingRegister) → left < right →
        points[left]? = some first → points[right]? = some second →
          ((left, first), (right, second)) ∉ findOverlaps points →
            first.Spares second ∧ second.Spares first := by
  intro hclaim
  have hunreported : findOverlaps [sampleField ⟨0, 4⟩ false, sampleField ⟨8, 4⟩ true] = [] := by
    decide +kernel
  have hspares := (hclaim [sampleField ⟨0, 4⟩ false, sampleField ⟨8, 4⟩ true] 0 1 _ _
    (by decide +kernel) Nat.zero_lt_one rfl rfl (by simp [hunreported])).1
  exact collides_sampleFields.not_spares (by decide +kernel) (by decide +kernel) rfl rfl hspares

end Point

end Fieldbus
