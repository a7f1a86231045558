import Fieldbus.Bench.Memory
import Fieldbus.Polling.Batch
import Fieldbus.Proofs.Codec.Fields

/-!
# Members of poll groups

The points of a group are read together in one block of addresses.  Each has its own block inside
that of the group, so that the read of the group holds what a read of the point alone would hold,
and the point decodes from every answer that passes the check of the group's request.
-/

namespace Fieldbus

namespace AddressRange

variable {left right inner middle outer : AddressRange}

/-- Every address of the first range is one of the second. -/
structure Within (inner outer : AddressRange) : Prop where
  start_le : outer.start.toNat ≤ inner.start.toNat
  stop_le : inner.stop ≤ outer.stop

theorem Within.refl (range : AddressRange) : range.Within range := ⟨Nat.le_refl _, Nat.le_refl _⟩

theorem Within.trans (hinner : inner.Within middle) (houter : middle.Within outer) :
    inner.Within outer where
  start_le := Nat.le_trans houter.start_le hinner.start_le
  stop_le := Nat.le_trans hinner.stop_le houter.stop_le

theorem toNat_start_union (left right : AddressRange) :
    (left.union right).start.toNat = min left.start.toNat right.start.toNat := by
  change (if left.start ≤ right.start then left.start else right.start).toNat = _
  rw [Nat.min_def]
  simp only [UInt16.le_iff_toNat_le]
  split <;> rfl

theorem stop_union (hspan : left.unionSpan right < UInt16.size) :
    (left.union right).stop = max left.stop right.stop := by
  have hcount : (left.union right).count.toNat = left.unionSpan right :=
    UInt16.toNat_ofNat_of_lt' hspan
  rw [stop, toNat_start_union, hcount, unionSpan]
  have hleft : left.start.toNat ≤ left.stop := Nat.le_add_right _ _
  omega

theorem within_union_left (hspan : left.unionSpan right < UInt16.size) :
    left.Within (left.union right) where
  start_le := by rw [toNat_start_union]; exact Nat.min_le_left _ _
  stop_le := by rw [stop_union hspan]; exact Nat.le_max_left _ _

theorem within_union_right (hspan : left.unionSpan right < UInt16.size) :
    right.Within (left.union right) where
  start_le := by rw [toNat_start_union]; exact Nat.min_le_right _ _
  stop_le := by rw [stop_union hspan]; exact Nat.le_max_right _ _

theorem Valid.union (hleft : left.Valid) (hright : right.Valid)
    (hspan : left.unionSpan right < UInt16.size) : (left.union right).Valid := by
  have hinner := within_union_left hspan
  constructor
  · have hstart := hinner.start_le
    have hstop := hinner.stop_le
    have hpos := hleft.1
    simp only [stop] at hstop
    omega
  · rw [stop_union hspan]
    exact Nat.max_le.mpr ⟨hleft.2, hright.2⟩

end AddressRange

/-- A read of the point alone. -/
def Point.readRequest (point : Point) : ReadRequest :=
  ⟨point.unit, point.registerClass, ⟨point.address, point.quantity⟩⟩

theorem Point.pollRange?_eq_some {point : Point} {range : AddressRange}
    (hpoll : point.pollRange? = some range) : point.Valid ∧ range = point.readRequest.range := by
  rw [pollRange?] at hpoll
  split at hpoll
  · next hvalidate hrange =>
      split at hpoll
      · obtain rfl := Option.some.inj hpoll
        exact ⟨hvalidate, (range_eq_ok_iff.mp hrange).1⟩
      · simp at hpoll
  · simp at hpoll

theorem Point.pollRange?_of_valid {point : Point} (hvalid : point.Valid)
    (hreadable : point.access.isReadable = true) :
    point.pollRange? = some point.readRequest.range := by
  have hvalidate : point.validate = .ok () := hvalid
  simp only [pollRange?, hvalidate, hvalid.range_eq, hreadable, if_true]
  rfl

theorem Point.mem_pollOrder {points : List Point} {point : Point} {range : AddressRange}
    (hmem : (point, range) ∈ pollOrder points) : point.pollRange? = some range := by
  obtain ⟨other, -, hother⟩ := List.mem_filterMap.mp (List.mem_mergeSort.mp hmem)
  obtain ⟨found, hfound, hpair⟩ := Option.map_eq_some_iff.mp hother
  obtain ⟨rfl, rfl⟩ := Prod.mk.inj hpair
  exact hfound

namespace PollGroup

variable {group : PollGroup} {point : Point} {range : AddressRange} {maxSpan : Nat}

/-- The point can be read with the group. -/
structure HasMember (group : PollGroup) (point : Point) : Prop where
  valid : point.Valid
  unit : point.unit = group.unit
  registerClass : point.registerClass = group.registerClass
  within : point.readRequest.range.Within group.range

/-- The block of the group lies in the address space and contains all its points. -/
structure Covers (group : PollGroup) : Prop where
  valid : group.range.Valid
  members : ∀ point ∈ group.points, group.HasMember point

theorem covers_single (index : Nat) (hpoll : point.pollRange? = some range) :
    (single index point range).Covers := by
  obtain ⟨hvalid, rfl⟩ := Point.pollRange?_eq_some hpoll
  constructor
  · exact (Point.range_eq_ok_iff.mp hvalid.range_eq).2
  · intro other hother
    obtain rfl := List.mem_singleton.mp hother
    exact ⟨hvalid, rfl, rfl, .refl _⟩

theorem Covers.extend (hcovers : group.Covers) (hpoll : point.pollRange? = some range)
    (hspan : maxSpan < UInt16.size) (haccepts : group.accepts maxSpan point range) :
    (group.extend point range).Covers := by
  obtain ⟨hvalid, rfl⟩ := Point.pollRange?_eq_some hpoll
  simp only [accepts, Bool.and_eq_true, beq_iff_eq, decide_eq_true_eq] at haccepts
  obtain ⟨⟨⟨-, hunit⟩, hclass⟩, hunion⟩ := haccepts
  have hfits := Nat.lt_of_le_of_lt hunion hspan
  constructor
  · exact hcovers.valid.union (Point.range_eq_ok_iff.mp hvalid.range_eq).2 hfits
  · intro other hother
    rcases List.mem_append.mp hother with hold | hnew
    · have hmember := hcovers.members other hold
      exact ⟨hmember.valid, hmember.unit, hmember.registerClass,
        hmember.within.trans (AddressRange.within_union_left hfits)⟩
    · obtain rfl := List.mem_singleton.mp hnew
      exact ⟨hvalid, hunit.symm, hclass.symm, AddressRange.within_union_right hfits⟩

theorem covers_place {groups : List PollGroup} (index : Nat)
    (hcovers : ∀ group ∈ groups, group.Covers) (hpoll : point.pollRange? = some range)
    (hspan : maxSpan < UInt16.size) : ∀ group ∈ place maxSpan index point range groups,
      group.Covers := by
  induction groups with
  | nil =>
      intro group hgroup
      obtain rfl := List.mem_singleton.mp hgroup
      exact covers_single index hpoll
  | cons first rest ih =>
      obtain ⟨hfirst, hrest⟩ := List.forall_mem_cons.mp hcovers
      rw [place]
      split
      · next haccepts =>
          exact List.forall_mem_cons.mpr ⟨hfirst.extend hpoll hspan haccepts, hrest⟩
      · exact List.forall_mem_cons.mpr ⟨hfirst, ih hrest⟩

end PollGroup

/-- However points are put into groups, each lies in the block of its group. -/
theorem covers_of_mem_buildGroups {points : List Point} {maxSpan : UInt16} {group : PollGroup}
    (hgroup : group ∈ buildGroups points maxSpan) : group.Covers := by
  have hall : ∀ built ∈ buildGroups points maxSpan, built.Covers := by
    apply List.foldlRecOn (motive := fun groups => ∀ built ∈ groups, PollGroup.Covers built)
    · simp
    · intro groups hgroups entry hentry
      exact PollGroup.covers_place groups.length hgroups (Point.mem_pollOrder hentry)
        maxSpan.toNat_lt
  exact hall group hgroup

namespace PollGroup

/-- The points of some groups, group by group. -/
def members (groups : List PollGroup) : List Point := groups.flatMap (·.points)

theorem members_place (maxSpan index : Nat) (point : Point) (range : AddressRange)
    (groups : List PollGroup) :
    (members (place maxSpan index point range groups)).Perm (point :: members groups) := by
  induction groups with
  | nil => exact .refl _
  | cons first rest ih =>
      rw [place]
      split
      · have happend : members (first.extend point range :: rest) =
            first.points ++ point :: members rest := by
          simp [members, extend]
        rw [happend]
        exact List.perm_middle
      · exact (ih.append_left first.points).trans List.perm_middle

theorem members_foldl_place (maxSpan : Nat) (entries : List (Point × AddressRange))
    (groups : List PollGroup) :
    (members (entries.foldl (fun groups (point, range) =>
      place maxSpan groups.length point range groups) groups)).Perm
        (members groups ++ entries.map (·.1)) := by
  induction entries generalizing groups with
  | nil => simp
  | cons entry rest ih =>
      obtain ⟨point, range⟩ := entry
      have hplaced := members_place maxSpan groups.length point range groups
      exact (ih _).trans ((hplaced.append_right _).trans List.perm_middle.symm)

end PollGroup

/-- No point is lost and none is doubled: the members of all groups are the points that take part
in polling. -/
theorem members_buildGroups (points : List Point) (maxSpan : UInt16) :
    (PollGroup.members (buildGroups points maxSpan)).Perm
      (points.filter (·.pollRange?.isSome)) := by
  have hpolled : (points.filterMap fun point =>
      point.pollRange?.map fun range => (point, range)).map (·.1) =
        points.filter (·.pollRange?.isSome) := by
    induction points with
    | nil => rfl
    | cons first rest ih => cases hpoll : first.pollRange? <;> simp [hpoll, ih]
  have hall := PollGroup.members_foldl_place maxSpan.toNat (Point.pollOrder points) []
  rw [← hpolled]
  exact hall.trans ((List.mergeSort_perm _ _).map _)

/-- Every valid point that can be read is a member of a group. -/
theorem exists_group_of_readable {points : List Point} {point : Point} (maxSpan : UInt16)
    (hpoint : point ∈ points) (hvalid : point.Valid)
    (hreadable : point.access.isReadable = true) :
    ∃ group ∈ buildGroups points maxSpan, point ∈ group.points := by
  have hpolled : point ∈ points.filter (·.pollRange?.isSome) := by
    rw [List.mem_filter, Point.pollRange?_of_valid hvalid hreadable]
    exact ⟨hpoint, rfl⟩
  exact List.mem_flatMap.mp ((members_buildGroups points maxSpan).mem_iff.mpr hpolled)

/-! ## Blocks of values -/

/-- The values are those of as many addresses as the request reads, of the kind of its class. -/
def WireValues.Fill (request : ReadRequest) : WireValues → Prop
  | bits values =>
    request.registerClass.isBit = true ∧ values.length = request.range.count.toNat
  | words values =>
    request.registerClass.isBit = false ∧ values.length = request.range.count.toNat

/-- An accepted response holds a value for every address. -/
theorem Response.fill_of_check {request : ReadRequest} {response checked : Response}
    (hcheck : response.check (.read request) = .ok checked) : checked.values.Fill request := by
  cases response with
  | bits values =>
      simp only [check] at hcheck
      split at hcheck
      · simp at hcheck
      · next hbit =>
          split at hcheck
          · simp at hcheck
          · next hlength =>
              obtain rfl := Except.ok.inj hcheck
              refine ⟨by simpa using hbit, ?_⟩
              rw [List.length_take, Nat.min_eq_left (Nat.le_of_not_lt hlength)]
  | registers values =>
      simp only [check] at hcheck
      split at hcheck
      · simp at hcheck
      · next hbit =>
          split at hcheck
          · simp at hcheck
          · next hlength =>
              obtain rfl := Except.ok.inj hcheck
              exact ⟨(Bool.not_eq_true _).mp hbit, Decidable.not_not.mp hlength⟩
  | written => simp [check] at hcheck

namespace PollGroup.HasMember

variable {group : PollGroup} {point : Point} {values : WireValues}

/-- Where the point starts in the block of its group. -/
theorem offset_add_le (hmember : group.HasMember point) :
    point.address.toNat - group.range.start.toNat + point.quantity.toNat ≤
      group.range.count.toNat := by
  have hstart : group.range.start.toNat ≤ point.address.toNat := hmember.within.start_le
  have hstop : point.address.toNat + point.quantity.toNat ≤
    group.range.start.toNat + group.range.count.toNat := hmember.within.stop_le
  omega

/-- The part of a block that belongs to a member. -/
theorem fill_slice (hmember : group.HasMember point) (hfill : values.Fill group.readRequest) :
    (values.slice (point.address.toNat - group.range.start.toNat) point.quantity.toNat).Fill
      point.readRequest := by
  have hinside := hmember.offset_add_le
  cases values with
  | bits values | words values =>
      obtain ⟨hkind, hlength⟩ := hfill
      have hcount : values.length = group.range.count.toNat := hlength
      constructor
      · exact (congrArg RegisterClass.isBit hmember.registerClass).trans hkind
      · rw [List.length_take, List.length_drop, hcount]
        exact Nat.min_eq_left (by omega)

end PollGroup.HasMember

namespace Memory

variable {inner outer : AddressRange}

theorem length_addresses (range : AddressRange) :
    (addresses range).length = range.count.toNat := by
  rw [addresses, List.length_map, List.length_range]

/-- The addresses of a range inside another follow each other there. -/
theorem addresses_within (hwithin : inner.Within outer) :
    ((addresses outer).drop (inner.start.toNat - outer.start.toNat)).take inner.count.toNat =
      addresses inner := by
  obtain ⟨hstart, hstop⟩ := hwithin
  simp only [AddressRange.stop] at hstop
  apply List.ext_getElem
  · rw [List.length_take, List.length_drop, length_addresses, length_addresses]
    omega
  · intro index _ _
    simp only [addresses, List.getElem_take, List.getElem_drop, List.getElem_map,
      List.getElem_range, UInt16.ofNat_add]
    rw [← UInt16.add_assoc]
    congr 1
    apply UInt16.toNat_inj.mp
    have hsmall := inner.start.toNat_lt
    rw [UInt16.toNat_add, UInt16.toNat_ofNat']
    omega

/-- The part of a block that belongs to a range inside is what a read of the range gives. -/
theorem slice_read (memory : Memory) (unit : UnitId) (registerClass : RegisterClass)
    (hwithin : inner.Within outer) :
    (memory.read ⟨unit, registerClass, outer⟩).slice (inner.start.toNat - outer.start.toNat)
      inner.count.toNat = (memory.read ⟨unit, registerClass, inner⟩).values := by
  unfold read
  split <;>
  · simp only [Response.slice, Response.values, WireValues.slice, ← List.map_drop,
      ← List.map_take, addresses_within hwithin]

/-- The read of a group holds what a read of a member alone holds. -/
theorem slice_read_of_member {group : PollGroup} {point : Point} (memory : Memory)
    (hmember : group.HasMember point) :
    (memory.read group.readRequest).slice (point.address.toNat - group.range.start.toNat)
      point.quantity.toNat = (memory.read point.readRequest).values := by
  have hslice := memory.slice_read group.unit group.registerClass hmember.within
  rw [← hmember.unit, ← hmember.registerClass] at hslice
  rwa [PollGroup.readRequest, ← hmember.unit, ← hmember.registerClass]

end Memory

/-- A response with more bits at its end, as devices send it. -/
def Response.padded (padding : List Bool) : Response → Response
  | bits values => bits (values ++ padding)
  | registers values => registers values
  | written => written

/-- Whatever the padding, what is accepted is the memory. -/
theorem Memory.check_padded (memory : Memory) (request : ReadRequest) (padding : List Bool) :
    ((memory.read request).padded padding).check (.read request) =
      .ok (memory.read request) := by
  rw [read]
  split
  · next hbit =>
      have hlength : ((addresses request.range).map
          (memory.bit request.unit request.registerClass)).length = request.range.count.toNat := by
        rw [List.length_map, length_addresses]
      simp only [Response.padded, Response.check, hbit]
      rw [if_neg (by simp), List.length_append, if_neg (by omega), List.take_left' hlength]
  · next hword => simp [Response.padded, Response.check, hword, length_addresses]

namespace Codec

variable {point : Point}

theorem exists_decodeRegister (hvalid : point.Valid) (rawType : RawType) (word : UInt16) :
    ∃ value, decodeRegister rawType point.bits word = .ok value := by
  cases hbits : point.bits with
  | none => exact ⟨_, rfl⟩
  | some field =>
      have hmask := BitField.hasMask_of_fits (hvalid.field hbits).2.2
      simp only [decodeRegister, BitField.extract?, hmask, if_true]
      exact ⟨_, rfl⟩

theorem exists_decodeWords (hvalid : point.Valid) (words : List UInt16) :
    ∃ value, decodeWords point words = .ok value := by
  cases hraw : point.rawType with
  | uint16 | int16 =>
      simp only [decodeWords, hraw]
      obtain ⟨value, hvalue⟩ := exists_decodeRegister hvalid point.rawType
        (UInt16.ofNat (Words.value (Words.orderWords point.wordSwap words)))
      rw [hraw] at hvalue
      exact ⟨_, by rw [hvalue]; rfl⟩
  | bool | uint32 | int32 | float32 | uint64 | int64 | float64 | string registers =>
      simp only [decodeWords, hraw]
      exact ⟨_, rfl⟩

/-- A valid point decodes from the values of its addresses. -/
theorem exists_decode {values : WireValues} (hvalid : point.Valid)
    (hfill : values.Fill point.readRequest) : ∃ value, decode point values = .ok value := by
  have hpos : 0 < point.quantity.toNat := (Point.range_eq_ok_iff.mp hvalid.range_eq).2.1
  cases values with
  | bits values =>
      obtain ⟨hbit, hlength⟩ := hfill
      have hclass : point.registerClass.isBit = true := hbit
      have hcount : values.length = point.quantity.toNat := hlength
      cases values with
      | nil => simp [← hcount] at hpos
      | cons first rest =>
          refine ⟨.bool first, ?_⟩
          simp [decode, WireValues.length, ← hcount, hclass]
  | words values =>
      obtain ⟨hword, hlength⟩ := hfill
      have hclass : point.registerClass.isBit = false := hword
      have hcount : values.length = point.quantity.toNat := hlength
      obtain ⟨value, hvalue⟩ := exists_decodeWords hvalid
        (Words.orderBytes point.byteSwap (values.take point.quantity.toNat))
      exact ⟨value, by simpa [decode, WireValues.length, hcount, hclass] using hvalue⟩

end Codec

/-- A member of a group decodes from every response that the group accepts. -/
theorem PollGroup.HasMember.decodes {group : PollGroup} {point : Point}
    {response checked : Response} (hmember : group.HasMember point)
    (hcheck : response.check (.read group.readRequest) = .ok checked) :
    ∃ value, Codec.decode point
      (checked.slice (point.address.toNat - group.range.start.toNat) point.quantity.toNat) =
        .ok value :=
  Codec.exists_decode hmember.valid (hmember.fill_slice (Response.fill_of_check hcheck))

end Fieldbus
