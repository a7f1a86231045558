import Fieldbus.Proofs.Write.Plans

/-!
# Requests of a plan

The register codec fills exactly the addresses of a point with values of the kind that its class
stores, and neighbours are merged only up to a span.  So a plan never writes beyond the points that
the write names, and none of its requests is invalid.
-/

namespace Fieldbus

open Codec

/-- The points that a write names. -/
def namedPoints (points : List Point) (device : DeviceId) (writes : List PointWrite) :
    List Point :=
  writes.filterMap fun write => findPoint? points device write.name

namespace Point

/-- The number of addresses of the widest point. -/
def widest (points : List Point) : Nat := (points.map (·.quantity.toNat)).foldr max 0

theorem le_widest {points : List Point} {point : Point} (hmem : point ∈ points) :
    point.quantity.toNat ≤ widest points := by
  induction points with
  | nil => simp at hmem
  | cons first rest ih =>
      rw [widest, List.map_cons, List.foldr_cons]
      rcases List.mem_cons.mp hmem with rfl | hrest
      · exact Nat.le_max_left _ _
      · exact Nat.le_trans (ih hrest) (Nat.le_max_right _ _)

theorem widest_lt (points : List Point) : widest points < UInt16.size := by
  induction points with
  | nil => decide
  | cons first rest ih =>
      rw [widest, List.map_cons, List.foldr_cons]
      exact Nat.max_lt.mpr ⟨first.quantity.toNat_lt, ih⟩

/-- The address belongs to the point. -/
structure Owns (unit : UnitId) (registerClass : RegisterClass) (address : Nat) (point : Point) :
    Prop where
  unit : point.unit = unit
  registerClass : point.registerClass = registerClass
  start_le : point.address.toNat ≤ address
  lt_stop : address < point.address.toNat + point.quantity.toNat

end Point

/-- The addresses that a request covers. -/
def Request.range : Request → Except InvalidRequest AddressRange
  | read request => .ok request.range
  | write request => request.range

/-- The link accepts the request, and its addresses lie in the address space. -/
structure Request.Proper (request : Request) : Prop where
  valid : request.validate = .ok ()
  range : ∃ range, request.range = .ok range ∧ range.Valid

/-- A valid write to addresses of the named points only, no wider than the span unless one of them
is. -/
structure WriteRequest.Serves (maxSpan : Nat) (named : List Point) (request : WriteRequest) :
    Prop where
  valid : request.validate = .ok ()
  range : ∃ range, request.range = .ok range ∧ range.Valid ∧ range.start = request.start ∧
    range.count.toNat = request.values.length
  kind : request.kindMatches = true
  length_le : request.values.length ≤ max maxSpan (Point.widest named)
  owned : ∀ address, request.start.toNat ≤ address →
    address < request.start.toNat + request.values.length →
      ∃ point ∈ named, point.Owns request.unit request.registerClass address

theorem WriteRequest.Serves.proper {maxSpan : Nat} {named : List Point} {request : WriteRequest}
    (hserves : request.Serves maxSpan named) : (Request.write request).Proper := by
  obtain ⟨range, hrange, hvalid, -⟩ := hserves.range
  exact ⟨hserves.valid, range, hrange, hvalid⟩

theorem WriteRequest.range_eq_ok {request : WriteRequest}
    (hpositive : 0 < request.values.length) (hnarrow : request.values.length < UInt16.size)
    (hfits : request.start.toNat + request.values.length ≤ AddressRange.spaceSize) :
    request.range = .ok ⟨request.start, UInt16.ofNat request.values.length⟩ ∧
      (⟨request.start, UInt16.ofNat request.values.length⟩ : AddressRange).Valid := by
  have hcount : (UInt16.ofNat request.values.length).toNat = request.values.length :=
    UInt16.toNat_ofNat_of_lt' hnarrow
  have hvalid : (⟨request.start, UInt16.ofNat request.values.length⟩ : AddressRange).Valid := by
    rw [AddressRange.Valid, AddressRange.stop]
    simp only [hcount]
    exact ⟨hpositive, hfits⟩
  refine ⟨?_, hvalid⟩
  rw [range, if_neg (Nat.not_le.mpr hnarrow), AddressRange.ofCount_eq_ok_iff.mpr ⟨rfl, hvalid⟩]

namespace WriteCommand

/-- A command that writes to addresses of the named points only. -/
structure Serves (maxSpan : Nat) (named : List Point) (command : WriteCommand) : Prop where
  positive : 0 < command.values.length
  kind : (command.writeRequest command.values).kindMatches = true
  length_le : command.values.length ≤ max maxSpan (Point.widest named)
  owned : ∀ address, command.start.toNat ≤ address → address < command.stop →
    ∃ point ∈ named, point.Owns command.unit command.registerClass address
  sound : command.Sound

variable {maxSpan : Nat} {named : List Point} {command left right current : WriteCommand}
variable {commands : List WriteCommand} {values : WireValues}

/-- Values of the same number and kind make a request that serves. -/
theorem Serves.writeRequest (hserves : command.Serves maxSpan named) (hspan : maxSpan < UInt16.size)
    (hlength : values.length = command.values.length)
    (hkind : (command.writeRequest values).kindMatches = true) :
    (command.writeRequest values).Serves maxSpan named := by
  have hvalues : (command.writeRequest values).values.length = command.values.length := hlength
  have hnarrow : command.values.length < UInt16.size :=
    Nat.lt_of_le_of_lt hserves.length_le (Nat.max_lt.mpr ⟨hspan, Point.widest_lt named⟩)
  obtain ⟨hrange, hvalid⟩ := WriteRequest.range_eq_ok (hvalues ▸ hserves.positive)
    (hvalues ▸ hnarrow) (hvalues ▸ hserves.sound.fits)
  refine ⟨?_, ⟨_, hrange, hvalid, rfl, ?_⟩, hkind, hvalues ▸ hserves.length_le, ?_⟩
  · have hnonempty : (command.writeRequest values).values.length ≠ 0 :=
      hvalues ▸ Nat.ne_of_gt hserves.positive
    simp only [WriteRequest.validate, if_neg hnonempty, hkind, hrange]
    rfl
  · exact UInt16.toNat_ofNat_of_lt' (hvalues ▸ hnarrow)
  · intro address hstart hstop
    exact hserves.owned address hstart (by rw [stop, ← hvalues]; exact hstop)

/-- The value of a bit field goes back into its register. -/
theorem Serves.writeBack (hserves : command.Serves maxSpan named) (hspan : maxSpan < UInt16.size)
    {point : Point} {value : PointValue} {current : UInt16}
    (hfield : command.field = some (point, value))
    (hencode : registerCodec.encode point value (some current) = .ok values) :
    (command.writeRequest values).Serves maxSpan named := by
  have hrewrites := hserves.sound.field point value hfield
  obtain ⟨field, number, -, -, hencodes⟩ := hrewrites.encodes
  obtain ⟨new, hnew, -⟩ := hencodes current
  obtain rfl := Except.ok.inj (hencode.symm.trans hnew)
  apply hserves.writeRequest hspan
  · exact hrewrites.width.symm
  · rw [WriteRequest.kindMatches]
    exact beq_iff_eq.mpr hrewrites.registerClass

/-- The register of a bit field is read alone. -/
theorem Serves.readRequest (hserves : command.Serves maxSpan named)
    (hfield : command.field ≠ none) : (Request.read command.readRequest).Proper := by
  obtain ⟨⟨point, value⟩, hfield⟩ := Option.ne_none_iff_exists'.mp hfield
  have hfits := hserves.sound.fits
  rw [stop, (hserves.sound.field point value hfield).width] at hfits
  refine ⟨rfl, _, rfl, ?_, hfits⟩
  change 0 < (1 : UInt16).toNat
  decide

/-- So an attempt begins with a proper request. -/
theorem Serves.firstRequest (hserves : command.Serves maxSpan named)
    (hspan : maxSpan < UInt16.size) :
    command.firstRequest.Proper ∧
      ∀ write, command.firstRequest = .write write → write.Serves maxSpan named := by
  rw [WriteCommand.firstRequest]
  cases hfield : command.field with
  | none =>
      have hwrite := hserves.writeRequest hspan rfl hserves.kind
      refine ⟨hwrite.proper, fun write hsame => ?_⟩
      obtain rfl := Request.write.inj hsame
      exact hwrite
  | some field => exact ⟨hserves.readRequest (by simp [hfield]), by simp⟩

theorem length_le_of_canMerge (hmerge : left.canMerge maxSpan right = true) :
    left.values.length + right.values.length ≤ maxSpan := by
  rw [canMerge] at hmerge
  split at hmerge
  · next words more hwords hmore =>
      simp only [Bool.and_eq_true, decide_eq_true_eq] at hmerge
      rw [hwords, hmore]
      exact hmerge.2
  · simp at hmerge

theorem Serves.merge (hleft : left.Serves maxSpan named) (hright : right.Serves maxSpan named)
    (hmerge : left.canMerge maxSpan right = true) : (left.merge right).Serves maxSpan named := by
  have hlength := length_le_of_canMerge hmerge
  have hsound := (hright.sound.merge hmerge).1
  obtain ⟨words, more, hwords, hmore, hclass, hrightClass, hunit, -, -, hstop⟩ :=
    canMerge_iff hmerge
  have hvalues : (left.merge right).values = .words (words ++ more) := by
    rw [WriteCommand.merge, hwords, hmore]
  have hsum : (left.merge right).values.length = left.values.length + right.values.length := by
    rw [hvalues, hwords, hmore]
    exact List.length_append
  refine ⟨?_, ?_, ?_, ?_, hsound⟩
  · rw [hsum]
    exact Nat.add_pos_left hleft.positive _
  · rw [WriteRequest.kindMatches, WriteCommand.writeRequest, hvalues]
    exact beq_iff_eq.mpr hclass
  · rw [hsum]
    exact Nat.le_trans hlength (Nat.le_max_left _ _)
  · intro address hstart hbefore
    -- The addresses of the second command follow those of the first one.
    by_cases hfirst : address < left.stop
    · exact hleft.owned address hstart hfirst
    · have hend : address < right.stop := by
        rw [stop, hsum] at hbefore
        rw [stop] at hstop ⊢
        have hsame : (left.merge right).start = left.start := rfl
        rw [hsame] at hbefore
        omega
      obtain ⟨point, hpoint, howns⟩ :=
        hright.owned address (hstop ▸ Nat.le_of_not_lt hfirst) hend
      exact ⟨point, hpoint, howns.unit.trans hunit.symm,
        howns.registerClass.trans (hrightClass.trans hclass.symm), howns.start_le, howns.lt_stop⟩

theorem mergeFrom_serves (hcurrent : current.Serves maxSpan named)
    (hall : ∀ command ∈ commands, command.Serves maxSpan named) :
    ∀ command ∈ mergeFrom maxSpan current commands, command.Serves maxSpan named := by
  induction commands generalizing current with
  | nil =>
      intro command hmem
      rwa [List.mem_singleton.mp hmem]
  | cons next rest ih =>
      obtain ⟨hnext, hrest⟩ := List.forall_mem_cons.mp hall
      rw [mergeFrom]
      split
      · next hmerge => exact ih (hcurrent.merge hnext hmerge) hrest
      · exact List.forall_mem_cons.mpr ⟨hcurrent, ih hnext hrest⟩

theorem mergeAll_serves (hall : ∀ command ∈ commands, command.Serves maxSpan named) :
    ∀ command ∈ mergeAll maxSpan commands, command.Serves maxSpan named := by
  cases commands with
  | nil => exact hall
  | cons first rest =>
      obtain ⟨hfirst, hrest⟩ := List.forall_mem_cons.mp hall
      exact mergeFrom_serves hfirst hrest

end WriteCommand

/-- A register is encoded as words. -/
theorem Codec.encode_word {point : Point} {value : PointValue} {current : Option UInt16}
    {values : WireValues} (hword : point.registerClass.isBit = false)
    (hencode : encode point value current = .ok values) : ∃ words, values = .words words := by
  cases hbits : point.bits with
  | some field =>
      rw [encode_field hword hbits] at hencode
      obtain ⟨word, -, rfl⟩ := exists_of_map_eq_ok hencode
      exact ⟨_, rfl⟩
  | none =>
      rw [encode, hword, hbits] at hencode
      cases hraw : point.rawType with
      | string registers =>
          simp only [hraw] at hencode
          obtain ⟨words, -, hvalues⟩ := exists_of_bind_eq_ok hencode
          exact ⟨_, (Except.ok.inj hvalues).symm⟩
      | bool | uint16 | int16 | uint32 | int32 | float32 | uint64 | int64 | float64 =>
          simp only [hraw] at hencode
          obtain ⟨pattern, -, hvalues⟩ := exists_of_bind_eq_ok hencode
          exact ⟨_, (Except.ok.inj hvalues).symm⟩

namespace PointWrite

variable {points : List Point} {device : DeviceId} {write : PointWrite} {writes : List PointWrite}
variable {command : WriteCommand} {commands : List WriteCommand} {maxSpan : Nat}

theorem toCommand_serves (hvalid : ∀ point ∈ points, point.Valid) (hwrite : write ∈ writes)
    (hcommand : write.toCommand registerCodec points device = .ok command) :
    command.Serves maxSpan (namedPoints points device writes) := by
  obtain ⟨point, hpointValid, hpoint, hunit, hclass, hstart, hstop, hsound, -⟩ :=
    toCommand_sound hvalid hcommand
  obtain ⟨found, values, hfound, -, hwritable, hencode, rfl⟩ := toCommand_eq_ok hcommand
  obtain rfl := Option.some.inj (hfound.symm.trans hpoint)
  have hnamed : found ∈ namedPoints points device writes :=
    List.mem_filterMap.mpr ⟨_, hwrite, hpoint⟩
  have hlength : values.length = found.quantity.toNat := length_encode hpointValid hencode
  have hrange := hpointValid.checks.1
  refine ⟨?_, ?_, ?_, ?_, hsound⟩
  · obtain ⟨range, hrange⟩ := hrange
    obtain ⟨rfl, hpositive, -⟩ := Point.range_eq_ok_iff.mp hrange
    exact hlength ▸ hpositive
  · cases hclass : found.registerClass with
    | coil =>
        obtain ⟨bit, rfl⟩ := encode_bit (by rw [hclass]; rfl) hencode
        simp [WriteRequest.kindMatches, WriteCommand.writeRequest]
    | holdingRegister =>
        obtain ⟨words, rfl⟩ := Codec.encode_word (by rw [hclass]; rfl) hencode
        simp [WriteRequest.kindMatches, WriteCommand.writeRequest]
    | discreteInput | inputRegister => simp [hclass, RegisterClass.isWritable] at hwritable
  · exact hlength ▸ Nat.le_trans (Point.le_widest hnamed) (Nat.le_max_right _ _)
  · intro address hfrom hto
    exact ⟨found, hnamed, rfl, rfl, hfrom, hstop ▸ hto⟩

/-- The commands of a plan write to addresses of the points that the write names. -/
theorem plan_serves (hvalid : ∀ point ∈ points, point.Valid)
    (hplan : planWrite registerCodec points maxSpan device writes = .ok commands) :
    ∀ command ∈ commands, command.Serves maxSpan (namedPoints points device writes) := by
  obtain ⟨named, hnamed, hmerged⟩ := exists_of_bind_eq_ok hplan
  obtain rfl := Except.ok.inj hmerged
  apply WriteCommand.mergeAll_serves
  intro command hmem
  obtain ⟨write, hwrite, hcommand⟩ := exists_write hnamed (List.mem_mergeSort.mp hmem)
  exact toCommand_serves hvalid hwrite hcommand

theorem toCommand_ne_request {codec : ValueCodec} (range : AddressRange) (cause : RequestError) :
    write.toCommand codec points device ≠ .error (.request range cause) := by
  intro hrefused
  rw [toCommand] at hrefused
  cases hpoint : findPoint? points device write.name with
  | none =>
      rw [hpoint] at hrefused
      cases hrefused
  | some point =>
      simp only [hpoint] at hrefused
      split at hrefused
      · cases hrefused
      · split at hrefused
        · cases hrefused
        · split at hrefused
          · cases hrefused
          · cases hrefused

/-- A write that is not planned fails before any request. -/
theorem plan_ne_request {codec : ValueCodec} (range : AddressRange) (cause : RequestError) :
    planWrite codec points maxSpan device writes ≠ .error (.request range cause) := by
  intro hrefused
  have hcommands : writes.mapM (toCommand codec points device) =
      .error (.request range cause) := by
    rw [planWrite] at hrefused
    cases hmapped : writes.mapM (toCommand codec points device) with
    | ok commands =>
        rw [hmapped] at hrefused
        cases hrefused
    | error error =>
        rw [hmapped] at hrefused
        exact hrefused
  clear hrefused
  induction writes with
  | nil => cases hcommands
  | cons write rest ih =>
      rw [List.mapM_cons] at hcommands
      cases hfirst : write.toCommand codec points device with
      | error error =>
          rw [hfirst] at hcommands
          obtain rfl : error = .request range cause := Except.error.inj hcommands
          exact toCommand_ne_request range cause hfirst
      | ok command =>
          cases hrest : rest.mapM (toCommand codec points device) with
          | error error =>
              rw [hfirst, hrest] at hcommands
              obtain rfl : error = .request range cause := Except.error.inj hcommands
              exact ih hrest
          | ok commands =>
              rw [hfirst, hrest] at hcommands
              cases hcommands

end PointWrite

end Fieldbus
