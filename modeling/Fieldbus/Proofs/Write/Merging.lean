import Fieldbus.Proofs.Write.Outcome
import Fieldbus.Proofs.Write.Requests
import Mathlib.Data.Prod.Lex

/-!
# What merging keeps

A plan is the sorted points cut into parts, one part for each command.  The rules for a part are
stated on its points alone, and the cut is as coarse as these rules allow: no command could also
carry the points of the next one.
-/

namespace Fieldbus

/-- The values one after the other, whatever their kind. -/
def WireValues.cells : WireValues → List (Bool ⊕ UInt16)
  | bits values => values.map .inl
  | words values => values.map .inr

@[simp] theorem WireValues.length_cells (values : WireValues) :
    values.cells.length = values.length := by
  cases values <;> simp [cells, length]

/-- The place of a point on the link: its unit, then its class, then its address. -/
def Point.place (point : Point) : Nat ×ₗ Nat ×ₗ Nat :=
  toLex (point.unit.value.toNat, toLex (point.registerClass.rank, point.address.toNat))

/-- A point of a write with its new value and what it is encoded to. -/
structure EncodedPoint where
  point : Point
  value : PointValue
  values : WireValues
  deriving DecidableEq, Repr

namespace EncodedPoint

/-- The point that a write names can be written, and the codec has these values for it. -/
structure Encodes (codec : ValueCodec) (points : List Point) (device : DeviceId)
    (write : PointWrite) (entry : EncodedPoint) : Prop where
  point : findPoint? points device write.name = some entry.point
  value : entry.value = write.value
  access : entry.point.access.isWritable = true
  registerClass : entry.point.registerClass.isWritable = true
  values : codec.encode entry.point write.value (entry.point.bits.map fun _ => 0) =
    .ok entry.values

/-- The command of the point alone. -/
def command (entry : EncodedPoint) : WriteCommand :=
  ⟨entry.point.unit, entry.point.registerClass, entry.point.address, entry.values,
    [entry.point.name], entry.point.bits.map fun _ => (entry.point, entry.value)⟩

/-- The point is made of whole holding registers. -/
structure IsRegister (entry : EncodedPoint) : Prop where
  registerClass : entry.point.registerClass = .holdingRegister
  bits : entry.point.bits = none
  words : ∃ words, entry.values = .words words

/-- The same points in the order of their places, and those of one place in the order that they
had. -/
structure StablySorted (sorted entries : List EncodedPoint) : Prop where
  perm : sorted.Perm entries
  ordered : sorted.Pairwise fun left right => left.point.place ≤ right.point.place
  stable : ∀ place, (sorted.filter fun entry => entry.point.place = place) =
    entries.filter fun entry => entry.point.place = place

end EncodedPoint

/-- The rules for one command that carries some points of a write. -/
structure WriteCommand.Carries (maxSpan : Nat) (command : WriteCommand)
    (part : List EncodedPoint) : Prop where
  nonempty : part ≠ []
  points : command.points = part.map (·.point.name)
  cells : command.values.cells = part.flatMap (·.values.cells)
  unit : ∀ entry ∈ part, entry.point.unit = command.unit
  registerClass : ∀ entry ∈ part, entry.point.registerClass = command.registerClass
  /-- The values of every point come to its own addresses. -/
  placed : ∀ earlier entry later, part = earlier ++ entry :: later →
    entry.point.address.toNat =
      command.start.toNat + (earlier.flatMap (·.values.cells)).length
  single : ∀ entry, part = [entry] →
    command.values = entry.values ∧ command.field = entry.command.field
  several : 1 < part.length → (∀ entry ∈ part, entry.IsRegister) ∧
    command.field = none ∧ (∃ words, command.values = .words words) ∧
      command.values.length ≤ maxSpan
  /-- A bit field or a coil has a command of its own. -/
  alone : ∀ entry ∈ part, entry.point.bits ≠ none ∨ entry.point.registerClass = .coil →
    part = [entry]

namespace EncodedPoint

variable {codec : ValueCodec} {points : List Point} {device : DeviceId}
variable {writes : List PointWrite} {commands : List WriteCommand}

/-- Every named point is encoded, in the order of the names. -/
theorem exists_encoded (hcommands : writes.mapM (PointWrite.toCommand codec points device) =
      .ok commands) :
    ∃ encoded, List.Forall₂ (Encodes codec points device) writes encoded ∧
      commands = encoded.map command := by
  induction writes generalizing commands with
  | nil =>
      obtain rfl := Except.ok.inj (show Except.ok [] = Except.ok commands from hcommands)
      exact ⟨[], .nil, rfl⟩
  | cons write rest ih =>
      obtain ⟨first, more, hfirst, hmore, rfl⟩ := PointWrite.mapM_cons_eq_ok hcommands
      obtain ⟨point, values, hpoint, haccess, hwritable, hencode, rfl⟩ :=
        PointWrite.toCommand_eq_ok hfirst
      obtain ⟨encoded, hencoded, rfl⟩ := ih hmore
      exact ⟨⟨point, write.value, values⟩ :: encoded,
        .cons ⟨hpoint, rfl, haccess, hwritable, hencode⟩ hencoded, rfl⟩

/-- Commands of single points are sorted by the places of the points. -/
theorem place_le_iff (left right : EncodedPoint) :
    left.point.place ≤ right.point.place ↔ left.command.key ≤ right.command.key := by
  have hleft : left.point.address.toNat < AddressRange.spaceSize := left.point.address.toNat_lt
  have hright : right.point.address.toNat < AddressRange.spaceSize := right.point.address.toNat_lt
  have hrank : ∀ cls : RegisterClass, cls.rank < 4 := by
    intro cls
    cases cls <;> decide
  have hleftRank := hrank left.point.registerClass
  have hrightRank := hrank right.point.registerClass
  simp only [Point.place, Prod.Lex.toLex_le_toLex, WriteCommand.key, command]
  rw [AddressRange.spaceSize, UInt16.size] at *
  omega

theorem place_eq_iff (left right : EncodedPoint) :
    left.point.place = right.point.place ↔ left.command.key = right.command.key := by
  rw [le_antisymm_iff, place_le_iff, place_le_iff, ← Nat.le_antisymm_iff]

/-- The order in which a plan sorts its points. -/
def sort (entries : List EncodedPoint) : List EncodedPoint :=
  entries.mergeSort fun left right => left.command.key ≤ right.command.key

theorem map_sort (entries : List EncodedPoint) :
    (sort entries).map command = (entries.map command).mergeSort WriteCommand.precedes := by
  rw [WriteCommand.precedes_eq]
  exact List.map_mergeSort fun _ _ _ _ => rfl

theorem stablySorted_sort (entries : List EncodedPoint) : StablySorted (sort entries) entries := by
  constructor
  · exact List.mergeSort_perm _ _
  · have hpairwise : (sort entries).Pairwise fun left right =>
        decide (left.command.key ≤ right.command.key) = true := by
      apply List.pairwise_mergeSort
      · intro first second third hfirst hsecond
        simp only [decide_eq_true_eq] at hfirst hsecond ⊢
        exact Nat.le_trans hfirst hsecond
      · intro first second
        simp only [Bool.or_eq_true, decide_eq_true_eq]
        exact Nat.le_total _ _
    refine hpairwise.imp fun {left right} hle => ?_
    exact (place_le_iff left right).mpr (of_decide_eq_true hle)
  · intro place
    by_cases hnone : ∃ entry ∈ entries, entry.point.place = place
    · obtain ⟨found, -, rfl⟩ := hnone
      simp only [place_eq_iff]
      exact filter_mergeSort (fun entry : EncodedPoint => entry.command.key) entries _
    · have hnot : ∀ entry ∈ entries, ¬entry.point.place = place :=
        fun entry hmem heq => hnone ⟨entry, hmem, heq⟩
      rw [List.filter_eq_nil_iff.mpr fun entry hmem => ?_,
        List.filter_eq_nil_iff.mpr fun entry hmem => by simpa using hnot entry hmem]
      simpa using hnot entry (List.mem_mergeSort.mp hmem)

end EncodedPoint

namespace WriteCommand

variable {maxSpan : Nat} {current joined : WriteCommand} {entry : EncodedPoint}
variable {part more : List EncodedPoint}

theorem length_eq_of_carries (hcarries : current.Carries maxSpan part) :
    current.values.length = (part.flatMap (·.values.cells)).length := by
  rw [← hcarries.cells, WireValues.length_cells]

/-- The first point is at the start of its command. -/
theorem Carries.start_eq (hcarries : current.Carries maxSpan (entry :: more)) :
    current.start = entry.point.address := by
  have hplaced := hcarries.placed [] entry more rfl
  rw [List.flatMap_nil, List.length_nil, Nat.add_zero] at hplaced
  exact (UInt16.toNat_inj.mp hplaced).symm

theorem carries_single (maxSpan : Nat) (entry : EncodedPoint) :
    entry.command.Carries maxSpan [entry] := by
  refine ⟨by simp, rfl, by simp [EncodedPoint.command], ?_, ?_, ?_, ?_, by simp, ?_⟩
  · intro other hother
    rw [List.mem_singleton.mp hother]
    rfl
  · intro other hother
    rw [List.mem_singleton.mp hother]
    rfl
  · intro earlier other later hpart
    obtain ⟨rfl, rfl, rfl⟩ : earlier = [] ∧ other = entry ∧ later = [] := by
      cases earlier with
      | nil => simpa [eq_comm] using hpart
      | cons first rest => simp at hpart
    rfl
  · intro other hother
    rw [List.singleton_inj.mp hother]
    exact ⟨rfl, rfl⟩
  · intro other hother _
    rw [List.mem_singleton.mp hother]

/-- A command can grow exactly when all its points are made of whole registers. -/
theorem Carries.isRegister_iff (hcarries : current.Carries maxSpan part) :
    (∀ entry ∈ part, entry.IsRegister) ↔ current.registerClass = .holdingRegister ∧
      current.field = none ∧ ∃ words, current.values = .words words := by
  by_cases hmany : 1 < part.length
  · obtain ⟨hregisters, hfield, hwords, -⟩ := hcarries.several hmany
    obtain ⟨first, rest, rfl⟩ := List.exists_cons_of_ne_nil hcarries.nonempty
    have hclass := hcarries.registerClass first List.mem_cons_self
    rw [(hregisters first List.mem_cons_self).registerClass] at hclass
    exact ⟨fun _ => ⟨hclass.symm, hfield, hwords⟩, fun _ => hregisters⟩
  · obtain ⟨first, rest, rfl⟩ := List.exists_cons_of_ne_nil hcarries.nonempty
    obtain rfl : rest = [] := by simpa using hmany
    obtain ⟨hvalues, hfield⟩ := hcarries.single first rfl
    have hclass := hcarries.registerClass first List.mem_cons_self
    rw [hvalues, hfield, ← hclass, List.forall_mem_singleton]
    constructor
    · intro hregister
      exact ⟨hregister.registerClass, by simp [EncodedPoint.command, hregister.bits],
        hregister.words⟩
    · rintro ⟨hholding, hnone, hwords⟩
      exact ⟨hholding, by simpa [EncodedPoint.command] using hnone, hwords⟩

/-- A merged command carries the points of both commands. -/
theorem Carries.merge (hcarries : current.Carries maxSpan part)
    (hmerge : current.canMerge maxSpan entry.command = true) :
    (current.merge entry.command).Carries maxSpan (part ++ [entry]) := by
  have hlength := length_le_of_canMerge hmerge
  obtain ⟨words, added, hwords, hadded, hclass, hentryClass, hunit, hfield, hnone, hstop⟩ :=
    canMerge_iff hmerge
  have hvalues : (current.merge entry.command).values = .words (words ++ added) := by
    rw [WriteCommand.merge, hwords, hadded]
  have hregister : entry.IsRegister :=
    ⟨hentryClass, by simpa [EncodedPoint.command] using hnone, added, hadded⟩
  have hregisters := hcarries.isRegister_iff.mpr ⟨hclass, hfield, words, hwords⟩
  have hall : ∀ other ∈ part ++ [entry], other.IsRegister := by
    intro other hother
    rcases List.mem_append.mp hother with hmem | hmem
    · exact hregisters other hmem
    · rwa [List.mem_singleton.mp hmem]
  refine ⟨by simp, ?_, ?_, ?_, ?_, ?_, ?_, fun _ => ⟨hall, hfield, ⟨_, hvalues⟩, ?_⟩, ?_⟩
  · rw [List.map_append, ← hcarries.points]
    rfl
  · rw [List.flatMap_append, ← hcarries.cells, hvalues, hwords, List.flatMap_singleton,
      show entry.values = .words added from hadded]
    exact List.map_append
  · intro other hother
    rcases List.mem_append.mp hother with hmem | hmem
    · exact hcarries.unit other hmem
    · rw [List.mem_singleton.mp hmem]
      exact hunit.symm
  · intro other hother
    rcases List.mem_append.mp hother with hmem | hmem
    · exact hcarries.registerClass other hmem
    · rw [List.mem_singleton.mp hmem]
      exact hentryClass.trans hclass.symm
  · intro earlier other later hpart
    rcases List.eq_nil_or_concat later with rfl | ⟨later, last, rfl⟩
    · obtain ⟨rfl, hother⟩ := List.append_inj' hpart rfl
      rw [← List.singleton_inj.mp hother, ← length_eq_of_carries hcarries]
      exact hstop.symm
    · rw [List.concat_eq_append, ← List.cons_append, ← List.append_assoc] at hpart
      exact hcarries.placed earlier other later (List.append_inj_left' hpart rfl)
  · intro other hother
    have htwo := congrArg List.length hother
    have hpositive := List.length_pos_of_ne_nil hcarries.nonempty
    simp only [List.length_append, List.length_singleton] at htwo
    omega
  · rw [hwords, show entry.command.values = .words added from hadded] at hlength
    rw [hvalues, WireValues.length, List.length_append]
    exact hlength
  · rintro other hother (hbits | hcoil)
    · exact (hbits (hall other hother).bits).elim
    · rw [(hall other hother).registerClass] at hcoil
      cases hcoil

/-- What is not merged breaks a rule, and still does when more points follow. -/
theorem Carries.canMerge_of_append (hcarries : current.Carries maxSpan part)
    (hjoined : joined.Carries maxSpan (part ++ entry :: more)) :
    current.canMerge maxSpan entry.command = true := by
  obtain ⟨first, rest, rfl⟩ := List.exists_cons_of_ne_nil hcarries.nonempty
  have hmany : 1 < (first :: rest ++ entry :: more).length := by
    simp only [List.length_append, List.length_cons]
    omega
  obtain ⟨hregisters, -, -, hspan⟩ := hjoined.several hmany
  obtain ⟨hclass, hfield, words, hwords⟩ := hcarries.isRegister_iff.mp
    fun other hother => hregisters other (List.mem_append_left _ hother)
  have hentry := hregisters entry (List.mem_append_right _ List.mem_cons_self)
  obtain ⟨added, hadded⟩ := hentry.words
  have hunit : current.unit = entry.point.unit := by
    rw [← hcarries.unit first List.mem_cons_self,
      hjoined.unit first (List.mem_append_left _ List.mem_cons_self),
      hjoined.unit entry (List.mem_append_right _ List.mem_cons_self)]
  have hstart : joined.start = current.start := hjoined.start_eq.trans hcarries.start_eq.symm
  have hlength : current.values.length = words.length := by rw [hwords, WireValues.length]
  have hstop : current.stop = entry.point.address.toNat := by
    rw [hjoined.placed (first :: rest) entry more rfl, hstart, stop,
      length_eq_of_carries hcarries]
  have hfits : words.length + added.length ≤ maxSpan := by
    rw [length_eq_of_carries hjoined, List.flatMap_append, List.length_append,
      ← length_eq_of_carries hcarries, hlength, List.flatMap_cons, List.length_append, hadded,
      WireValues.length_cells, WireValues.length] at hspan
    omega
  rw [canMerge, hwords, show entry.command.values = .words added from hadded]
  simp [hclass, hfield, hunit, hstop, hfits, EncodedPoint.command, hentry.registerClass,
    hentry.bits]

/-- Merging cuts the points into parts that obey the rules and cannot be joined.  The invariant is
about the command that still grows: whatever is added to its part, the part before it stays apart
from it. -/
theorem exists_mergeFrom_carries (hcarries : current.Carries maxSpan part)
    (entries : List EncodedPoint) :
    ∃ added parts,
      List.Forall₂ (Carries maxSpan) (mergeFrom maxSpan current (entries.map (·.command)))
          ((part ++ added) :: parts) ∧
        part ++ entries = ((part ++ added) :: parts).flatten ∧
          ((part ++ added) :: parts).IsChain
            fun left right => ¬∃ joined, Carries maxSpan joined (left ++ right) := by
  induction entries generalizing current part with
  | nil =>
      refine ⟨[], [], ?_, by simp, .singleton _⟩
      rw [List.append_nil]
      exact .cons hcarries .nil
  | cons entry rest ih =>
      rw [List.map_cons, mergeFrom]
      split
      · next hmerge =>
          obtain ⟨added, parts, hall, hflatten, hchain⟩ := ih (hcarries.merge hmerge)
          refine ⟨entry :: added, parts, ?_, ?_, ?_⟩
          · simpa using hall
          · simpa using hflatten
          · simpa using hchain
      · next hapart =>
          obtain ⟨added, parts, hall, hflatten, hchain⟩ := ih (carries_single maxSpan entry)
          refine ⟨[], (entry :: added) :: parts, ?_, ?_, ?_⟩
          · rw [List.append_nil]
            exact .cons hcarries hall
          · rw [List.append_nil, List.flatten_cons]
            exact congrArg (part ++ ·) hflatten
          · rw [List.append_nil, List.isChain_cons_cons]
            refine ⟨?_, hchain⟩
            rintro ⟨joined, hjoined⟩
            exact hapart (hcarries.canMerge_of_append hjoined)

theorem exists_mergeAll_carries (maxSpan : Nat) (entries : List EncodedPoint) :
    ∃ parts, List.Forall₂ (Carries maxSpan) (mergeAll maxSpan (entries.map (·.command))) parts ∧
      entries = parts.flatten ∧
        parts.IsChain fun left right => ¬∃ joined, Carries maxSpan joined (left ++ right) := by
  cases entries with
  | nil => exact ⟨[], .nil, rfl, .nil⟩
  | cons entry rest =>
      obtain ⟨added, parts, hall, hflatten, hchain⟩ :=
        exists_mergeFrom_carries (carries_single maxSpan entry) rest
      exact ⟨_, hall, hflatten, hchain⟩

theorem flatten_of_carries {commands : List WriteCommand} {parts : List (List EncodedPoint)}
    (hall : List.Forall₂ (Carries maxSpan) commands parts) :
    commands.flatMap (·.points) = parts.flatten.map (·.point.name) ∧
      commands.flatMap (·.values.cells) = parts.flatten.flatMap (·.values.cells) := by
  induction hall with
  | nil => exact ⟨rfl, rfl⟩
  | cons hcarries hrest ih =>
      simp only [List.flatMap_cons, List.flatten_cons, List.map_append, List.flatMap_append,
        hcarries.points, hcarries.cells, ih, and_self]

end WriteCommand

variable {codec : ValueCodec} {points : List Point} {maxSpan : Nat} {device : DeviceId}
variable {writes : List PointWrite} {commands : List WriteCommand}

/-- A plan carries exactly the encoded points in the order of their places.  Every command obeys the
rules, and none could carry the points of the next one as well. -/
theorem plan_carries (hplan : planWrite codec points maxSpan device writes = .ok commands) :
    ∃ encoded parts,
      List.Forall₂ (EncodedPoint.Encodes codec points device) writes encoded ∧
        EncodedPoint.StablySorted parts.flatten encoded ∧
          commands.flatMap (·.points) = parts.flatten.map (·.point.name) ∧
            commands.flatMap (·.values.cells) = parts.flatten.flatMap (·.values.cells) ∧
              List.Forall₂ (WriteCommand.Carries maxSpan) commands parts ∧
                parts.IsChain fun left right =>
                  ¬∃ joined, WriteCommand.Carries maxSpan joined (left ++ right) := by
  obtain ⟨named, hnamed, hmerged⟩ := exists_of_bind_eq_ok hplan
  obtain rfl := Except.ok.inj hmerged
  obtain ⟨encoded, hencoded, rfl⟩ := EncodedPoint.exists_encoded hnamed
  obtain ⟨parts, hall, hflatten, hchain⟩ :=
    WriteCommand.exists_mergeAll_carries maxSpan (EncodedPoint.sort encoded)
  rw [EncodedPoint.map_sort] at hall
  obtain ⟨hnames, hcells⟩ := WriteCommand.flatten_of_carries hall
  have hsorted := EncodedPoint.stablySorted_sort encoded
  rw [hflatten] at hsorted
  exact ⟨encoded, parts, hencoded, hsorted, hnames, hcells, hall, hchain⟩

/-- Three registers are written by two commands and a bit field by one of its own. -/
theorem plan_carries_sample : ∃ encoded parts,
    List.Forall₂ (EncodedPoint.Encodes Codec.registerCodec Connection.sampleRegisters.points
        ⟨"plant"⟩) PointWrite.sample encoded ∧
      EncodedPoint.StablySorted parts.flatten encoded ∧
        WriteCommand.sample.flatMap (·.points) = parts.flatten.map (·.point.name) ∧
          WriteCommand.sample.flatMap (·.values.cells) =
              parts.flatten.flatMap (·.values.cells) ∧
            List.Forall₂ (WriteCommand.Carries 32) WriteCommand.sample parts ∧
              parts.IsChain fun left right =>
                ¬∃ joined, WriteCommand.Carries 32 joined (left ++ right) :=
  plan_carries Connection.plan_sample

end Fieldbus
