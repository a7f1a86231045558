import Fieldbus.Proofs.Polling.Members
import Fieldbus.Settings.Register

/-!
# Where address ranges come from

A range that is asked for, by its numbers or as that of a point, of a write or of a poll group,
holds an address and lies in the address space.  A range in a document is taken at its word.
-/

namespace Fieldbus

theorem WriteRequest.valid_of_range_eq {request : WriteRequest} {range : AddressRange}
    (hrange : request.range = .ok range) : range.Valid := by
  simp only [WriteRequest.range] at hrange
  split at hrange
  · simp at hrange
  · split at hrange
    · next built hbuilt =>
        obtain rfl := Except.ok.inj hrange
        exact (AddressRange.ofCount_eq_ok_iff.mp hbuilt).2
    · simp at hrange

namespace AddressRange

/-- The ranges that are asked for. -/
inductive Produced : AddressRange → Prop where
  | ofCount {start count : UInt16} {range : AddressRange}
      (hrange : AddressRange.ofCount start count = .ok range) : Produced range
  | ofPoint {point : Point} {range : AddressRange} (hrange : point.range = .ok range) :
      Produced range
  | ofWrite {request : WriteRequest} {range : AddressRange} (hrange : request.range = .ok range) :
      Produced range
  | ofGroup {points : List Point} {maxSpan : UInt16} {group : PollGroup}
      (hgroup : group ∈ buildGroups points maxSpan) : Produced group.range

/-- The ranges that are asked for or read. -/
inductive Obtained (range : AddressRange) : Prop where
  | produced (hproduced : Produced range)
  | read {document : Document} (hdocument : ofDocument? document = some range)

variable {range : AddressRange}

theorem Produced.valid (hproduced : Produced range) : range.Valid := by
  cases hproduced with
  | ofCount hrange => exact (ofCount_eq_ok_iff.mp hrange).2
  | ofPoint hrange => exact (Point.range_eq_ok_iff.mp hrange).2
  | ofWrite hrange => exact WriteRequest.valid_of_range_eq hrange
  | ofGroup hgroup => exact (covers_of_mem_buildGroups hgroup).valid

theorem Valid.produced (hvalid : range.Valid) : Produced range :=
  .ofCount (ofCount_eq_ok_iff.mpr ⟨rfl, hvalid⟩)

end AddressRange

theorem Document.natural?_eq_some_iff {document : Document} {limit value : Nat} :
    document.natural? limit = some value ↔ document = .integer value ∧ value ≤ limit := by
  constructor
  · intro hread
    unfold Document.natural? at hread
    split at hread
    · split at hread
      · next hlimit =>
          obtain rfl := Option.some.inj hread
          exact ⟨rfl, hlimit⟩
      · simp at hread
    · simp at hread
  · rintro ⟨rfl, hlimit⟩
    exact if_pos hlimit

theorem Document.word?_integer (word : UInt16) :
    Document.word? (.integer word.toNat) = some word := by
  have hread : (Document.integer word.toNat).natural? (UInt16.size - 1) = some word.toNat :=
    natural?_eq_some_iff.mpr ⟨rfl, Nat.le_pred_of_lt word.toNat_lt⟩
  rw [word?, hread, Option.map_some, UInt16.ofNat_toNat]

namespace AddressRange

/-- Every range that is written is read again, whether it describes addresses or not. -/
theorem ofDocument?_toDocument (range : AddressRange) :
    ofDocument? range.toDocument = some range := by
  have hslots : range.toDocument.slots? [["start"], ["count"]] =
      some [some (.integer range.start.toNat), some (.integer range.count.toNat)] := rfl
  simp only [ofDocument?, hslots, Document.required?, Document.word?_integer, Option.bind_some,
    Option.bind_eq_bind, Option.pure_def]

/-- The ranges that are asked for are the valid ones, and a document can hold any range. -/
theorem produced_iff_valid (range : AddressRange) :
    (Produced range ↔ range.Valid) ∧ ofDocument? range.toDocument = some range :=
  ⟨⟨Produced.valid, Valid.produced⟩, ofDocument?_toDocument range⟩

/-- A document can hold a range without an address. -/
theorem not_forall_obtained_valid : ¬∀ range, Obtained range → range.Valid := by
  intro hvalid
  have hread : ofDocument? (.record [("start", .integer 0), ("count", .integer 0)]) =
      some ⟨0, 0⟩ := rfl
  have hempty : ¬(⟨0, 0⟩ : AddressRange).Valid := by decide
  exact hempty (hvalid _ (.read hread))

end AddressRange

end Fieldbus
