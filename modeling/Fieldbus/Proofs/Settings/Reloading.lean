import Fieldbus.Proofs.Point.Durations
import Fieldbus.Proofs.Register.Ranges
import Fieldbus.Settings.Link
import Mathlib.Data.List.ReduceOption

/-!
# Settings that are written and read again

A duration is written in whole milliseconds, whatever notation it was read in.  Reading the
settings back therefore gives each duration without its fraction of a millisecond, and only a text
can stand for such a fraction.
-/

namespace Fieldbus

open Document (orElse?)

section Durations

variable {document : Document} {slot : Option Document} {duration initial : Nanoseconds}

/-- A duration as far as it is written. -/
def wholeMilliseconds (duration : Nanoseconds) : Nanoseconds :=
  duration / millisecond * millisecond

theorem wholeMilliseconds_eq_self_iff :
    wholeMilliseconds duration = duration ↔ millisecond ∣ duration :=
  (Nat.dvd_iff_div_mul_eq duration millisecond).symm

theorem dvd_wholeMilliseconds (duration : Nanoseconds) :
    millisecond ∣ wholeMilliseconds duration :=
  Nat.dvd_mul_left _ _

theorem wholeMilliseconds_le (duration : Nanoseconds) : wholeMilliseconds duration ≤ duration :=
  Nat.div_mul_le_self _ _

/-- The longest duration that a document can hold. -/
def longestWritten : Nanoseconds := maxMilliseconds * millisecond

theorem Document.byte?_integer (byte : UInt8) :
    Document.byte? (.integer byte.toNat) = some byte := by
  have hread : (Document.integer byte.toNat).natural? (UInt8.size - 1) = some byte.toNat :=
    natural?_eq_some_iff.mpr ⟨rfl, Nat.le_pred_of_lt byte.toNat_lt⟩
  rw [byte?, hread, Option.map_some, UInt8.ofNat_toNat]

theorem Document.text?_eq_some_iff {text : String} :
    document.text? = some text ↔ document = .text text := by
  cases document <;> simp [Document.text?, Document.text]

theorem durationOfText?_eq_some_iff {text : String} :
    durationOfText? text = some duration ↔ DurationText.parse text = .ok duration := by
  rw [durationOfText?]
  cases DurationText.parse text <;> simp

/-- A duration is a number of milliseconds or a text. -/
theorem duration?_eq_some_iff :
    duration? document = some duration ↔
      (∃ count ≤ maxMilliseconds, document = .integer count ∧ duration = count * millisecond) ∨
        ∃ text, document = .text text ∧ DurationText.parse text = .ok duration := by
  rw [duration?]
  cases hnumber : document.natural? maxMilliseconds with
  | some count =>
      obtain ⟨rfl, hcount⟩ := Document.natural?_eq_some_iff.mp hnumber
      simp only [Option.map_some, Option.some_or, Option.some.injEq]
      constructor
      · rintro rfl
        exact .inl ⟨count, hcount, rfl, rfl⟩
      · rintro (⟨other, -, hother, rfl⟩ | ⟨text, htext, -⟩)
        · obtain rfl : count = other := by simpa [Document.integer] using hother
          rfl
        · simp [Document.integer, Document.text] at htext
  | none =>
      have hnone : ¬∃ count ≤ maxMilliseconds, document = .integer count ∧
          duration = count * millisecond := by
        rintro ⟨count, hcount, hdocument, -⟩
        simp [Document.natural?_eq_some_iff.mpr ⟨hdocument, hcount⟩] at hnumber
      simp [hnone, Option.bind_eq_some_iff, Document.text?_eq_some_iff,
        durationOfText?_eq_some_iff]

theorem duration?_le (hread : duration? document = some duration) :
    duration ≤ longestWritten := by
  rcases duration?_eq_some_iff.mp hread with ⟨count, hcount, -, rfl⟩ | ⟨text, -, hparse⟩
  · exact Nat.mul_le_mul_right millisecond hcount
  · obtain ⟨-, -, -, -, hlongest⟩ := DurationText.parse_eq_ok_iff.mp hparse
    exact hlongest.trans (by decide)

/-- What is written of a duration is read again. -/
theorem duration?_millisecondsDocument (hduration : duration ≤ longestWritten) :
    duration? (millisecondsDocument duration) = some (wholeMilliseconds duration) := by
  have hcount : duration / millisecond ≤ maxMilliseconds := Nat.div_le_of_le_mul (by
    rwa [Nat.mul_comm])
  refine duration?_eq_some_iff.mpr (.inl ⟨duration / millisecond, hcount, ?_, rfl⟩)
  rw [millisecondsDocument, Nat.min_eq_left hcount]

theorem le_of_orElse? (hinitial : initial ≤ longestWritten)
    (hread : orElse? initial duration? slot = some duration) : duration ≤ longestWritten := by
  cases slot with
  | none => exact Option.some.inj hread ▸ hinitial
  | some document => exact duration?_le hread

/-- Only a text stands for a fraction of a millisecond. -/
theorem dvd_iff_of_orElse? (hinitial : millisecond ∣ initial)
    (hread : orElse? initial duration? slot = some duration) :
    millisecond ∣ duration ↔ ∀ text stated, slot = some (.text text) →
      DurationText.parse text = .ok stated → millisecond ∣ stated := by
  cases slot with
  | none => simp [← Option.some.inj hread, hinitial]
  | some document =>
      rcases duration?_eq_some_iff.mp hread with ⟨count, -, rfl, rfl⟩ | ⟨text, rfl, hparse⟩
      · simp [Document.integer, Document.text]
      · constructor
        · rintro hwhole other stated hother hstated
          obtain rfl : text = other := by simpa [Document.text] using hother
          obtain rfl := Except.ok.inj (hparse.symm.trans hstated)
          exact hwhole
        · exact fun hwhole => hwhole text duration rfl hparse

end Durations

namespace LinkSettings

variable {document : Document} {settings : LinkSettings}

/-- The settings as far as they are written. -/
def inMilliseconds (settings : LinkSettings) : LinkSettings :=
  { settings with
    timeout := wholeMilliseconds settings.timeout
    minInterval := wholeMilliseconds settings.minInterval
    maxBackoff := wholeMilliseconds settings.maxBackoff }

/-- The durations that a document states; what it leaves out has its default. -/
def statedDurations (document : Document) : List Document :=
  match document.slots? fieldNames with
  | some [timeout, _, minInterval, _, _, _, maxBackoff] =>
    [timeout, minInterval, maxBackoff].reduceOption
  | _ => []

/-- The durations are not too long to be written. -/
structure Writable (settings : LinkSettings) : Prop where
  timeout : settings.timeout ≤ longestWritten
  minInterval : settings.minInterval ≤ longestWritten
  maxBackoff : settings.maxBackoff ≤ longestWritten

theorem inMilliseconds_eq_self_iff :
    settings.inMilliseconds = settings ↔ millisecond ∣ settings.timeout ∧
      millisecond ∣ settings.minInterval ∧ millisecond ∣ settings.maxBackoff := by
  cases settings
  simp only [← wholeMilliseconds_eq_self_iff, inMilliseconds, mk.injEq, true_and]

theorem inMilliseconds_inMilliseconds (settings : LinkSettings) :
    settings.inMilliseconds.inMilliseconds = settings.inMilliseconds :=
  inMilliseconds_eq_self_iff.mpr
    ⟨dvd_wholeMilliseconds _, dvd_wholeMilliseconds _, dvd_wholeMilliseconds _⟩

theorem Writable.inMilliseconds (hwritable : settings.Writable) :
    settings.inMilliseconds.Writable where
  timeout := (wholeMilliseconds_le _).trans hwritable.timeout
  minInterval := (wholeMilliseconds_le _).trans hwritable.minInterval
  maxBackoff := (wholeMilliseconds_le _).trans hwritable.maxBackoff

/-- Settings that are written are read again, as far as they are written. -/
theorem ofDocument?_toDocument (hwritable : settings.Writable) :
    ofDocument? settings.toDocument = some settings.inMilliseconds := by
  have hslots : settings.toDocument.slots? fieldNames = some [
      some (millisecondsDocument settings.timeout), some (.integer settings.retry.toNat),
      some (millisecondsDocument settings.minInterval),
      some (.integer settings.maxBatchSpan.toNat), some (.integer settings.maxWriteSpan.toNat),
      some (.bool settings.keepAlive), some (millisecondsDocument settings.maxBackoff)] := rfl
  simp only [ofDocument?, hslots, orElse?, Document.byte?_integer, Document.word?_integer,
    duration?_millisecondsDocument hwritable.timeout,
    duration?_millisecondsDocument hwritable.minInterval,
    duration?_millisecondsDocument hwritable.maxBackoff, Document.bool?, Option.bind_some,
    Option.bind_eq_bind, Option.pure_def]
  rfl

/-- Settings are read from the fields that a document states. -/
theorem exists_slots (hread : ofDocument? document = some settings) :
    ∃ timeout retry minInterval maxBatchSpan maxWriteSpan keepAlive maxBackoff,
      document.slots? fieldNames =
          some [timeout, retry, minInterval, maxBatchSpan, maxWriteSpan, keepAlive, maxBackoff] ∧
        orElse? ({} : LinkSettings).timeout duration? timeout = some settings.timeout ∧
        orElse? ({} : LinkSettings).minInterval duration? minInterval =
          some settings.minInterval ∧
        orElse? ({} : LinkSettings).maxBackoff duration? maxBackoff = some settings.maxBackoff := by
  simp only [ofDocument?, Option.bind_eq_bind, Option.bind_eq_some_iff] at hread
  obtain ⟨slots, hslots, hread⟩ := hread
  split at hread
  · simp only [Option.bind_eq_some_iff, Option.pure_def, Option.some.injEq] at hread
    obtain ⟨timeout, htimeout, retry, -, minInterval, hinterval, maxBatchSpan, -, maxWriteSpan, -,
      keepAlive, -, maxBackoff, hbackoff, rfl⟩ := hread
    exact ⟨_, _, _, _, _, _, _, hslots, htimeout, hinterval, hbackoff⟩
  · simp at hread

/-- Settings that were read can be written. -/
theorem writable_of_ofDocument? (hread : ofDocument? document = some settings) :
    settings.Writable := by
  obtain ⟨timeout, -, minInterval, -, -, -, maxBackoff, -, htimeout, hinterval, hbackoff⟩ :=
    exists_slots hread
  exact ⟨le_of_orElse? (by decide) htimeout, le_of_orElse? (by decide) hinterval,
    le_of_orElse? (by decide) hbackoff⟩

/-- The settings are written without a loss if no text states a fraction of a millisecond. -/
theorem inMilliseconds_eq_self_iff_stated (hread : ofDocument? document = some settings) :
    settings.inMilliseconds = settings ↔ ∀ text stated,
      .text text ∈ statedDurations document → DurationText.parse text = .ok stated →
        millisecond ∣ stated := by
  obtain ⟨timeout, _, minInterval, _, _, _, maxBackoff, hslots, htimeout, hinterval, hbackoff⟩ :=
    exists_slots hread
  have hstated : statedDurations document = [timeout, minInterval, maxBackoff].reduceOption := by
    rw [statedDurations, hslots]
  rw [inMilliseconds_eq_self_iff, dvd_iff_of_orElse? (by decide) htimeout,
    dvd_iff_of_orElse? (by decide) hinterval, dvd_iff_of_orElse? (by decide) hbackoff, hstated]
  simp only [List.reduceOption_mem_iff, List.mem_cons, List.not_mem_nil, or_false, or_imp,
    forall_and, eq_comm (b := timeout), eq_comm (b := minInterval), eq_comm (b := maxBackoff)]

/-- What becomes of settings that were read from a document when they are written and read again. -/
structure Reloads (document : Document) (settings : LinkSettings) : Prop where
  /-- They come back with every duration in whole milliseconds, and with all else as it was. -/
  reload : ofDocument? settings.toDocument = some settings.inMilliseconds
  /-- These are the same settings unless a text states a fraction of a millisecond. -/
  same_iff : ofDocument? settings.toDocument = some settings ↔ ∀ text stated,
    .text text ∈ statedDurations document → DurationText.parse text = .ok stated →
      millisecond ∣ stated
  /-- Whoever writes and reads them once more gets the same. -/
  again : ofDocument? settings.inMilliseconds.toDocument = some settings.inMilliseconds

theorem reloads_of_ofDocument? (hread : ofDocument? document = some settings) :
    Reloads document settings := by
  have hwritable := writable_of_ofDocument? hread
  have hreload := ofDocument?_toDocument hwritable
  refine ⟨hreload, ?_, ?_⟩
  · rw [hreload, Option.some.injEq]
    exact inMilliseconds_eq_self_iff_stated hread
  · rw [ofDocument?_toDocument hwritable.inMilliseconds, inMilliseconds_inMilliseconds]

/-- A number, a text without and a text with a fraction of a millisecond. -/
def sampleDocument : Document :=
  .record [("timeout", .text "1m30s"), ("minInterval", .integer 18446744073709551615),
    ("maxBackoff", .text "1.5005s"), ("retry", .integer 0)]

def sampleSettings : LinkSettings :=
  { timeout := 90 * second, retry := 0, minInterval := longestWritten
    maxBackoff := 1500500 * microsecond }

/-- The fraction is lost. -/
theorem sampleSettings_reloads :
    ofDocument? sampleDocument = some sampleSettings ∧ Reloads sampleDocument sampleSettings := by
  have hread : ofDocument? sampleDocument = some sampleSettings := by decide +kernel
  exact ⟨hread, reloads_of_ofDocument? hread⟩

/-- An interval of half a millisecond is read, and it is written as none at all. -/
theorem not_forall_reload_eq :
    ¬∀ document settings, ofDocument? document = some settings →
      ofDocument? settings.toDocument = some settings := by
  intro hsame
  have hread : ofDocument? (.record [("minInterval", .text "500us")]) =
      some { minInterval := 500 * microsecond } := by decide +kernel
  have hreload := (hsame _ _ hread).symm.trans
    (ofDocument?_toDocument (writable_of_ofDocument? hread))
  exact absurd hreload (by decide)

end LinkSettings

end Fieldbus
