import Fieldbus.Proofs.Point.Durations
import Mathlib.Data.Rat.Floor
import Mathlib.Tactic.FieldSimp
import Mathlib.Tactic.Linarith
import Mathlib.Tactic.Positivity

/-!
# What the fractions of a duration lose

Every place of a fraction is worth a tenth of the place before it, rounded down.  A second and the
units below it can be divided by ten until a nanosecond is left, so that rounding down at each place
is rounding down once.  A minute and an hour cannot: from the eleventh and the twelfth digit on, a
fraction of them is counted for less than it is.
-/

namespace Fieldbus.DurationText

open Text

/-- The number that digits behind a point denote. -/
def fractionOf (decimals : List (Fin 10)) : ℚ := decimal decimals / 10 ^ decimals.length

namespace Component

/-- The number of a component times its unit. -/
def exact (c : Component) : ℚ := (decimal c.whole + fractionOf c.decimals) * c.unit.length

/-- The same for the number that ends after some digits of its fraction. -/
def exactTo (places : Nat) (c : Component) : ℚ :=
  (decimal c.whole + fractionOf (c.decimals.take places)) * c.unit.length

/-- The digit that `places` digits of the fraction precede. -/
def digitAt (places : Nat) (c : Component) : Nat := c.decimals[places]?.elim 0 Fin.val

/-- What a component is counted for. -/
def kept (c : Component) : Nat :=
  match c.unit with
  | .minute => ⌊c.exactTo 10⌋₊
  | .hour => ⌊c.exactTo 11⌋₊ + 3 * c.digitAt 11
  | _ => ⌊c.exact⌋₊

end Component

variable {place places : Nat} {decimals left right : List (Fin 10)}

theorem fractionOf_nonneg (decimals : List (Fin 10)) : 0 ≤ fractionOf decimals := by
  unfold fractionOf
  positivity

theorem fractionOf_lt_one (decimals : List (Fin 10)) : fractionOf decimals < 1 := by
  rw [fractionOf, div_lt_one (by positivity)]
  exact_mod_cast decimal_lt decimals

theorem fractionOf_append (left right : List (Fin 10)) :
    fractionOf (left ++ right) = fractionOf left + fractionOf right / 10 ^ left.length := by
  simp only [fractionOf, decimal_append, List.length_append, pow_add]
  push_cast
  field_simp

theorem worth_append (left right : List (Fin 10)) :
    worth place (left ++ right) = worth place left + worth (place / 10 ^ left.length) right := by
  induction left generalizing place with
  | nil => simp [worth]
  | cons digit left ih =>
      rw [List.cons_append, worth, worth, ih, List.length_cons, Nat.pow_succ',
        Nat.div_div_eq_div_mul, Nat.add_assoc]

/-- As long as a place can be divided, digits are worth what they denote. -/
theorem worth_eq_fractionOf_mul (hdivides : 10 ^ decimals.length ∣ place) :
    (worth place decimals : ℚ) = fractionOf decimals * place := by
  induction decimals generalizing place with
  | nil => simp [worth, fractionOf, decimal_nil]
  | cons digit rest ih =>
      rw [List.length_cons, Nat.pow_succ'] at hdivides
      obtain ⟨tenth, rfl⟩ := dvd_of_mul_right_dvd hdivides
      have hrest := ih (Nat.dvd_of_mul_dvd_mul_left (by decide) hdivides)
      have hsingle : fractionOf [digit] = digit.val / 10 := by
        simp [fractionOf, decimal_cons, decimal_nil]
      rw [worth, Nat.mul_div_cancel_left _ (by decide), ← List.singleton_append, fractionOf_append,
        hsingle]
      push_cast
      rw [hrest]
      simp only [List.length_singleton, pow_one]
      ring

theorem take_of_drop_ne_nil (hdrop : decimals.drop places ≠ []) :
    (decimals.take places).length = places := by
  rw [List.length_take]
  have hlength := List.length_pos_iff.mpr hdrop
  rw [List.length_drop] at hlength
  omega

theorem fractionOf_take (places : Nat) (decimals : List (Fin 10)) :
    fractionOf decimals =
      fractionOf (decimals.take places) + fractionOf (decimals.drop places) / 10 ^ places := by
  conv_lhs => rw [← List.take_append_drop places decimals, fractionOf_append]
  rcases eq_or_ne (decimals.drop places) [] with hdrop | hdrop
  · rw [hdrop]
    simp [fractionOf, decimal_nil]
  · rw [take_of_drop_ne_nil hdrop]

theorem worth_take (places place : Nat) (decimals : List (Fin 10)) :
    worth place decimals =
      worth place (decimals.take places) + worth (place / 10 ^ places) (decimals.drop places) := by
  conv_lhs => rw [← List.take_append_drop places decimals, worth_append]
  rcases eq_or_ne (decimals.drop places) [] with hdrop | hdrop
  · rw [hdrop]
    rfl
  · rw [take_of_drop_ne_nil hdrop]

namespace Component

variable (c : Component)

theorem exact_eq (places : Nat) :
    c.exact = c.exactTo places +
      fractionOf (c.decimals.drop places) * (c.unit.length / 10 ^ places) := by
  rw [exact, exactTo, fractionOf_take places c.decimals]
  ring

theorem exactTo_le_exact (places : Nat) : c.exactTo places ≤ c.exact := by
  rw [c.exact_eq places, le_add_iff_nonneg_right]
  have hfraction := fractionOf_nonneg (c.decimals.drop places)
  positivity

/-- The digits that are cut off are worth less than one in the last place that is left. -/
theorem exact_lt (places : Nat) : c.exact < c.exactTo places + c.unit.length / 10 ^ places := by
  have hunit : (0 : ℚ) < c.unit.length / 10 ^ places := by
    have hlength : (0 : ℚ) < c.unit.length := by exact_mod_cast c.unit.length_pos
    positivity
  rw [c.exact_eq places]
  have hfraction := mul_lt_mul_of_pos_right (fractionOf_lt_one (c.decimals.drop places)) hunit
  linarith

theorem exact_nonneg : 0 ≤ c.exact := by
  have hfraction := fractionOf_nonneg c.decimals
  rw [exact]
  positivity

theorem exactTo_of_length_le (places : Nat) (hlength : c.decimals.length ≤ places) :
    c.exactTo places = c.exact := by
  rw [exactTo, exact, List.take_of_length_le hlength]

/-- One digit more counts with its place. -/
theorem exactTo_succ (places : Nat) :
    c.exactTo (places + 1) =
      c.exactTo places + c.digitAt places * (c.unit.length / 10 ^ (places + 1)) := by
  rw [exactTo, exactTo, digitAt, List.take_add_one, fractionOf_append]
  cases hdigit : c.decimals[places]? with
  | none => simp [fractionOf, decimal_nil]
  | some digit =>
      have hlength : (c.decimals.take places).length = places := by
        have hlt := (List.getElem?_eq_some_iff.mp hdigit).1
        rw [List.length_take]
        omega
      simp only [hlength, Option.toList_some, Option.elim_some, fractionOf, decimal_cons,
        decimal_nil, List.length_nil, List.length_singleton, pow_succ]
      push_cast
      field_simp
      ring

/-- As long as the unit can be divided, a component counts for what its number says. -/
theorem exactTo_eq_natCast (hdivides : 10 ^ places ∣ c.unit.length) :
    c.exactTo places =
      (decimal c.whole * c.unit.length + worth c.unit.length (c.decimals.take places) : ℕ) := by
  have hlength : 10 ^ (c.decimals.take places).length ∣ c.unit.length :=
    dvd_trans (pow_dvd_pow 10 (List.length_take_le places c.decimals)) hdivides
  rw [exactTo, add_mul, Nat.cast_add, Nat.cast_mul, worth_eq_fractionOf_mul hlength]

theorem cast_floor_exactTo (places : Nat) (hdivides : 10 ^ places ∣ c.unit.length) :
    (⌊c.exactTo places⌋₊ : ℚ) = c.exactTo places := by
  rw [c.exactTo_eq_natCast hdivides, Nat.floor_natCast]

theorem nanoseconds_eq (hdivides : 10 ^ places ∣ c.unit.length) :
    c.nanoseconds = ⌊c.exactTo places⌋₊ +
      worth (c.unit.length / 10 ^ places) (c.decimals.drop places) := by
  rw [c.exactTo_eq_natCast hdivides, Nat.floor_natCast, nanoseconds,
    worth_take places c.unit.length c.decimals, Nat.add_assoc]

/-- Nothing is lost if the unit can be divided down to a nanosecond. -/
theorem nanoseconds_of_power (places : Nat) (hunit : c.unit.length = 10 ^ places) :
    c.nanoseconds = ⌊c.exact⌋₊ := by
  have hdivides : 10 ^ places ∣ c.unit.length := hunit ▸ dvd_rfl
  have hone : c.unit.length / 10 ^ places = 1 := by
    rw [hunit, Nat.div_self (by positivity)]
  have hlower := c.exactTo_le_exact places
  have hupper := c.exact_lt places
  rw [hunit, Nat.cast_pow, Nat.cast_ofNat, div_self (by positivity)] at hupper
  rw [c.exactTo_eq_natCast hdivides] at hlower hupper
  rw [c.nanoseconds_eq hdivides, hone, worth_of_lt (by decide), Nat.add_zero,
    c.exactTo_eq_natCast hdivides, Nat.floor_natCast]
  exact (Nat.floor_eq_on_Ico _ _ ⟨hlower, hupper⟩).symm

theorem nanoseconds_of_minute (hunit : c.unit = .minute) : c.nanoseconds = ⌊c.exactTo 10⌋₊ := by
  have hdivides : 10 ^ 10 ∣ c.unit.length := hunit ▸ ⟨6, rfl⟩
  have hsix : c.unit.length / 10 ^ 10 = 6 := hunit ▸ rfl
  rw [c.nanoseconds_eq hdivides, hsix, worth_of_lt (by decide), Nat.add_zero]

/-- The twelfth digit of a fraction of an hour has a place of 3.6 nanoseconds and counts three. -/
theorem nanoseconds_of_hour (hunit : c.unit = .hour) :
    c.nanoseconds = ⌊c.exactTo 11⌋₊ + 3 * c.digitAt 11 := by
  have hdivides : 10 ^ 11 ∣ c.unit.length := hunit ▸ ⟨36, rfl⟩
  have hplace : c.unit.length / 10 ^ 11 = 36 := hunit ▸ rfl
  rw [c.nanoseconds_eq hdivides, hplace, digitAt, ← List.head?_drop]
  congr 1
  cases c.decimals.drop 11 with
  | nil => rfl
  | cons digit rest =>
      rw [worth, worth_of_lt (by decide), Nat.add_zero, Nat.mul_comm]
      rfl

theorem nanoseconds_eq_kept : c.nanoseconds = c.kept := by
  unfold kept
  cases hunit : c.unit with
  | nanosecond => exact c.nanoseconds_of_power 0 (hunit ▸ rfl)
  | microsecond => exact c.nanoseconds_of_power 3 (hunit ▸ rfl)
  | microsign => exact c.nanoseconds_of_power 3 (hunit ▸ rfl)
  | millisecond => exact c.nanoseconds_of_power 6 (hunit ▸ rfl)
  | second => exact c.nanoseconds_of_power 9 (hunit ▸ rfl)
  | minute => exact c.nanoseconds_of_minute hunit
  | hour => exact c.nanoseconds_of_hour hunit

theorem digitAt_le (places : Nat) : c.digitAt places ≤ 9 := by
  rw [digitAt]
  cases c.decimals[places]? with
  | none => exact Nat.zero_le _
  | some digit => exact Nat.le_of_lt_succ digit.isLt

theorem floor_bounds {value : ℚ} {least loss : Nat} (hlower : (least : ℚ) ≤ value)
    (hupper : value < least + (loss + 1)) : least ≤ ⌊value⌋₊ ∧ ⌊value⌋₊ ≤ least + loss := by
  refine ⟨Nat.le_floor hlower, Nat.le_of_lt_succ ?_⟩
  rw [Nat.floor_lt' (Nat.succ_ne_zero _)]
  push_cast
  linarith

/-- A component is never counted for more than it is, and for less by a few nanoseconds at most. -/
theorem kept_bounds : c.kept ≤ ⌊c.exact⌋₊ ∧ ⌊c.exact⌋₊ ≤ c.kept + 8 := by
  have hshort : c.kept = ⌊c.exact⌋₊ → c.kept ≤ ⌊c.exact⌋₊ ∧ ⌊c.exact⌋₊ ≤ c.kept + 8 := by
    omega
  cases hunit : c.unit with
  | minute =>
      have hwhole := c.cast_floor_exactTo 10 (hunit ▸ ⟨6, rfl⟩)
      have hlower := c.exactTo_le_exact 10
      have hupper := c.exact_lt 10
      simp only [kept, hunit]
      refine floor_bounds (hwhole.trans_le hlower) ?_
      rw [hwhole]
      norm_num [hunit, TimeUnit.length] at hupper ⊢
      linarith
  | hour =>
      -- The twelfth digit counts three of its 3.6 nanoseconds, and all digits behind it together
      -- are worth less than 3.6.
      have hwhole := c.cast_floor_exactTo 11 (hunit ▸ ⟨36, rfl⟩)
      have hlower := c.exactTo_le_exact 12
      have hupper := c.exact_lt 12
      have hdigit : (c.digitAt 11 : ℚ) ≤ 9 := by exact_mod_cast c.digitAt_le 11
      rw [c.exactTo_succ 11] at hlower hupper
      norm_num [hunit, TimeUnit.length] at hlower hupper
      simp only [kept, hunit]
      refine floor_bounds ?_ ?_
      · push_cast
        rw [hwhole]
        linarith
      · push_cast
        rw [hwhole]
        linarith
  | _ => exact hshort (by simp only [kept, hunit])

theorem kept_of_length_le (hlength : c.decimals.length ≤ 10) : c.kept = ⌊c.exact⌋₊ := by
  have hdigit : c.digitAt 11 = 0 := by
    rw [digitAt, List.getElem?_eq_none (by omega), Option.elim_none]
  rw [kept, c.exactTo_of_length_le 10 hlength, c.exactTo_of_length_le 11 (by omega),
    hdigit]
  cases c.unit <;> rfl

end Component

theorem total_eq_sum_kept (components : List Component) :
    total components = (components.map Component.kept).sum :=
  congrArg List.sum (List.map_congr_left fun component _ => component.nanoseconds_eq_kept)

theorem total_le_sum_exact (components : List Component) :
    (total components : ℚ) ≤ (components.map Component.exact).sum := by
  induction components with
  | nil => simp [total]
  | cons component components ih =>
      have hkept : (component.nanoseconds : ℚ) ≤ component.exact := by
        rw [component.nanoseconds_eq_kept]
        refine le_trans (Nat.cast_le.mpr component.kept_bounds.1) (Nat.floor_le ?_)
        exact component.exact_nonneg
      rw [total_cons, List.map_cons, List.sum_cons, Nat.cast_add]
      exact add_le_add hkept ih

/-- A row of components is counted for the sum of what its components are counted for, and is a bad
duration if that is zero.  A component counts for its nanoseconds, rounded down, unless it has more
than ten digits of a minute or an hour; then it may count for a few less. -/
theorem parse_components (components : List Component)
    (hexact : (components.map Component.exact).sum < 2 ^ 63) :
    parse (String.ofList (spell components)) =
      (if (components.map Component.kept).sum = 0 then
        .error (.badDuration (String.ofList (spell components)))
      else .ok (components.map Component.kept).sum) ∧
    ∀ component ∈ components,
      (component.decimals.length ≤ 10 → component.kept = ⌊component.exact⌋₊) ∧
      component.kept ≤ ⌊component.exact⌋₊ ∧ ⌊component.exact⌋₊ ≤ component.kept + 8 := by
  constructor
  · have hlongest : total components ≤ longest := by
      have htotal : total components < 2 ^ 63 := by
        exact_mod_cast (total_le_sum_exact components).trans_lt hexact
      exact Nat.le_of_lt (Nat.lt_trans htotal (by decide))
    rw [← total_eq_sum_kept]
    exact parse_spell hlongest
  · exact fun component _ => ⟨component.kept_of_length_le, component.kept_bounds⟩

/-- An hour and five units in the twelfth place of one, which are 18 nanoseconds. -/
def sampleHour : Component :=
  ⟨lastDigits 1 1, some (lastDigits 12 5), .hour, by decide⟩

theorem exact_sampleHour : sampleHour.exact = 3600000000018 := by
  have hwhole : decimal sampleHour.whole = 1 := decimal_lastDigits 1 1
  have hdecimals : decimal sampleHour.decimals = 5 := decimal_lastDigits 12 5
  have hlength : sampleHour.decimals.length = 12 := length_lastDigits 12 5
  have hunit : sampleHour.unit.length = 3600000000000 := rfl
  rw [Component.exact, fractionOf, hwhole, hdecimals, hlength, hunit]
  norm_num

/-- Of the 18 nanoseconds 15 are counted. -/
theorem parse_components_sampleHour :
    ([sampleHour].map Component.exact).sum < 2 ^ 63 ∧ sampleHour ∈ [sampleHour] ∧
      sampleHour.kept = 3600000000015 ∧ sampleHour.kept ≤ ⌊sampleHour.exact⌋₊ ∧
      parse "1.000000000005h" = .ok 3600000000015 := by
  have hexact : ([sampleHour].map Component.exact).sum < 2 ^ 63 := by
    rw [List.map_singleton, List.sum_singleton, exact_sampleHour]
    norm_num
  have hkept : sampleHour.kept = 3600000000015 := by
    rw [← sampleHour.nanoseconds_eq_kept]
    decide
  have hspell : String.ofList (spell [sampleHour]) = "1.000000000005h" := by decide
  obtain ⟨hparse, hcomponents⟩ := parse_components [sampleHour] hexact
  rw [List.map_singleton, List.sum_singleton, hkept, hspell] at hparse
  exact ⟨hexact, List.mem_cons_self, hkept, (hcomponents _ List.mem_cons_self).2.1, hparse⟩

/-- Five units in the eleventh place of a minute, which are three nanoseconds. -/
def sampleMinute : Component :=
  ⟨lastDigits 1 0, some (lastDigits 11 5), .minute, by decide⟩

theorem exact_sampleMinute : sampleMinute.exact = 3 := by
  have hwhole : decimal sampleMinute.whole = 0 := decimal_lastDigits 1 0
  have hdecimals : decimal sampleMinute.decimals = 5 := decimal_lastDigits 11 5
  have hlength : sampleMinute.decimals.length = 11 := length_lastDigits 11 5
  have hunit : sampleMinute.unit.length = 60000000000 := rfl
  rw [Component.exact, fractionOf, hwhole, hdecimals, hlength, hunit]
  norm_num

/-- Not every component is counted for its nanoseconds: these three are none, and a bad duration. -/
theorem not_forall_parse_floor :
    ¬∀ components : List Component, components ≠ [] →
      (∀ component ∈ components, component.whole ≠ []) →
      (∃ component ∈ components, component.fraction ≠ none) →
      (components.map Component.exact).sum < 2 ^ 63 →
      parse (String.ofList (spell components)) =
        if (components.map fun component => ⌊component.exact⌋₊).sum = 0 then
          .error (.badDuration (String.ofList (spell components)))
        else .ok (components.map fun component => ⌊component.exact⌋₊).sum := by
  intro hfloor
  have hexact : ([sampleMinute].map Component.exact).sum < 2 ^ 63 := by
    rw [List.map_singleton, List.sum_singleton, exact_sampleMinute]
    norm_num
  have hparse := hfloor [sampleMinute] (by simp) (by simp [sampleMinute, lastDigits])
    (by simp [sampleMinute]) hexact
  have hsum : ([sampleMinute].map fun component => ⌊component.exact⌋₊).sum = 3 := by
    rw [List.map_singleton, List.sum_singleton, exact_sampleMinute]
    exact Nat.floor_ofNat 3
  have hspell : String.ofList (spell [sampleMinute]) = "0.00000000005m" := by decide
  have hbad : parse "0.00000000005m" = .error (.badDuration "0.00000000005m") := by
    decide +kernel
  rw [hsum, hspell, hbad] at hparse
  simp at hparse

end Fieldbus.DurationText
