import Fieldbus.Point.DurationText
import Fieldbus.Proofs.Text.Digits
import Mathlib.Data.List.TakeWhile

/-!
# Components of a duration

A component is a decimal number with a unit.  Reading one checks that the number before the point
and its product with the unit fit the accumulator, and counts the fraction digit by digit, which is
the only thing that can leave the accumulator.
-/

namespace Fieldbus.DurationText

open Text

inductive TimeUnit where
  | nanosecond
  | microsecond
  /-- The microsecond with its sign. -/
  | microsign
  | millisecond
  | second
  | minute
  | hour
  deriving DecidableEq, Repr

namespace TimeUnit

def spelling : TimeUnit → List Char
  | nanosecond => ['n', 's']
  | microsecond => ['u', 's']
  | microsign => ['µ', 's']
  | millisecond => ['m', 's']
  | second => ['s']
  | minute => ['m']
  | hour => ['h']

def length : TimeUnit → Nanoseconds
  | nanosecond => 1
  | microsecond | microsign => 10 ^ 3
  | millisecond => 10 ^ 6
  | second => 10 ^ 9
  | minute => 60 * 10 ^ 9
  | hour => 3600 * 10 ^ 9

end TimeUnit

/-- A decimal number with its unit. -/
structure Component where
  whole : List (Fin 10)
  /-- The digits behind the point, if there is a point. -/
  fraction : Option (List (Fin 10))
  unit : TimeUnit
  nonempty : whole ++ fraction.getD [] ≠ []

/-- What the digits of a fraction are worth when one is worth `place`: each digit has a tenth of the
place before it, rounded down. -/
def worth (place : Nat) : List (Fin 10) → Nat
  | [] => 0
  | digit :: rest => digit.val * (place / 10) + worth (place / 10) rest

namespace Component

def decimals (c : Component) : List (Fin 10) := c.fraction.getD []

def numeral (c : Component) : List Char :=
  digitText c.whole ++ c.fraction.elim [] fun decimals => '.' :: digitText decimals

def text (c : Component) : List Char := c.numeral ++ c.unit.spelling

def nanoseconds (c : Component) : Nat :=
  decimal c.whole * c.unit.length + worth c.unit.length c.decimals

end Component

variable {before place value : Nat} {text number spelling rest : List Char} {unit : TimeUnit}
  {digits decimals : List (Fin 10)} {c : Char}

theorem isNumberChar_of_mem_digitText (hmem : c ∈ digitText digits) : isNumberChar c = true := by
  obtain ⟨digit, rfl⟩ := mem_digitText hmem
  rw [isNumberChar, isDigit_digitChar, Bool.true_or]

theorem point_notMem_digitText (digits : List (Fin 10)) : '.' ∉ digitText digits := by
  intro hmem
  obtain ⟨digit, hpoint⟩ := mem_digitText hmem
  revert digit
  decide

theorem not_isNumberChar_of_mem_spelling (hmem : c ∈ unit.spelling) : isNumberChar c = false := by
  have hnone : unit.spelling.any isNumberChar = false := by cases unit <;> rfl
  exact Bool.eq_false_of_not_eq_true (List.any_eq_false.mp hnone c hmem)

theorem TimeUnit.spelling_ne_nil (unit : TimeUnit) : unit.spelling ≠ [] := by
  cases unit <;> simp [spelling]

theorem TimeUnit.length_pos (unit : TimeUnit) : 0 < unit.length := by
  cases unit <;> decide

theorem unitNanoseconds?_eq_some_iff :
    unitNanoseconds? spelling = some value ↔
      ∃ unit : TimeUnit, spelling = unit.spelling ∧ value = unit.length := by
  constructor
  · intro hunit
    unfold unitNanoseconds? at hunit
    split at hunit
    · exact ⟨.nanosecond, rfl, (Option.some.inj hunit).symm⟩
    · exact ⟨.microsecond, rfl, (Option.some.inj hunit).symm⟩
    · exact ⟨.microsign, rfl, (Option.some.inj hunit).symm⟩
    · exact ⟨.millisecond, rfl, (Option.some.inj hunit).symm⟩
    · exact ⟨.second, rfl, (Option.some.inj hunit).symm⟩
    · exact ⟨.minute, rfl, (Option.some.inj hunit).symm⟩
    · exact ⟨.hour, rfl, (Option.some.inj hunit).symm⟩
    · simp at hunit
  · rintro ⟨unit, rfl, rfl⟩
    cases unit <;> rfl

/-! ## Fractions -/

/-- Digits in places below a nanosecond are worth nothing. -/
theorem worth_of_lt (hplace : place < 10) (decimals : List (Fin 10)) :
    worth place decimals = 0 := by
  induction decimals generalizing place with
  | nil => rfl
  | cons digit rest ih =>
      have hzero : place / 10 = 0 := Nat.div_eq_of_lt hplace
      rw [worth, hzero, Nat.mul_zero, ih (by decide)]

theorem addFraction_cons (digit : Fin 10) :
    addFraction before place (Nat.digitChar digit :: text) =
      accumulated .overflow (before + digit.val * (place / 10)) >>= fun before =>
        addFraction before (place / 10) text := by
  simp only [addFraction, digitValue?_digitChar]

/-- Digits that fit are added by what they are worth. -/
theorem addFraction_append (hfits : before + worth place decimals < accumulatorSize) :
    addFraction before place (digitText decimals ++ text) =
      addFraction (before + worth place decimals) (place / 10 ^ decimals.length) text := by
  induction decimals generalizing before place with
  | nil => simp [digitText, worth]
  | cons digit rest ih =>
      rw [worth, ← Nat.add_assoc] at hfits ⊢
      have hdigit : before + digit.val * (place / 10) < accumulatorSize := by omega
      rw [digitText_cons, List.cons_append, addFraction_cons, accumulated, if_pos hdigit,
        List.length_cons, Nat.pow_succ', ← Nat.div_div_eq_div_mul]
      exact ih hfits

/-- Digits that do not fit are noticed before anything that follows them, be it malformed. -/
theorem addFraction_of_le (hbefore : before < accumulatorSize)
    (hspill : accumulatorSize ≤ before + worth place decimals) :
    addFraction before place (digitText decimals ++ text) = .error .overflow := by
  induction decimals generalizing before place with
  | nil => exact absurd hbefore (Nat.not_lt.mpr hspill)
  | cons digit rest ih =>
      rw [digitText_cons, List.cons_append, addFraction_cons, accumulated]
      split
      · next hdigit =>
          rw [worth, ← Nat.add_assoc] at hspill
          exact ih hdigit hspill
      · rfl

theorem exists_digitText_append (text : List Char) :
    ∃ decimals rest, text = digitText decimals ++ rest ∧
      ∀ c ∈ rest.head?, digitValue? 10 c = none := by
  induction text with
  | nil => exact ⟨[], [], rfl, by simp⟩
  | cons c text ih =>
      cases hdigit : digitValue? 10 c with
      | none => exact ⟨[], c :: text, rfl, by simp [hdigit]⟩
      | some value =>
          obtain ⟨digit, rfl, -⟩ := eq_digitChar_of_digitValue? hdigit
          obtain ⟨decimals, rest, rfl, hrest⟩ := ih
          exact ⟨digit :: decimals, rest, rfl, hrest⟩

/-- The answer to a fraction whose digits have been told apart from what follows them. -/
theorem addFraction_of_head (hbefore : before < accumulatorSize)
    (hrest : ∀ c ∈ rest.head?, digitValue? 10 c = none) :
    addFraction before place (digitText decimals ++ rest) =
      if accumulatorSize ≤ before + worth place decimals then .error .overflow
      else if rest = [] then .ok (before + worth place decimals) else .error .malformed := by
  split
  · next hspill => exact addFraction_of_le hbefore hspill
  · next hfits =>
      rw [addFraction_append (Nat.lt_of_not_le hfits)]
      cases rest with
      | nil => rfl
      | cons c rest =>
          have hdigit : digitValue? 10 c = none := hrest c rfl
          simp only [addFraction, hdigit, reduceCtorEq, if_false]

theorem addFraction_eq_ok_iff (hbefore : before < accumulatorSize) :
    addFraction before place text = .ok value ↔
      ∃ decimals, text = digitText decimals ∧ value = before + worth place decimals ∧
        value < accumulatorSize := by
  constructor
  · intro hok
    obtain ⟨decimals, rest, rfl, hrest⟩ := exists_digitText_append text
    rw [addFraction_of_head hbefore hrest] at hok
    split_ifs at hok with hspill hnil
    obtain rfl := Except.ok.inj hok
    exact ⟨decimals, by rw [hnil, List.append_nil], rfl, Nat.lt_of_not_le hspill⟩
  · rintro ⟨decimals, rfl, rfl, hfits⟩
    rw [← List.append_nil (digitText decimals)]
    exact addFraction_append hfits

theorem addFraction_eq_overflow_iff (hbefore : before < accumulatorSize) :
    addFraction before place text = .error .overflow ↔
      ∃ decimals tail, text = digitText decimals ++ tail ∧
        accumulatorSize ≤ before + worth place decimals := by
  constructor
  · intro hoverflow
    obtain ⟨decimals, rest, rfl, hrest⟩ := exists_digitText_append text
    rw [addFraction_of_head hbefore hrest] at hoverflow
    split_ifs at hoverflow with hspill hnil
    · exact ⟨decimals, rest, rfl, hspill⟩
    · simp at hoverflow
  · rintro ⟨decimals, tail, rfl, hspill⟩
    exact addFraction_of_le hbefore hspill

theorem whole_eq_ok_iff (hplus : '+' ∉ text) :
    whole text = .ok value ↔
      ∃ digits, text = digitText digits ∧ value = decimal digits ∧ value < accumulatorSize := by
  have hsize : 0 < accumulatorSize := by decide
  cases text with
  | nil =>
      constructor
      · intro hok
        obtain rfl := Except.ok.inj hok
        exact ⟨[], rfl, rfl, hsize⟩
      · rintro ⟨digits, htext, rfl, -⟩
        obtain rfl := List.map_eq_nil_iff.mp htext.symm
        rfl
  | cons c rest =>
      have hread : whole (c :: rest) = .ok value ↔
          unsigned? 10 (accumulatorSize - 1) (c :: rest) = some value := by
        simp only [whole]
        split <;> simp_all
      rw [hread, unsigned?_eq_some_iff (by decide)]
      constructor
      · rintro ⟨hdigits | ⟨digits, htext, -⟩, hle⟩
        · obtain ⟨digits, htext, rfl⟩ := hdigits.exists_digitText
          exact ⟨digits, htext, rfl, by omega⟩
        · exact absurd (htext ▸ List.mem_cons_self) hplus
      · rintro ⟨digits, htext, rfl, hlt⟩
        have hsome : digits ≠ [] := by
          rintro rfl
          simp [digitText] at htext
        rw [htext]
        exact ⟨.inl ((digits?_eq_some_iff (by decide)).mp (digits?_digitText hsome)), by omega⟩

theorem whole_ne_overflow (text : List Char) : whole text ≠ .error .overflow := by
  unfold whole
  split
  · simp
  · split <;> simp

theorem all_ne_point (htext : '.' ∉ text) : ∀ c ∈ text, (c != '.') = true := by
  intro c hmem
  rw [bne_iff_ne]
  rintro rfl
  exact htext hmem

theorem splitAtPoint_append (htext : '.' ∉ text) :
    splitAtPoint (text ++ '.' :: rest) = (text, rest) := by
  rw [splitAtPoint, List.takeWhile_append_of_pos (all_ne_point htext),
    List.dropWhile_append_of_pos (all_ne_point htext)]
  simp

theorem splitAtPoint_of_notMem (htext : '.' ∉ text) : splitAtPoint text = (text, []) := by
  rw [splitAtPoint, List.takeWhile_eq_self_iff.mpr (all_ne_point htext),
    List.dropWhile_eq_nil_iff.mpr (all_ne_point htext)]
  rfl

/-- A number has no point, or it is cut at its first one. -/
theorem exists_splitAtPoint (number : List Char) :
    ∃ (whole : List Char) (fraction : Option (List Char)),
      number = whole ++ fraction.elim [] ('.' :: ·) ∧
        splitAtPoint number = (whole, fraction.getD []) := by
  by_cases hpoint : '.' ∈ number
  · obtain ⟨whole, fraction, rfl, hwhole⟩ := List.eq_append_cons_of_mem hpoint
    exact ⟨whole, some fraction, rfl, splitAtPoint_append hwhole⟩
  · exact ⟨number, none, by simp, splitAtPoint_of_notMem hpoint⟩

theorem component_of_split {whole fraction : List Char}
    (hsplit : splitAtPoint number = (whole, fraction)) (hsome : whole ++ fraction ≠ []) :
    component number unit.spelling =
      DurationText.whole whole >>= fun value =>
        accumulated .malformed (value * unit.length) >>= fun nanoseconds =>
          addFraction nanoseconds unit.length fraction := by
  have hunit : unitNanoseconds? unit.spelling = some unit.length :=
    unitNanoseconds?_eq_some_iff.mpr ⟨unit, rfl, rfl⟩
  have hempty : ¬(whole.isEmpty && fraction.isEmpty) = true := by
    simpa using fun hwhole hfraction => hsome (by simp [hwhole, hfraction])
  simp only [component, hunit, hsplit, if_neg hempty]

theorem component_of_empty (hsplit : splitAtPoint number = ([], [])) :
    component number spelling = .error .malformed := by
  unfold component
  split
  · rfl
  · simp [hsplit]

theorem component_of_no_unit (hunit : ∀ unit : TimeUnit, spelling ≠ unit.spelling) :
    component number spelling = .error .malformed := by
  have hnone : unitNanoseconds? spelling = none := by
    rw [Option.eq_none_iff_forall_ne_some]
    intro value hsome
    obtain ⟨unit, hspelling, -⟩ := unitNanoseconds?_eq_some_iff.mp hsome
    exact hunit unit hspelling
  simp only [component, hnone]

theorem plus_notMem (hnumber : ∀ c ∈ number, isNumberChar c = true) : '+' ∉ number := fun hmem =>
  absurd (hnumber '+' hmem) (by decide)

/-- Once the digits before the point have been read, only the fraction is still to be added. -/
theorem component_of_digits {fraction : List Char}
    (hsplit : splitAtPoint number = (digitText digits, fraction))
    (hsome : digitText digits ++ fraction ≠ []) :
    component number unit.spelling =
      if decimal digits * unit.length < accumulatorSize then
        addFraction (decimal digits * unit.length) unit.length fraction
      else .error .malformed := by
  have hplus : '+' ∉ digitText digits :=
    plus_notMem fun _ hmem => isNumberChar_of_mem_digitText hmem
  rw [component_of_split hsplit hsome]
  split
  · next hproduct =>
      have hdigits : decimal digits < accumulatorSize :=
        Nat.lt_of_le_of_lt (Nat.le_mul_of_pos_right _ unit.length_pos) hproduct
      rw [(whole_eq_ok_iff hplus).mpr ⟨digits, rfl, rfl, hdigits⟩]
      simp only [bind, Except.bind, accumulated, if_pos hproduct]
  · next hproduct =>
      -- The number itself may be too large as well; the answer is the same.
      cases hwhole : whole (digitText digits) with
      | error fault =>
          cases fault with
          | malformed => rfl
          | overflow => exact absurd hwhole (whole_ne_overflow _)
      | ok value =>
          obtain ⟨others, hsame, rfl, -⟩ := (whole_eq_ok_iff hplus).mp hwhole
          obtain rfl := digitText_injective hsame
          simp only [bind, Except.bind, accumulated, if_neg hproduct]

theorem Component.mem_numeral {component : Component} (hmem : c ∈ component.numeral) :
    c = '.' ∨ ∃ digit : Fin 10, c = Nat.digitChar digit := by
  rw [numeral, List.mem_append] at hmem
  rcases hmem with hmem | hmem
  · exact .inr (mem_digitText hmem)
  · cases hfraction : component.fraction with
    | none => simp [hfraction] at hmem
    | some decimals =>
        rw [hfraction, Option.elim_some, List.mem_cons] at hmem
        exact hmem.imp_right mem_digitText

theorem Component.isNumberChar_of_mem_numeral (component : Component)
    (hmem : c ∈ component.numeral) : isNumberChar c = true := by
  rcases mem_numeral hmem with rfl | ⟨digit, rfl⟩
  · rfl
  · rw [isNumberChar, isDigit_digitChar, Bool.true_or]

theorem Component.splitAtPoint_numeral (component : Component) :
    splitAtPoint component.numeral = (digitText component.whole, digitText component.decimals) := by
  rw [numeral, decimals]
  cases component.fraction with
  | none =>
      rw [Option.elim_none, List.append_nil]
      exact splitAtPoint_of_notMem (point_notMem_digitText component.whole)
  | some decimals => exact splitAtPoint_append (point_notMem_digitText component.whole)

theorem Component.component_numeral (component : Component)
    (hfits : component.nanoseconds < accumulatorSize) :
    DurationText.component component.numeral component.unit.spelling =
      .ok component.nanoseconds := by
  have hsome : digitText component.whole ++ digitText component.decimals ≠ [] := by
    have hdigits := component.nonempty
    simpa [digitText, decimals] using hdigits
  have hproduct : decimal component.whole * component.unit.length < accumulatorSize :=
    Nat.lt_of_le_of_lt (Nat.le_add_right _ _) hfits
  rw [component_of_digits component.splitAtPoint_numeral hsome, if_pos hproduct]
  exact (addFraction_eq_ok_iff hproduct).mpr ⟨_, rfl, rfl, hfits⟩

/-- A component that is not malformed has a unit and a number of digits, and only its fraction is
still to be added. -/
theorem component_inv {result : Except Fault Nat} (hresult : result ≠ .error .malformed)
    (hnumber : ∀ c ∈ number, isNumberChar c = true)
    (hcomponent : component number spelling = result) :
    ∃ (unit : TimeUnit) (digits : List (Fin 10)) (fraction : Option (List Char)),
      spelling = unit.spelling ∧ number = digitText digits ++ fraction.elim [] ('.' :: ·) ∧
        digitText digits ++ fraction.getD [] ≠ [] ∧
        decimal digits * unit.length < accumulatorSize ∧
        addFraction (decimal digits * unit.length) unit.length (fraction.getD []) = result := by
  obtain ⟨unit, rfl⟩ : ∃ unit : TimeUnit, spelling = unit.spelling := by
    by_contra hunit
    rw [component_of_no_unit (not_exists.mp hunit)] at hcomponent
    exact hresult hcomponent.symm
  obtain ⟨whole, fraction, hcut, hsplit⟩ := exists_splitAtPoint number
  have hsome : whole ++ fraction.getD [] ≠ [] := by
    intro hempty
    obtain ⟨rfl, hfraction⟩ := List.append_eq_nil_iff.mp hempty
    rw [hfraction] at hsplit
    rw [component_of_empty hsplit] at hcomponent
    exact hresult hcomponent.symm
  have hplus : '+' ∉ whole := plus_notMem fun c hmem =>
    hnumber c (hcut ▸ List.mem_append_left _ hmem)
  cases hwhole : DurationText.whole whole with
  | error fault =>
      cases fault with
      | malformed =>
          rw [component_of_split hsplit hsome, hwhole] at hcomponent
          exact absurd hcomponent.symm hresult
      | overflow => exact absurd hwhole (whole_ne_overflow whole)
  | ok value =>
      obtain ⟨digits, rfl, rfl, -⟩ := (whole_eq_ok_iff hplus).mp hwhole
      rw [component_of_digits hsplit hsome] at hcomponent
      split_ifs at hcomponent with hproduct
      · exact ⟨unit, digits, fraction, rfl, hcut, hsome, hproduct, hcomponent⟩
      · exact absurd hcomponent.symm hresult

theorem component_eq_ok_iff (hnumber : ∀ c ∈ number, isNumberChar c = true) :
    component number spelling = .ok value ↔
      ∃ component : Component, number = component.numeral ∧ spelling = component.unit.spelling ∧
        value = component.nanoseconds ∧ value < accumulatorSize := by
  constructor
  · intro hok
    obtain ⟨unit, digits, fraction, rfl, rfl, hsome, hproduct, hadd⟩ :=
      component_inv (by simp) hnumber hok
    obtain ⟨decimals, hdecimals, rfl, hvalue⟩ := (addFraction_eq_ok_iff hproduct).mp hadd
    cases fraction with
    | none =>
        obtain rfl := List.map_eq_nil_iff.mp hdecimals.symm
        have hdigits : digits ++ [] ≠ [] := by simpa [digitText] using hsome
        exact ⟨⟨digits, none, unit, hdigits⟩, rfl, rfl, rfl, hvalue⟩
    | some fraction =>
        obtain rfl : fraction = digitText decimals := hdecimals
        have hdigits : digits ++ decimals ≠ [] := by simpa [digitText] using hsome
        exact ⟨⟨digits, some decimals, unit, hdigits⟩, rfl, rfl, rfl, hvalue⟩
  · rintro ⟨component, rfl, rfl, rfl, hfits⟩
    exact component.component_numeral hfits

/-- Only a fraction leaves the accumulator. -/
theorem component_eq_overflow_iff (hnumber : ∀ c ∈ number, isNumberChar c = true) :
    component number spelling = .error .overflow ↔
      ∃ (unit : TimeUnit) (digits decimals : List (Fin 10)) (tail : List Char),
        spelling = unit.spelling ∧
          number = digitText digits ++ '.' :: (digitText decimals ++ tail) ∧
          decimal digits * unit.length < accumulatorSize ∧
          accumulatorSize ≤ decimal digits * unit.length + worth unit.length decimals := by
  constructor
  · intro hoverflow
    obtain ⟨unit, digits, fraction, rfl, rfl, -, hproduct, hadd⟩ :=
      component_inv (by simp) hnumber hoverflow
    cases fraction with
    | none => exact absurd hadd (by simp [addFraction])
    | some fraction =>
        obtain ⟨decimals, tail, rfl, hspill⟩ := (addFraction_eq_overflow_iff hproduct).mp hadd
        exact ⟨unit, digits, decimals, tail, rfl, rfl, hproduct, hspill⟩
  · rintro ⟨unit, digits, decimals, tail, rfl, rfl, hproduct, hspill⟩
    have hsome : digitText digits ++ (digitText decimals ++ tail) ≠ [] := by
      intro hempty
      obtain ⟨-, hfraction⟩ := List.append_eq_nil_iff.mp hempty
      obtain rfl := List.map_eq_nil_iff.mp (List.append_eq_nil_iff.mp hfraction).1
      exact absurd hproduct (Nat.not_lt.mpr hspill)
    rw [component_of_digits (splitAtPoint_append (point_notMem_digitText digits)) hsome,
      if_pos hproduct]
    exact addFraction_of_le hproduct hspill

end Fieldbus.DurationText
