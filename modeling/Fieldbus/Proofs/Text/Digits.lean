import Fieldbus.Text.Numeral
import Mathlib.Data.List.Basic
import Mathlib.Data.List.Induction
import Mathlib.Data.Nat.Digits.Defs
import Mathlib.Tactic.Ring

/-!
# The numbers that digits denote

Digits denote a number by their places, the last one in the lowest, and a numeral is a row of digits
that may follow a plus sign.  Reading accepts exactly the numerals of its base and finds the number
that they denote.  Rows of decimal digits are also given as lists of their values.
-/

namespace Fieldbus.Text

variable {base number limit value : Nat} {text : List Char} {c : Char}

/-- A digit is a figure, or a letter of either case for the values from ten on. -/
def IsDigitOf (base : Nat) (c : Char) (value : Nat) : Prop :=
  value < base ∧ (c = Nat.digitChar value ∨ c = (Nat.digitChar value).toUpper)

/-- A row of at least one digit, and its number. -/
inductive Digits (base : Nat) : List Char → Nat → Prop where
  | single {c : Char} {value : Nat} (hdigit : IsDigitOf base c value) : Digits base [c] value
  | snoc {text : List Char} {number : Nat} {c : Char} {value : Nat}
      (htext : Digits base text number) (hdigit : IsDigitOf base c value) :
      Digits base (text ++ [c]) (number * base + value)

/-- Digits, or a plus sign and digits. -/
def IsNumeralOf (base : Nat) (text : List Char) (number : Nat) : Prop :=
  Digits base text number ∨ ∃ digits, text = '+' :: digits ∧ Digits base digits number

theorem toNat_lt_of_digitValue? (hvalue : digitValue? base c = some value) : c.toNat < 128 := by
  simp only [digitValue?, Option.filter_eq_some_iff] at hvalue
  obtain ⟨hvalue, -⟩ := hvalue
  have hbelow {last : Char} (hlast : c ≤ last) (hcode : last.toNat < 128) : c.toNat < 128 :=
    Nat.lt_of_le_of_lt hlast hcode
  split_ifs at hvalue with hfigure hlower hupper
  · exact hbelow hfigure.2 (by decide)
  · exact hbelow hlower.2 (by decide)
  · exact hbelow hupper.2 (by decide)

/-- In the largest base a digit has the value that it is written for. -/
theorem digitValue?_sixteen_eq_some_iff :
    digitValue? 16 c = some value ↔ IsDigitOf 16 c value := by
  constructor
  · intro hvalue
    have hcodes : ∀ code < 128, ∀ value < 16, digitValue? 16 (Char.ofNat code) = some value →
        Char.ofNat code = Nat.digitChar value ∨
          Char.ofNat code = (Nat.digitChar value).toUpper := by
      decide +kernel
    have hbase : value < 16 := by
      simpa using (Option.filter_eq_some_iff.mp hvalue).2
    have hcode := hcodes c.toNat (toNat_lt_of_digitValue? hvalue) value hbase
    rw [Char.ofNat_toNat] at hcode
    exact ⟨hbase, hcode hvalue⟩
  · rintro ⟨hbase, hwritten⟩
    have hread : ∀ value < 16, digitValue? 16 (Nat.digitChar value) = some value ∧
        digitValue? 16 (Nat.digitChar value).toUpper = some value := by
      decide
    rcases hwritten with rfl | rfl
    · exact (hread value hbase).1
    · exact (hread value hbase).2

theorem digitValue?_eq_some_iff (hbase : base ≤ 16) :
    digitValue? base c = some value ↔ IsDigitOf base c value := by
  have hsixteen : digitValue? base c = some value ↔
      digitValue? 16 c = some value ∧ value < base := by
    simp only [digitValue?, Option.filter_eq_some_iff, decide_eq_true_eq]
    constructor
    · rintro ⟨hvalue, hlt⟩
      exact ⟨⟨hvalue, Nat.lt_of_lt_of_le hlt hbase⟩, hlt⟩
    · rintro ⟨⟨hvalue, -⟩, hlt⟩
      exact ⟨hvalue, hlt⟩
  rw [hsixteen, digitValue?_sixteen_eq_some_iff, IsDigitOf, IsDigitOf]
  constructor
  · rintro ⟨⟨-, hwritten⟩, hlt⟩
    exact ⟨hlt, hwritten⟩
  · rintro ⟨hlt, hwritten⟩
    exact ⟨⟨Nat.lt_of_lt_of_le hlt hbase, hwritten⟩, hlt⟩

theorem Digits.ne_nil (hdigits : Digits base text number) : text ≠ [] := by
  cases hdigits <;> simp

/-- Digits move the number that was read before them to higher places. -/
theorem Digits.continueDigits? (hbase : base ≤ 16) (hdigits : Digits base text number)
    (accumulator : Nat) :
    Text.continueDigits? base accumulator text =
      some (accumulator * base ^ text.length + number) := by
  induction hdigits with
  | single hdigit => simp [Text.continueDigits?, (digitValue?_eq_some_iff hbase).mpr hdigit]
  | @snoc text number c value htext hdigit ih =>
      rw [continueDigits?_append, ih]
      simp only [Option.bind_some, Text.continueDigits?,
        (digitValue?_eq_some_iff hbase).mpr hdigit, List.length_append, List.length_singleton]
      congr 1
      ring

theorem continueDigits?_eq_some_iff (hbase : base ≤ 16) (hsome : text ≠ [])
    {accumulator total : Nat} :
    continueDigits? base accumulator text = some total ↔ ∃ number, Digits base text number ∧
      total = accumulator * base ^ text.length + number := by
  constructor
  · intro hread
    induction text using List.reverseRecOn generalizing total with
    | nil => exact absurd rfl hsome
    | append_singleton text c ih =>
        rw [continueDigits?_append, Option.bind_eq_some_iff] at hread
        obtain ⟨before, hbefore, hlast⟩ := hread
        have hdigit : ∃ value, digitValue? base c = some value ∧
            before * base + value = total := by
          simp only [continueDigits?] at hlast
          split at hlast
          · next value hvalue => exact ⟨value, hvalue, Option.some.inj hlast⟩
          · simp at hlast
        obtain ⟨value, hvalue, rfl⟩ := hdigit
        rw [digitValue?_eq_some_iff hbase] at hvalue
        by_cases hfirst : text = []
        · subst hfirst
          obtain rfl : accumulator = before := Option.some.inj hbefore
          exact ⟨value, .single hvalue, by simp⟩
        · obtain ⟨number, hnumber, rfl⟩ := ih hfirst hbefore
          refine ⟨number * base + value, .snoc hnumber hvalue, ?_⟩
          rw [List.length_append, List.length_singleton]
          ring
  · rintro ⟨number, hdigits, rfl⟩
    exact hdigits.continueDigits? hbase accumulator

theorem digits?_eq_some_iff (hbase : base ≤ 16) :
    digits? base text = some number ↔ Digits base text number := by
  cases text with
  | nil =>
      have hnone : ¬Digits base [] number := fun hdigits => hdigits.ne_nil rfl
      simp [digits?, hnone]
  | cons c rest =>
      change continueDigits? base 0 (c :: rest) = some number ↔ _
      rw [continueDigits?_eq_some_iff hbase (List.cons_ne_nil c rest)]
      simp

theorem Digits.unique (hbase : base ≤ 16) {other : Nat} (hdigits : Digits base text number)
    (hother : Digits base text other) : number = other := by
  rw [← digits?_eq_some_iff hbase] at hdigits hother
  exact Option.some.inj (hdigits.symm.trans hother)

/-- The first digit has the highest place. -/
theorem digits_cons_iff (hbase : base ≤ 16) (hsome : text ≠ []) :
    Digits base (c :: text) number ↔ ∃ value rest, IsDigitOf base c value ∧
      Digits base text rest ∧ number = value * base ^ text.length + rest := by
  rw [← digits?_eq_some_iff hbase]
  change continueDigits? base 0 (c :: text) = some number ↔ _
  simp only [continueDigits?, ← digitValue?_eq_some_iff hbase]
  cases digitValue? base c with
  | none => simp
  | some value => simp [continueDigits?_eq_some_iff hbase hsome]

theorem Digits.lt_pow (hdigits : Digits base text number) : number < base ^ text.length := by
  induction hdigits with
  | single hdigit => simpa using hdigit.1
  | @snoc text number c value htext hdigit ih =>
      rw [List.length_append, List.length_singleton, Nat.pow_succ]
      calc number * base + value < number * base + base := Nat.add_lt_add_left hdigit.1 _
        _ = (number + 1) * base := (Nat.succ_mul number base).symm
        _ ≤ base ^ text.length * base := Nat.mul_le_mul_right base ih

theorem Digits.exists_value (hdigits : Digits base text number) (hmem : c ∈ text) :
    ∃ value, IsDigitOf base c value := by
  induction hdigits with
  | single hdigit => exact ⟨_, List.mem_singleton.mp hmem ▸ hdigit⟩
  | snoc htext hdigit ih =>
      rcases List.mem_append.mp hmem with hmem | hmem
      · exact ih hmem
      · exact ⟨_, List.mem_singleton.mp hmem ▸ hdigit⟩

/-- A character that is read as no digit is in no row of digits. -/
theorem Digits.not_mem (hbase : base ≤ 16) (hdigits : Digits base text number)
    (hnone : digitValue? base c = none) : c ∉ text := by
  intro hmem
  obtain ⟨value, hvalue⟩ := hdigits.exists_value hmem
  rw [← digitValue?_eq_some_iff hbase, hnone] at hvalue
  simp at hvalue

theorem digitValue?_plus (base : Nat) : digitValue? base '+' = none := rfl

/-- Reading with a limit finds the numerals up to the limit. -/
theorem unsigned?_eq_some_iff (hbase : base ≤ 16) :
    unsigned? base limit text = some number ↔ IsNumeralOf base text number ∧ number ≤ limit := by
  unfold unsigned?
  split
  · next rest =>
      have hbare : ¬Digits base ('+' :: rest) number := fun hdigits =>
        hdigits.not_mem hbase (digitValue?_plus base) List.mem_cons_self
      simp [Option.filter_eq_some_iff, digits?_eq_some_iff hbase, IsNumeralOf, hbare]
  · next hplus =>
      have hsigned : ¬∃ digits, text = '+' :: digits ∧ Digits base digits number := by
        rintro ⟨digits, rfl, -⟩
        exact hplus digits rfl
      simp [Option.filter_eq_some_iff, digits?_eq_some_iff hbase, IsNumeralOf, hsigned]

/-- The number that decimal digits denote, the first one in the highest place. -/
def decimal (digits : List (Fin 10)) : Nat := Nat.ofDigits 10 (digits.reverse.map Fin.val)

def digitText (digits : List (Fin 10)) : List Char :=
  digits.map fun digit => Nat.digitChar digit.val

/-- The last digits of a number, one for each place. -/
def lastDigits : Nat → Nat → List (Fin 10)
  | 0, _ => []
  | places + 1, number =>
      lastDigits places (number / 10) ++ [⟨number % 10, Nat.mod_lt _ (by decide)⟩]

section Decimal

variable {digits : List (Fin 10)}

theorem decimal_nil : decimal [] = 0 := rfl

theorem decimal_cons (digit : Fin 10) (rest : List (Fin 10)) :
    decimal (digit :: rest) = digit.val * 10 ^ rest.length + decimal rest := by
  simp only [decimal, List.reverse_cons, List.map_append, Nat.ofDigits_append, List.length_map,
    List.length_reverse, List.map_cons, List.map_nil, Nat.ofDigits_singleton]
  ring

theorem decimal_lt (digits : List (Fin 10)) : decimal digits < 10 ^ digits.length := by
  have hlt := Nat.ofDigits_lt_base_pow_length (b := 10) (l := digits.reverse.map Fin.val)
    (by decide) (by simp)
  rwa [List.length_map, List.length_reverse] at hlt

theorem decimal_append (left right : List (Fin 10)) :
    decimal (left ++ right) = decimal left * 10 ^ right.length + decimal right := by
  induction left with
  | nil => simp [decimal_nil]
  | cons digit left ih =>
      rw [List.cons_append, decimal_cons, decimal_cons, ih, List.length_append, Nat.pow_add]
      ring

theorem length_lastDigits (places number : Nat) : (lastDigits places number).length = places := by
  induction places generalizing number with
  | zero => rfl
  | succ places ih => rw [lastDigits, List.length_append, ih, List.length_singleton]

theorem decimal_lastDigits (places number : Nat) :
    decimal (lastDigits places number) = number % 10 ^ places := by
  induction places generalizing number with
  | zero => exact (Nat.mod_one number).symm
  | succ places ih =>
      rw [lastDigits, decimal_append, ih, decimal_cons, decimal_nil, List.length_nil,
        List.length_singleton, pow_zero, pow_one, Nat.mul_one, Nat.add_zero, Nat.pow_succ',
        Nat.mod_mul, Nat.mul_comm, Nat.add_comm]

theorem digitText_cons (digit : Fin 10) (rest : List (Fin 10)) :
    digitText (digit :: rest) = Nat.digitChar digit :: digitText rest := rfl

theorem digitText_injective : Function.Injective digitText := by
  refine List.map_injective_iff.mpr fun left right => ?_
  revert left right
  decide

theorem digitValue?_digitChar (digit : Fin 10) :
    digitValue? 10 (Nat.digitChar digit) = some digit.val := by
  revert digit
  decide

theorem isDigit_digitChar (digit : Fin 10) : isDigit (Nat.digitChar digit) = true := by
  revert digit
  decide

theorem continueDigits?_digitText (accumulator : Nat) (digits : List (Fin 10)) :
    continueDigits? 10 accumulator (digitText digits) =
      some (accumulator * 10 ^ digits.length + decimal digits) := by
  induction digits generalizing accumulator with
  | nil => simp [digitText, decimal, continueDigits?]
  | cons digit rest ih =>
      simp only [digitText_cons, continueDigits?, digitValue?_digitChar]
      rw [ih, decimal_cons, List.length_cons]
      congr 1
      ring

theorem digits?_digitText (hsome : digits ≠ []) :
    digits? 10 (digitText digits) = some (decimal digits) := by
  cases digits with
  | nil => exact absurd rfl hsome
  | cons digit rest =>
      have hdigits := continueDigits?_digitText 0 (digit :: rest)
      rw [Nat.zero_mul, Nat.zero_add] at hdigits
      exact hdigits

theorem mem_digitText (hmem : c ∈ digitText digits) :
    ∃ digit : Fin 10, c = Nat.digitChar digit := by
  obtain ⟨digit, -, rfl⟩ := List.mem_map.mp hmem
  exact ⟨digit, rfl⟩

/-- A character that is read as a decimal digit is the figure of its value. -/
theorem eq_digitChar_of_digitValue? (hvalue : digitValue? 10 c = some value) :
    ∃ digit : Fin 10, c = Nat.digitChar digit ∧ value = digit := by
  obtain ⟨hlt, hwritten⟩ := (digitValue?_eq_some_iff (by decide)).mp hvalue
  have hupper : ∀ value < 10, (Nat.digitChar value).toUpper = Nat.digitChar value := by decide
  rw [hupper value hlt, or_self] at hwritten
  exact ⟨⟨value, hlt⟩, hwritten, rfl⟩

theorem Digits.exists_digitText (hdigits : Digits 10 text number) :
    ∃ digits, text = digitText digits ∧ number = decimal digits := by
  induction hdigits with
  | single hdigit =>
      obtain ⟨digit, rfl, rfl⟩ :=
        eq_digitChar_of_digitValue? ((digitValue?_eq_some_iff (by decide)).mpr hdigit)
      exact ⟨[digit], rfl, by simp [decimal]⟩
  | snoc htext hdigit ih =>
      obtain ⟨digits, rfl, rfl⟩ := ih
      obtain ⟨digit, rfl, rfl⟩ :=
        eq_digitChar_of_digitValue? ((digitValue?_eq_some_iff (by decide)).mpr hdigit)
      refine ⟨digits ++ [digit], by simp [digitText], ?_⟩
      rw [decimal_append, decimal_cons, decimal_nil, List.length_nil, List.length_singleton]
      omega

end Decimal

end Fieldbus.Text
