import Fieldbus.Proofs.Point.Components

/-!
# What a duration text stands for

A duration text is a row of components and stands for their total.  The reader finds exactly these
components; it is carried past the accumulator by a fraction and by nothing else.
-/

namespace Fieldbus.DurationText

open Text

def spell (components : List Component) : List Char := components.flatMap Component.text

def total (components : List Component) : Nat := (components.map Component.nanoseconds).sum

/-- The text begins with a component whose fraction leaves the accumulator.  The digits that do it
may be followed by anything that can stand in a number. -/
inductive BeginsSpilling : List Char → Prop where
  | intro (whole decimals : List (Fin 10)) (tail : List Char) (unit : TimeUnit) (rest : List Char)
      (htail : ∀ c ∈ tail, isNumberChar c = true)
      (hrest : ∀ c ∈ rest.head?, isNumberChar c = true)
      (hwhole : decimal whole * unit.length < accumulatorSize)
      (hspill : accumulatorSize ≤ decimal whole * unit.length + worth unit.length decimals) :
      BeginsSpilling
        (digitText whole ++ '.' :: (digitText decimals ++ tail) ++ (unit.spelling ++ rest))

/-- A fraction leaves the accumulator after components whose total fits it. -/
def Spills (text : List Char) : Prop :=
  ∃ components rest, text = spell components ++ rest ∧ total components < accumulatorSize ∧
    BeginsSpilling rest

variable {fuel before value : Nat} {text number spelling rest : List Char} {unit : TimeUnit}
  {c : Char}

/-- The text is a number and a unit, each as long as it can be, and a rest. -/
structure Cuts (text number spelling rest : List Char) : Prop where
  text_eq : text = number ++ (spelling ++ rest)
  number : ∀ c ∈ number, isNumberChar c = true
  spelling : ∀ c ∈ spelling, isNumberChar c = false
  rest : ∀ c ∈ rest.head?, isNumberChar c = true

section Lists

variable {A : Type} {p : A → Bool} {left right : List A}

/-- A list is cut where the first item fails. -/
theorem takeWhile_append_of_head (hleft : ∀ a ∈ left, p a = true)
    (hright : ∀ a ∈ right.head?, p a = false) : (left ++ right).takeWhile p = left := by
  rw [List.takeWhile_append_of_pos hleft]
  cases right with
  | nil => simp
  | cons a right => simp [hright a rfl]

theorem dropWhile_append_of_head (hleft : ∀ a ∈ left, p a = true)
    (hright : ∀ a ∈ right.head?, p a = false) : (left ++ right).dropWhile p = right := by
  rw [List.dropWhile_append_of_pos hleft]
  cases right with
  | nil => simp
  | cons a right => simp [hright a rfl]

theorem head?_dropWhile (p : A → Bool) (left : List A) :
    ∀ a ∈ (left.dropWhile p).head?, p a = false := by
  intro a hhead
  have hnot := List.head?_dropWhile_not p left
  rwa [Option.mem_def.mp hhead] at hnot

end Lists

theorem cuts_takeComponent (text : List Char) :
    Cuts text (takeComponent text).1 (takeComponent text).2.1 (takeComponent text).2.2 where
  text_eq := by simp only [takeComponent, List.takeWhile_append_dropWhile]
  number _ hmem := List.mem_takeWhile_imp hmem
  spelling _ hmem := by simpa using List.mem_takeWhile_imp hmem
  rest c hhead := by simpa using head?_dropWhile (!isNumberChar ·) _ c hhead

theorem Cuts.takeComponent_eq (hcuts : Cuts text number spelling rest) (hunit : spelling ≠ []) :
    takeComponent text = (number, spelling, rest) := by
  have hspelling : ∀ c ∈ spelling, (!isNumberChar c) = true := fun c hmem => by
    rw [hcuts.spelling c hmem, Bool.not_false]
  have hrest : ∀ c ∈ rest.head?, (!isNumberChar c) = false := fun c hhead => by
    rw [hcuts.rest c hhead, Bool.not_true]
  have hhead : ∀ c ∈ (spelling ++ rest).head?, isNumberChar c = false := by
    intro c hhead
    rw [List.head?_append_of_ne_nil _ hunit] at hhead
    exact hcuts.spelling c (List.mem_of_head? hhead)
  rw [hcuts.text_eq, takeComponent, takeWhile_append_of_head hcuts.number hhead,
    dropWhile_append_of_head hcuts.number hhead, takeWhile_append_of_head hspelling hrest,
    dropWhile_append_of_head hspelling hrest]

/-- A unit is never empty, so each component takes something from the text. -/
theorem Cuts.length_lt (hcuts : Cuts text number unit.spelling rest) :
    rest.length < text.length := by
  have hunit := List.length_pos_iff.mpr unit.spelling_ne_nil
  rw [hcuts.text_eq, List.length_append, List.length_append]
  omega

theorem Component.numeral_ne_nil (component : Component) : component.numeral ≠ [] := by
  intro hempty
  obtain ⟨hwhole, hfraction⟩ := List.append_eq_nil_iff.mp hempty
  have hsome := component.nonempty
  rw [List.map_eq_nil_iff.mp hwhole] at hsome
  cases hdecimals : component.fraction with
  | none => simp [hdecimals] at hsome
  | some decimals => simp [hdecimals] at hfraction

theorem Component.cuts (component : Component) (hrest : ∀ c ∈ rest.head?, isNumberChar c = true) :
    Cuts (component.text ++ rest) component.numeral component.unit.spelling rest where
  text_eq := List.append_assoc _ _ _
  number _ hmem := component.isNumberChar_of_mem_numeral hmem
  spelling _ hmem := not_isNumberChar_of_mem_spelling hmem
  rest := hrest

theorem spell_cons (component : Component) (components : List Component) :
    spell (component :: components) = component.text ++ spell components := rfl

theorem total_cons (component : Component) (components : List Component) :
    total (component :: components) = component.nanoseconds + total components := by
  rw [total, List.map_cons, List.sum_cons, total]

/-- What follows a component begins with a number if it is a row of components and such a text. -/
theorem head?_spell_append (components : List Component)
    (hrest : ∀ c ∈ rest.head?, isNumberChar c = true) :
    ∀ c ∈ (spell components ++ rest).head?, isNumberChar c = true := by
  cases components with
  | nil => exact hrest
  | cons component components =>
      intro c hhead
      rw [spell_cons, Component.text, List.append_assoc, List.append_assoc,
        List.head?_append_of_ne_nil _ component.numeral_ne_nil] at hhead
      exact component.isNumberChar_of_mem_numeral (List.mem_of_head? hhead)

theorem BeginsSpilling.head? (hspilling : BeginsSpilling text) :
    ∀ c ∈ text.head?, isNumberChar c = true := by
  obtain ⟨whole, decimals, tail, unit, rest⟩ := hspilling
  intro c hhead
  cases whole with
  | nil =>
      obtain rfl : '.' = c := by simpa [digitText] using hhead
      rfl
  | cons digit whole =>
      obtain rfl : Nat.digitChar digit = c := by simpa [digitText] using hhead
      rw [isNumberChar, isDigit_digitChar, Bool.true_or]

theorem Cuts.beginsSpilling (hcuts : Cuts text number spelling rest)
    (hcomponent : component number spelling = .error .overflow) : BeginsSpilling text := by
  obtain ⟨unit, digits, decimals, tail, rfl, rfl, hproduct, hspill⟩ :=
    (component_eq_overflow_iff hcuts.number).mp hcomponent
  rw [hcuts.text_eq]
  refine .intro digits decimals tail unit rest (fun c hmem => hcuts.number c ?_) hcuts.rest
    hproduct hspill
  exact List.mem_append_right _ (List.mem_cons_of_mem _ (List.mem_append_right _ hmem))

theorem BeginsSpilling.exists_cuts (hspilling : BeginsSpilling text) :
    ∃ number unit rest, Cuts text number (TimeUnit.spelling unit) rest ∧
      component number unit.spelling = .error .overflow := by
  obtain ⟨whole, decimals, tail, unit, rest, htail, hrest, hproduct, hspill⟩ := hspilling
  have hnumber : ∀ c ∈ digitText whole ++ '.' :: (digitText decimals ++ tail),
      isNumberChar c = true := by
    intro c hmem
    rw [List.mem_append, List.mem_cons, List.mem_append] at hmem
    rcases hmem with hmem | rfl | hmem | hmem
    · exact isNumberChar_of_mem_digitText hmem
    · rfl
    · exact isNumberChar_of_mem_digitText hmem
    · exact htail c hmem
  refine ⟨_, unit, rest, ⟨rfl, hnumber, fun _ => not_isNumberChar_of_mem_spelling, hrest⟩, ?_⟩
  exact (component_eq_overflow_iff hnumber).mpr
    ⟨unit, whole, decimals, tail, rfl, rfl, hproduct, hspill⟩

/-! ## Adding up -/

theorem sum_nil (fuel before : Nat) : sum fuel before [] = .ok before := by
  cases fuel <;> rfl

theorem sum_of_ne_nil (hsome : text ≠ []) :
    sum (fuel + 1) before text =
      component (takeComponent text).1 (takeComponent text).2.1 >>= fun value =>
        accumulated .malformed (before + value) >>= fun before =>
          sum fuel before (takeComponent text).2.2 := by
  cases text with
  | nil => exact absurd rfl hsome
  | cons c rest => rfl

theorem sum_of_cuts (hcuts : Cuts text number unit.spelling rest) :
    sum (fuel + 1) before text =
      component number unit.spelling >>= fun value =>
        accumulated .malformed (before + value) >>= fun before => sum fuel before rest := by
  have hsome : text ≠ [] := List.ne_nil_of_length_pos (Nat.zero_lt_of_lt hcuts.length_lt)
  rw [sum_of_ne_nil hsome, hcuts.takeComponent_eq unit.spelling_ne_nil]

/-- A component at the start of a text is added to the total. -/
theorem sum_component (component : Component) (hrest : ∀ c ∈ rest.head?, isNumberChar c = true)
    (hfits : before + component.nanoseconds < accumulatorSize) :
    sum (fuel + 1) before (component.text ++ rest) =
      sum fuel (before + component.nanoseconds) rest := by
  rw [sum_of_cuts (component.cuts hrest), component.component_numeral (by omega)]
  simp only [bind, Except.bind, accumulated, if_pos hfits]

/-- Components at the start of a text are added to the total. -/
theorem sum_spell_append (components : List Component)
    (hrest : ∀ c ∈ rest.head?, isNumberChar c = true)
    (hfits : before + total components < accumulatorSize)
    (hfuel : (spell components ++ rest).length ≤ fuel) :
    ∃ left, rest.length ≤ left ∧
      sum fuel before (spell components ++ rest) = sum left (before + total components) rest := by
  induction components generalizing before fuel with
  | nil => exact ⟨fuel, hfuel, rfl⟩
  | cons component components ih =>
      have hhead := head?_spell_append components hrest
      have hlength := (component.cuts hhead).length_lt
      rw [total_cons, ← Nat.add_assoc] at hfits ⊢
      rw [spell_cons, List.append_assoc] at hfuel ⊢
      obtain ⟨fuel, rfl⟩ := Nat.exists_eq_add_one_of_ne_zero (show fuel ≠ 0 by omega)
      rw [sum_component component hhead (by omega)]
      exact ih hfits (by omega)

/-- A text that is not malformed is a row of components up to its end or up to a component that
leaves the accumulator. -/
theorem sum_inv {result : Except Fault Nat} (hresult : result ≠ .error .malformed)
    (hbefore : before < accumulatorSize) (hsum : sum fuel before text = result) :
    ∃ components rest, text = spell components ++ rest ∧
      before + total components < accumulatorSize ∧
      (rest = [] ∧ result = .ok (before + total components) ∨
        BeginsSpilling rest ∧ result = .error .overflow) := by
  induction fuel generalizing before text with
  | zero =>
      cases text with
      | nil => exact ⟨[], [], rfl, hbefore, .inl ⟨rfl, hsum.symm⟩⟩
      -- Text that is left without fuel counts as malformed.
      | cons c rest => exact absurd hsum.symm hresult
  | succ fuel ih =>
      rcases eq_or_ne text [] with rfl | hsome
      · exact ⟨[], [], rfl, hbefore, .inl ⟨rfl, hsum.symm⟩⟩
      have hcuts := cuts_takeComponent text
      rw [sum_of_ne_nil hsome] at hsum
      cases hcomponent : component (takeComponent text).1 (takeComponent text).2.1 with
      | error fault =>
          rw [hcomponent] at hsum
          cases fault with
          | malformed => exact absurd hsum.symm hresult
          | overflow =>
              exact ⟨[], text, rfl, hbefore, .inr ⟨hcuts.beginsSpilling hcomponent, hsum.symm⟩⟩
      | ok value =>
          obtain ⟨component, hnumeral, hspelling, rfl, -⟩ :=
            (component_eq_ok_iff hcuts.number).mp hcomponent
          rw [hcomponent] at hsum
          simp only [bind, Except.bind, accumulated] at hsum
          split_ifs at hsum with hfits
          · obtain ⟨components, rest, hrest, htotal, hanswer⟩ := ih hfits hsum
            refine ⟨component :: components, rest, ?_, ?_, ?_⟩
            · rw [spell_cons, Component.text, List.append_assoc, List.append_assoc, ← hrest,
                ← hnumeral, ← hspelling]
              exact hcuts.text_eq
            · rw [total_cons, ← Nat.add_assoc]
              exact htotal
            · rw [total_cons, ← Nat.add_assoc]
              exact hanswer
          · exact absurd hsum.symm hresult

theorem read_of_error {fault : Fault} (hsum : sum text.length 0 text = .error fault) :
    read text = .error fault := by
  rw [read, hsum]
  rfl

theorem read_of_ok (hsum : sum text.length 0 text = .ok value) :
    read text = if 0 < value ∧ value ≤ longest then .ok value else .error .malformed := by
  rw [read, hsum]
  rfl

theorem read_spell {components : List Component} (hlongest : total components ≤ longest) :
    read (spell components) =
      if 0 < total components then .ok (total components) else .error .malformed := by
  have hfits : 0 + total components < accumulatorSize := by
    rw [Nat.zero_add]
    exact Nat.lt_of_le_of_lt hlongest (by decide)
  have hend : ∀ c ∈ ([] : List Char).head?, isNumberChar c = true := by simp
  obtain ⟨left, -, hsum⟩ := sum_spell_append components hend hfits (Nat.le_refl _)
  rw [List.append_nil, Nat.zero_add, sum_nil] at hsum
  simp only [read_of_ok hsum, and_iff_left hlongest]

theorem read_eq_ok_iff :
    read text = .ok value ↔
      ∃ components, text = spell components ∧ value = total components ∧ 0 < value ∧
        value ≤ longest := by
  constructor
  · intro hok
    cases hsum : sum text.length 0 text with
    | error fault => simp [read_of_error hsum] at hok
    | ok total =>
        rw [read_of_ok hsum] at hok
        split_ifs at hok with hbounds
        obtain rfl := Except.ok.inj hok
        obtain ⟨components, rest, rfl, -, ⟨rfl, hanswer⟩ | ⟨-, hanswer⟩⟩ :=
          sum_inv (by simp) (by decide) hsum
        · rw [Nat.zero_add] at hanswer
          exact ⟨components, List.append_nil _, Except.ok.inj hanswer, hbounds⟩
        · simp at hanswer
  · rintro ⟨components, rfl, rfl, hpositive, hlongest⟩
    rw [read_spell hlongest, if_pos hpositive]

/-- The bounds of a duration are no reason for an overflow. -/
theorem read_eq_overflow_iff_sum :
    read text = .error .overflow ↔ sum text.length 0 text = .error .overflow := by
  cases hsum : sum text.length 0 text with
  | error fault => rw [read_of_error hsum]
  | ok total =>
      rw [read_of_ok hsum]
      split_ifs <;> simp

theorem read_eq_overflow_iff : read text = .error .overflow ↔ Spills text := by
  rw [read_eq_overflow_iff_sum]
  constructor
  · intro hsum
    obtain ⟨components, rest, rfl, htotal, ⟨-, hanswer⟩ | ⟨hspilling, -⟩⟩ :=
      sum_inv (by simp) (by decide) hsum
    · simp at hanswer
    · exact ⟨components, rest, rfl, by rwa [Nat.zero_add] at htotal, hspilling⟩
  · rintro ⟨components, rest, rfl, htotal, hspilling⟩
    have hfits : 0 + total components < accumulatorSize := by rwa [Nat.zero_add]
    obtain ⟨left, hleft, hsum⟩ := sum_spell_append components hspilling.head? hfits
      (Nat.le_refl _)
    obtain ⟨number, unit, rest, hcuts, hcomponent⟩ := hspilling.exists_cuts
    -- The components before it have left fuel for the one that spills.
    have hlength := hcuts.length_lt
    obtain ⟨left, rfl⟩ := Nat.exists_eq_add_one_of_ne_zero (show left ≠ 0 by omega)
    rw [hsum, sum_of_cuts hcuts, hcomponent]
    rfl

theorem Component.isBlank_of_mem_text (component : Component) (hmem : c ∈ component.text) :
    isBlank c = false := by
  have hdigit : ∀ digit : Fin 10, isBlank (Nat.digitChar digit) = false := by decide
  have hunit : component.unit.spelling.any isBlank = false := by
    cases component.unit <;> rfl
  rcases List.mem_append.mp hmem with hmem | hmem
  · rcases mem_numeral hmem with rfl | ⟨digit, rfl⟩
    · rfl
    · exact hdigit digit
  · exact Bool.eq_false_of_not_eq_true (List.any_eq_false.mp hunit c hmem)

theorem trim_spell (components : List Component) : trim (spell components) = spell components := by
  refine trim_eq_self fun c hmem => ?_
  obtain ⟨component, -, hmem⟩ := List.mem_flatMap.mp hmem
  exact component.isBlank_of_mem_text hmem

theorem parse_spell {components : List Component} (hlongest : total components ≤ longest) :
    parse (String.ofList (spell components)) =
      if total components = 0 then .error (.badDuration (String.ofList (spell components)))
      else .ok (total components) := by
  rw [parse, String.toList_ofList, trim_spell, read_spell hlongest]
  rcases Nat.eq_zero_or_pos (total components) with hzero | hpositive
  · rw [hzero]
    rfl
  · rw [if_pos hpositive, if_neg (Nat.ne_of_gt hpositive)]

theorem parse_eq_ok_iff {text : String} :
    parse text = .ok value ↔
      ∃ components, trim text.toList = spell components ∧ value = total components ∧ 0 < value ∧
        value ≤ longest := by
  rw [← read_eq_ok_iff, parse]
  cases read (trim text.toList) with
  | ok duration => simp
  | error fault => cases fault <;> simp

theorem parse_eq_overflow_iff {text : String} :
    parse text = .error .durationOverflow ↔ Spills (trim text.toList) := by
  rw [← read_eq_overflow_iff, parse]
  cases read (trim text.toList) with
  | ok duration => simp
  | error fault => cases fault <;> simp

theorem parse_cases (text : String) :
    (∃ duration, parse text = .ok duration) ∨ parse text = .error (.badDuration text) ∨
      parse text = .error .durationOverflow := by
  rw [parse]
  cases read (trim text.toList) with
  | ok duration => exact .inl ⟨duration, rfl⟩
  | error fault =>
      cases fault with
      | malformed => exact .inr (.inl rfl)
      | overflow => exact .inr (.inr rfl)

/-- A digit and its place can always be multiplied. -/
theorem digit_mul_lt (unit : TimeUnit) (digit : Fin 10) (places : Nat) :
    digit.val * (unit.length / 10 ^ places) < accumulatorSize := by
  have hunit : 9 * unit.length < accumulatorSize := by
    cases unit <;> decide
  exact Nat.lt_of_le_of_lt (Nat.mul_le_mul (by omega) (Nat.div_le_self _ _)) hunit

/-- A duration text is answered by a duration or named as a bad one, unless a fraction leaves the
accumulator; nothing else does. -/
theorem parse_outcomes (text : String) :
    ((∃ duration, parse text = .ok duration ∧ 0 < duration ∧ duration < 2 ^ 64) ∨
      parse text = .error (.badDuration text) ∨ parse text = .error .durationOverflow) ∧
    (parse text = .error .durationOverflow ↔ Spills (trim text.toList)) ∧
    ∀ (unit : TimeUnit) (digit : Fin 10) (places : Nat),
      digit.val * (unit.length / 10 ^ places) < accumulatorSize := by
  refine ⟨?_, parse_eq_overflow_iff, digit_mul_lt⟩
  rcases parse_cases text with ⟨duration, hok⟩ | hbad
  · obtain ⟨-, -, -, hpositive, hlongest⟩ := parse_eq_ok_iff.mp hok
    exact .inl ⟨duration, hok, hpositive, Nat.lt_of_le_of_lt hlongest (by decide)⟩
  · exact .inr hbad

/-- Not every text is answered: the whole seconds of this one fit the accumulator, and its fraction
does not. -/
theorem not_forall_parse_answers :
    ¬∀ text, (∃ duration, parse text = .ok duration) ∨ parse text = .error (.badDuration text) := by
  intro hanswers
  have hoverflow :
      parse "340282366920938463463374607431.999999999s" = .error .durationOverflow := by
    decide +kernel
  rcases hanswers "340282366920938463463374607431.999999999s" with ⟨duration, hok⟩ | hbad
  · simp [hoverflow] at hok
  · simp [hoverflow] at hbad

theorem Component.fraction_eq_none (component : Component) (hpoint : '.' ∉ component.text) :
    component.fraction = none := by
  cases hfraction : component.fraction with
  | none => rfl
  | some decimals => exact absurd (by simp [text, numeral, hfraction]) hpoint

theorem Spills.point_mem (hspills : Spills text) : '.' ∈ text := by
  obtain ⟨components, rest, rfl, -, hspilling⟩ := hspills
  obtain ⟨whole, decimals, tail, unit, rest, -⟩ := hspilling
  simp

theorem total_of_no_fraction {components : List Component}
    (hfraction : ∀ component ∈ components, component.fraction = none) :
    total components =
      (components.map fun component => decimal component.whole * component.unit.length).sum := by
  refine congrArg List.sum (List.map_congr_left fun component hmem => ?_)
  rw [Component.nanoseconds, Component.decimals, hfraction component hmem]
  rfl

/-- A text without a point stands for a positive total of its components if that fits 64 bits, and
every other one is a bad duration. -/
theorem parse_of_point_notMem {text : String} (hpoint : '.' ∉ text.toList) :
    (∀ duration, parse text = .ok duration ↔
      ∃ components : List Component, components ≠ [] ∧
        (∀ component ∈ components, component.fraction = none) ∧
        trim text.toList = spell components ∧
        duration = (components.map fun component =>
          decimal component.whole * component.unit.length).sum ∧
        1 ≤ duration ∧ duration ≤ 2 ^ 64 - 1) ∧
    ((∃ duration, parse text = .ok duration) ∨ parse text = .error (.badDuration text)) := by
  have htrim : '.' ∉ trim text.toList := fun hmem => hpoint ((trim_sublist _).mem hmem)
  constructor
  · intro duration
    rw [parse_eq_ok_iff]
    constructor
    · rintro ⟨components, hspell, rfl, hpositive, hlongest⟩
      have hfraction : ∀ component ∈ components, component.fraction = none := by
        intro component hmem
        refine component.fraction_eq_none fun hpoint => htrim ?_
        rw [hspell]
        exact List.mem_flatMap.mpr ⟨component, hmem, hpoint⟩
      refine ⟨components, ?_, hfraction, hspell, total_of_no_fraction hfraction, hpositive,
        hlongest⟩
      rintro rfl
      exact Nat.lt_irrefl 0 hpositive
    · rintro ⟨components, -, hfraction, hspell, rfl, hbounds⟩
      exact ⟨components, hspell, (total_of_no_fraction hfraction).symm, hbounds⟩
  · rcases parse_cases text with hok | hbad | hoverflow
    · exact .inl hok
    · exact .inr hbad
    · exact absurd (parse_eq_overflow_iff.mp hoverflow).point_mem htrim

/-- An hour and a half, and the same with a blank inside. -/
theorem parse_of_point_notMem_samples :
    '.' ∉ " 1h30m ".toList ∧ parse " 1h30m " = .ok 5400000000000 ∧
      '.' ∉ "1h 30m".toList ∧ parse "1h 30m" = .error (.badDuration "1h 30m") := by
  have hwhole : '.' ∉ " 1h30m ".toList := by decide
  have hblank : '.' ∉ "1h 30m".toList := by decide
  refine ⟨hwhole, ?_, hblank, ?_⟩
  · refine ((parse_of_point_notMem hwhole).1 5400000000000).mpr
      ⟨[⟨[1], none, .hour, by simp⟩, ⟨[3, 0], none, .minute, by simp⟩], by simp, by simp, ?_, ?_,
        by decide, by decide⟩
    · decide
    · decide
  · refine (parse_of_point_notMem hblank).2.resolve_left ?_
    rintro ⟨duration, hok⟩
    have hnone : (parse "1h 30m").toOption = none := by decide
    simp [hok, Except.toOption] at hnone

end Fieldbus.DurationText
