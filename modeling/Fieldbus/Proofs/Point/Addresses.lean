import Fieldbus.Point.AddressText
import Fieldbus.Proofs.Text.Digits
import Mathlib.Data.List.Basic

/-!
# What an address text stands for

The notations of an address overlap, and the reader tells them apart by the first two characters,
then by the last one, then by the length.  It is held against the notations themselves: the only
texts that it reads in another way are those of four digits after a plus sign.
-/

namespace Fieldbus.AddressText

open Text

variable {s digits : List Char} {address : UInt16} {number : Nat}

def IsHexadecimal (s : List Char) : Prop :=
  ∃ digits, s = '0' :: 'x' :: digits ∨ s = '0' :: 'X' :: digits

def IsFiveDigits (s : List Char) : Prop := s.length = 5 ∧ ∃ number, Digits 10 s number

/-- A table's digit and the place in the table, counted from one.  There are tables of coils,
discrete inputs, input registers and holding registers. -/
def Tabular (s : List Char) (address : UInt16) : Prop :=
  ∃ c digits table, s = c :: digits ∧ digits.length = 4 ∧ IsDigitOf 10 c table ∧
    table ∈ [0, 1, 3, 4] ∧ Digits 10 digits (address.toNat + 1)

/-- The text stands for the address. -/
inductive Denotes (s : List Char) (address : UInt16) : Prop where
  | hexadecimal (digits : List Char) (hs : s = '0' :: 'x' :: digits ∨ s = '0' :: 'X' :: digits)
      (hnumeral : IsNumeralOf 16 digits address.toNat)
  | decimal (digits : List Char) (hs : s = digits ++ ['d']) (hunmarked : ¬IsHexadecimal s)
      (hnumeral : IsNumeralOf 10 digits address.toNat)
  | tabular (htabular : Tabular s address)
  | plain (hunmarked : ¬IsHexadecimal s) (hbare : s.getLast? ≠ some 'd')
      (hplain : ¬IsFiveDigits s) (hnumeral : IsNumeralOf 10 s address.toNat)

/-- The answer is the address that a text stands for, or names the bad text that was given. -/
structure Follows (given s : List Char) (answer : Except PointError UInt16) : Prop where
  ok_iff : ∀ address, answer = .ok address ↔ Denotes s address
  error_iff : ∀ error, answer = .error error ↔
    error = .badAddress (String.ofList given) ∧ ∀ address, ¬Denotes s address

/-- Four digits after a plus sign. -/
def IsSignedPlace (s : List Char) : Prop :=
  ∃ digits number, s = '+' :: digits ∧ digits.length = 4 ∧ Digits 10 digits number

theorem unsigned?_toUInt16_eq_some_iff {base : Nat} (hbase : base ≤ 16) :
    (unsigned? base maxAddress digits).map UInt16.ofNat = some address ↔
      IsNumeralOf base digits address.toNat := by
  rw [Option.map_eq_some_iff]
  constructor
  · rintro ⟨number, hread, rfl⟩
    obtain ⟨hnumeral, hfits⟩ := (unsigned?_eq_some_iff hbase).mp hread
    rwa [UInt16.toNat_ofNat_of_lt' (Nat.lt_succ_of_le hfits)]
  · intro hnumeral
    exact ⟨address.toNat, (unsigned?_eq_some_iff hbase).mpr
      ⟨hnumeral, Nat.le_pred_of_lt address.toNat_lt⟩, UInt16.ofNat_toNat⟩

theorem hexadecimal?_eq_some_iff :
    hexadecimal? digits = some address ↔ IsNumeralOf 16 digits address.toNat :=
  unsigned?_toUInt16_eq_some_iff (Nat.le_refl 16)

theorem decimal?_eq_some_iff :
    decimal? digits = some address ↔ IsNumeralOf 10 digits address.toNat :=
  unsigned?_toUInt16_eq_some_iff (by decide)

/-- The tables do not overlap, so the first one that a number lies in is the only one. -/
theorem find?_tables_eq_some_iff {first : Nat} :
    (tables.find? fun first => first ≤ number && number < first + tableSize) = some first ↔
      first ∈ tables ∧ first ≤ number ∧ number < first + tableSize := by
  constructor
  · intro hfind
    exact ⟨List.mem_of_find?_eq_some hfind, by simpa using List.find?_some hfind⟩
  · rintro ⟨hmem, hfirst, hlast⟩
    cases hfind : tables.find? fun first => first ≤ number && number < first + tableSize with
    | none =>
        have hout := List.find?_eq_none.mp hfind first hmem
        simp [hfirst, hlast] at hout
    | some other =>
        have hother := List.mem_of_find?_eq_some hfind
        have hwithin : other ≤ number ∧ number < other + tableSize := by
          simpa using List.find?_some hfind
        simp only [tables, tableSize, List.mem_cons, List.not_mem_nil, or_false]
          at hmem hother hlast hwithin
        rw [Option.some.injEq]
        omega

theorem offset?_eq_some_iff : offset? number = some address ↔
    ∃ table ∈ [0, 1, 3, 4], address.toNat < tableSize ∧
      number = table * 10000 + (address.toNat + 1) := by
  have htables (first : Nat) :
      first ∈ tables ↔ ∃ table ∈ [0, 1, 3, 4], first = table * 10000 + 1 := by
    simp [tables]
  simp only [offset?, Option.map_eq_some_iff, find?_tables_eq_some_iff, htables]
  constructor
  · rintro ⟨first, ⟨⟨table, htable, rfl⟩, hfirst, hlast⟩, rfl⟩
    rw [tableSize] at hlast ⊢
    rw [UInt16.toNat_ofNat_of_lt' (show number - (table * 10000 + 1) < 2 ^ 16 by omega)]
    exact ⟨table, htable, by omega, by omega⟩
  · rintro ⟨table, htable, hsize, rfl⟩
    refine ⟨table * 10000 + 1, ⟨⟨table, htable, rfl⟩, by omega, by omega⟩, ?_⟩
    rw [show table * 10000 + (address.toNat + 1) - (table * 10000 + 1) = address.toNat by omega,
      UInt16.ofNat_toNat]

theorem tabular?_of_digits (hdigits : Digits 10 s number) (hlength : s.length = 5) :
    tabular? s = offset? number := by
  have hbound := hdigits.lt_pow
  rw [hlength] at hbound
  have hread : unsigned? 10 (UInt32.size - 1) s = some number :=
    (unsigned?_eq_some_iff (by decide)).mpr ⟨.inl hdigits, by simp [UInt32.size]; omega⟩
  rw [tabular?, hread, Option.bind_some]

theorem Tabular.isFiveDigits (htabular : Tabular s address) : IsFiveDigits s := by
  obtain ⟨c, digits, table, rfl, hfour, hdigit, -, hplace⟩ := htabular
  refine ⟨by simp [hfour], _, (digits_cons_iff (by decide) ?_).mpr
    ⟨table, _, hdigit, hplace, rfl⟩⟩
  exact List.ne_nil_of_length_eq_add_one hfour

theorem tabular_iff (hdigits : Digits 10 s number) (hlength : s.length = 5) :
    Tabular s address ↔ offset? number = some address := by
  obtain ⟨c, digits, rfl⟩ := List.exists_cons_of_length_eq_add_one hlength
  have hfour : digits.length = 4 := Nat.succ.inj hlength
  have hsome : digits ≠ [] := List.ne_nil_of_length_eq_add_one hfour
  rw [offset?_eq_some_iff]
  constructor
  · rintro ⟨_, _, table, hs, -, hdigit, htable, hplace⟩
    obtain ⟨rfl, rfl⟩ := List.cons.inj hs
    have hbound := hplace.lt_pow
    rw [hfour] at hbound
    refine ⟨table, htable, by rw [tableSize]; omega, ?_⟩
    refine hdigits.unique (by decide) ((digits_cons_iff (by decide) hsome).mpr
      ⟨table, _, hdigit, hplace, ?_⟩)
    rw [hfour]
    norm_num
  · rintro ⟨table, htable, hsize, rfl⟩
    obtain ⟨value, place, hdigit, hplace, hnumber⟩ :=
      (digits_cons_iff (by decide) hsome).mp hdigits
    have hbound := hplace.lt_pow
    rw [hfour] at hnumber hbound
    rw [tableSize] at hsize
    obtain ⟨rfl, rfl⟩ : value = table ∧ place = address.toNat + 1 := by omega
    exact ⟨c, digits, value, rfl, hfour, hdigit, htable, hplace⟩

theorem IsFiveDigits.not_mem {c : Char} (hfive : IsFiveDigits s) (hnone : digitValue? 10 c = none) :
    c ∉ s := by
  obtain ⟨-, number, hdigits⟩ := hfive
  exact hdigits.not_mem (by decide) hnone

theorem IsFiveDigits.not_isHexadecimal (hfive : IsFiveDigits s) : ¬IsHexadecimal s := by
  rintro ⟨digits, rfl | rfl⟩
  · exact hfive.not_mem (c := 'x') rfl (by simp)
  · exact hfive.not_mem (c := 'X') rfl (by simp)

theorem IsFiveDigits.getLast?_ne (hfive : IsFiveDigits s) : s.getLast? ≠ some 'd' := fun hlast =>
  hfive.not_mem rfl (List.mem_of_getLast? hlast)

theorem denotes_of_isFiveDigits (hfive : IsFiveDigits s) :
    Denotes s address ↔ Tabular s address := by
  refine ⟨fun hdenotes => ?_, .tabular⟩
  cases hdenotes with
  | hexadecimal digits hs => exact absurd ⟨digits, hs⟩ hfive.not_isHexadecimal
  | decimal digits hs => exact absurd (by simp [hs]) hfive.getLast?_ne
  | tabular htabular => exact htabular
  | plain hunmarked hbare hplain => exact absurd hfive hplain

theorem denotes_of_isHexadecimal (hs : s = '0' :: 'x' :: digits ∨ s = '0' :: 'X' :: digits) :
    Denotes s address ↔ IsNumeralOf 16 digits address.toNat := by
  have hmarked : IsHexadecimal s := ⟨digits, hs⟩
  refine ⟨fun hdenotes => ?_, .hexadecimal digits hs⟩
  cases hdenotes with
  | hexadecimal others hothers hnumeral =>
      obtain rfl : others = digits := by
        rcases hs with rfl | rfl <;> rcases hothers with hsame | hsame <;> simp_all
      exact hnumeral
  | decimal _ _ hunmarked => exact absurd hmarked hunmarked
  | tabular htabular => exact absurd hmarked htabular.isFiveDigits.not_isHexadecimal
  | plain hunmarked => exact absurd hmarked hunmarked

theorem denotes_of_suffix (hs : s = digits ++ ['d']) (hunmarked : ¬IsHexadecimal s) :
    Denotes s address ↔ IsNumeralOf 10 digits address.toNat := by
  have hlast : s.getLast? = some 'd' := by simp [hs]
  refine ⟨fun hdenotes => ?_, .decimal digits hs hunmarked⟩
  cases hdenotes with
  | hexadecimal others hothers => exact absurd ⟨others, hothers⟩ hunmarked
  | decimal others hothers _ hnumeral =>
      rwa [List.append_cancel_right (hs.symm.trans hothers)]
  | tabular htabular => exact absurd hlast htabular.isFiveDigits.getLast?_ne
  | plain _ hbare => exact absurd hlast hbare

theorem denotes_of_plain (hunmarked : ¬IsHexadecimal s) (hbare : s.getLast? ≠ some 'd')
    (hplain : ¬IsFiveDigits s) : Denotes s address ↔ IsNumeralOf 10 s address.toNat := by
  refine ⟨fun hdenotes => ?_, .plain hunmarked hbare hplain⟩
  cases hdenotes with
  | hexadecimal digits hs => exact absurd ⟨digits, hs⟩ hunmarked
  | decimal digits hs => exact absurd (by simp [hs]) hbare
  | tabular htabular => exact absurd htabular.isFiveDigits hplain
  | plain _ _ _ hnumeral => exact hnumeral

theorem read?_of_unmarked (hunmarked : ¬IsHexadecimal s) : read? s =
    if s.getLast? = some 'd' then decimal? s.dropLast
    else if s.length = 5 then tabular? s else decimal? s := by
  unfold read?
  split
  · next digits => exact absurd ⟨digits, .inl rfl⟩ hunmarked
  · next digits => exact absurd ⟨digits, .inr rfl⟩ hunmarked
  · rfl

/-- Five characters that are a numeral are digits, unless the first one is a sign. -/
theorem isFiveDigits_of_numeral (hsigned : ¬IsSignedPlace s) (hlength : s.length = 5)
    (hnumeral : IsNumeralOf 10 s number) : IsFiveDigits s := by
  rcases hnumeral with hdigits | ⟨digits, rfl, hdigits⟩
  · exact ⟨hlength, number, hdigits⟩
  · exact absurd ⟨digits, number, rfl, Nat.succ.inj hlength, hdigits⟩ hsigned

theorem tabular?_eq_none (hnumeral : ∀ number, ¬IsNumeralOf 10 s number) : tabular? s = none := by
  rw [tabular?, Option.bind_eq_none_iff]
  intro number hread
  exact absurd ((unsigned?_eq_some_iff (by decide)).mp hread).1 (hnumeral number)

/-- The reader takes a text in the notation that it is in. -/
theorem read?_eq_some_iff (hsigned : ¬IsSignedPlace s) :
    read? s = some address ↔ Denotes s address := by
  by_cases hmarked : IsHexadecimal s
  · obtain ⟨digits, hs⟩ := hmarked
    rw [denotes_of_isHexadecimal hs, ← hexadecimal?_eq_some_iff]
    rcases hs with rfl | rfl <;> rfl
  rw [read?_of_unmarked hmarked]
  split
  · next hlast =>
      have hs : s = s.dropLast ++ ['d'] := (List.dropLast_append_getLast? 'd' hlast).symm
      rw [denotes_of_suffix hs hmarked, decimal?_eq_some_iff]
  · next hbare =>
      by_cases hfive : IsFiveDigits s
      · obtain ⟨hlength, number, hdigits⟩ := hfive
        rw [if_pos hlength, tabular?_of_digits hdigits hlength,
          denotes_of_isFiveDigits ⟨hlength, number, hdigits⟩, tabular_iff hdigits hlength]
      · rw [denotes_of_plain hmarked hbare hfive]
        split
        · next hlength =>
            have hnone (number : Nat) : ¬IsNumeralOf 10 s number := fun hnumeral =>
              hfive (isFiveDigits_of_numeral hsigned hlength hnumeral)
            simp [tabular?_eq_none hnone, hnone]
        · exact decimal?_eq_some_iff

/-- Four digits after a plus sign are read like four digits after a zero. -/
theorem read?_signed (hlength : digits.length = 4) (hdigits : Digits 10 digits number) :
    read? ('+' :: digits) = read? ('0' :: digits) := by
  have hzero : Digits 10 ('0' :: digits) number :=
    (digits_cons_iff (by decide) hdigits.ne_nil).mpr
      ⟨0, number, ⟨by decide, .inl rfl⟩, hdigits, by simp⟩
  have hfive : IsFiveDigits ('0' :: digits) := ⟨by simp [hlength], number, hzero⟩
  have hbare : digits.getLast? ≠ some 'd' := fun hlast =>
    hfive.not_mem (c := 'd') rfl (List.mem_cons_of_mem _ (List.mem_of_getLast? hlast))
  have hlast (c : Char) : (c :: digits).getLast? = digits.getLast? := by
    obtain ⟨first, rest, rfl⟩ := List.exists_cons_of_ne_nil hdigits.ne_nil
    exact List.getLast?_cons_cons
  have hread {s : List Char} (hunmarked : ¬IsHexadecimal s) (hlast : s.getLast? = digits.getLast?)
      (hfive : s.length = 5) (hnumeral : IsNumeralOf 10 s number) : read? s = offset? number := by
    have hbound := hdigits.lt_pow
    rw [hlength] at hbound
    have hnumber : unsigned? 10 (UInt32.size - 1) s = some number :=
      (unsigned?_eq_some_iff (by decide)).mpr ⟨hnumeral, by simp [UInt32.size]; omega⟩
    rw [read?_of_unmarked hunmarked, hlast, if_neg hbare, if_pos hfive, tabular?, hnumber,
      Option.bind_some]
  have hplus : ¬IsHexadecimal ('+' :: digits) := by simp [IsHexadecimal]
  rw [hread hplus (hlast '+') (by simp [hlength]) (.inr ⟨digits, rfl, hdigits⟩),
    hread hfive.not_isHexadecimal (hlast '0') (by simp [hlength]) (.inl hzero)]

theorem follows_of_read? {text : String}
    (hread : ∀ address, read? (trim text.toList) = some address ↔ Denotes s address) :
    Follows (trim text.toList) s (parse text) := by
  rw [parse]
  cases hanswer : read? (trim text.toList) with
  | none =>
      have hnone (address : UInt16) : ¬Denotes s address := by simp [← hread, hanswer]
      refine ⟨fun address => by simp [hnone], fun error => ?_⟩
      rw [and_iff_left hnone]
      exact ⟨fun hsame => (Except.error.inj hsame).symm, fun hsame => hsame ▸ rfl⟩
  | some address =>
      have hsome := (hread address).mp hanswer
      refine ⟨fun other => ?_, fun error => ?_⟩
      · rw [← hread, hanswer, Except.ok.injEq, Option.some.injEq]
      · exact ⟨fun hsame => by simp at hsame, fun hnone => absurd hsome (hnone.2 address)⟩

/-- An address text is read in the notation that it is in, and refused if it stands for no address.
Four digits after a plus sign, which are a plain number, are read as if they stood behind the zero
of the table of coils. -/
theorem parse_follows (text : String) :
    (¬IsSignedPlace (trim text.toList) →
      Follows (trim text.toList) (trim text.toList) (parse text)) ∧
    ∀ digits number, trim text.toList = '+' :: digits → digits.length = 4 →
      Digits 10 digits number → Follows (trim text.toList) ('0' :: digits) (parse text) := by
  constructor
  · intro hsigned
    exact follows_of_read? fun address => read?_eq_some_iff hsigned
  · intro digits number hs hlength hdigits
    refine follows_of_read? fun address => ?_
    rw [hs, read?_signed hlength hdigits]
    exact read?_eq_some_iff (by simp [IsSignedPlace])

/-- The tenth input register, and a signed number that is read as the first coil. -/
theorem parse_follows_samples :
    (trim " 30010 ".toList = "30010".toList ∧ Denotes "30010".toList 9 ∧
      parse " 30010 " = .ok 9) ∧
    trim "+0001".toList = '+' :: "0001".toList ∧ "0001".toList.length = 4 ∧
      Digits 10 "0001".toList 1 ∧ parse "+0001" = .ok 0 ∧ Denotes ('0' :: "0001".toList) 0 := by
  have hdigits : Digits 10 "0001".toList 1 := (digits?_eq_some_iff (by decide)).mp (by decide)
  have htrim : trim " 30010 ".toList = "30010".toList := by decide
  have hunsigned : ¬IsSignedPlace (trim " 30010 ".toList) := by
    rw [htrim]
    simp [IsSignedPlace]
  have hplace : parse " 30010 " = .ok 9 := by decide
  have hsigned : parse "+0001" = .ok 0 := by decide
  have hfirst := (parse_follows " 30010 ").1 hunsigned
  have hsecond := (parse_follows "+0001").2 "0001".toList 1 (by decide) (by decide) hdigits
  exact ⟨⟨htrim, htrim ▸ (hfirst.ok_iff 9).mp hplace, hplace⟩, by decide, by decide, hdigits,
    hsigned, (hsecond.ok_iff 0).mp hsigned⟩

/-- Not every text is read in its own notation: this one is the plain number one. -/
theorem not_parse_follows_signed :
    ¬∀ text, Follows (trim text.toList) (trim text.toList) (parse text) := by
  intro hfollows
  have hnumeral : IsNumeralOf 10 "+0001".toList 1 :=
    .inr ⟨"0001".toList, rfl, (digits?_eq_some_iff (by decide)).mp (by decide)⟩
  have hplain : Denotes "+0001".toList 1 := by
    refine .plain (by simp [IsHexadecimal]) (by decide) (fun hfive => ?_) hnumeral
    exact hfive.not_mem (digitValue?_plus 10) (by decide)
  have hone : parse "+0001" = .ok 1 := ((hfollows "+0001").ok_iff 1).mpr hplain
  have hzero : parse "+0001" = .ok 0 := by decide
  simp [hzero] at hone

end Fieldbus.AddressText
