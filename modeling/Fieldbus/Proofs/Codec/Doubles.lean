import Fieldbus.Binary.Double
import Mathlib.Algebra.Group.Nat.Defs
import Mathlib.Data.Nat.Log

/-!
# Integers as doubles

The double nearest to a quotient is read back as it has been rounded.  An integer of 64 bits that
needs all of them is rounded to a multiple of 2048, and one that is larger stays larger.
-/

namespace Fieldbus

namespace Binary

variable {numerator denominator : Nat}

theorem div_le_nearestEven (numerator denominator : Nat) :
    numerator / denominator ≤ nearestEven numerator denominator := by
  rw [nearestEven]
  split
  · exact Nat.le_refl _
  · split
    · exact Nat.le_succ _
    · exact Nat.le_add_right _ _

theorem nearestEven_le (numerator denominator : Nat) :
    nearestEven numerator denominator ≤ numerator / denominator + 1 := by
  have hparity := Nat.mod_lt (numerator / denominator) (Nat.succ_pos 1)
  rw [nearestEven]
  split
  · exact Nat.le_succ _
  · split
    · exact Nat.le_refl _
    · omega

/-- Rounding loses at most half a unit. -/
theorem le_nearestEven_mul (numerator : Nat) (hpositive : 0 < denominator) :
    2 * numerator ≤ 2 * (nearestEven numerator denominator * denominator) + denominator := by
  have hparts := Nat.div_add_mod' numerator denominator
  have hless := Nat.mod_lt numerator hpositive
  rw [nearestEven]
  generalize numerator / denominator = quotient at hparts ⊢
  generalize numerator % denominator = remainder at hparts hless ⊢
  split
  · omega
  · split
    · rw [Nat.add_mul]
      omega
    · rw [Nat.add_mul]
      omega

/-- Rounding only depends on the quotient. -/
theorem nearestEven_mul_mul {factor : Nat} (hfactor : 0 < factor) :
    nearestEven (numerator * factor) (denominator * factor) =
      nearestEven numerator denominator := by
  have hless (left right : Nat) : left * factor < right * factor ↔ left < right :=
    Nat.mul_lt_mul_right hfactor
  simp only [nearestEven, Nat.mul_div_mul_right _ _ hfactor, Nat.mul_mod_mul_right,
    ← Nat.mul_assoc, hless, gt_iff_lt]

variable {negative : Bool} {exponent fraction magnitude : Nat}

theorem double_fields (negative : Bool) (exponent fraction : Nat) :
    double.fields negative exponent fraction =
      ((if negative then 2 ^ 11 else 0) + exponent) * 2 ^ 52 + fraction := by
  rw [Format.fields, Nat.shiftLeft_eq]
  rfl

theorem double_fields_lt (negative : Bool) (hexponent : exponent < 2 ^ 11)
    (hfraction : fraction < 2 ^ 52) : double.fields negative exponent fraction < 2 ^ 64 := by
  rw [double_fields]
  split <;> omega

/-- The fields of a double can be told apart. -/
theorem decode_fields (negative : Bool) (hexponent : exponent < 2 ^ 11)
    (hfraction : fraction < 2 ^ 52) :
    double.decode (double.fields negative exponent fraction) =
      if exponent = 2047 then
        if fraction = 0 then .infinite negative else .notANumber negative fraction
      else if exponent = 0 then .finite negative fraction
      else .finite negative ((2 ^ 52 + fraction) <<< (exponent - 1)) := by
  have hunit : 1 <<< double.fractionBits = 2 ^ 52 := rfl
  have hsize : 1 <<< double.exponentBits = 2 ^ 11 := rfl
  have htop : double.topExponent = 2047 := rfl
  have hlow : double.fields negative exponent fraction % 2 ^ 52 = fraction := by
    rw [double_fields]
    omega
  have hmiddle : (double.fields negative exponent fraction >>> double.fractionBits) % 2 ^ 11 =
      exponent := by
    rw [double_fields, Nat.shiftRight_eq_div_pow, show double.fractionBits = 52 from rfl]
    split <;> omega
  have hhigh : (double.fields negative exponent fraction).testBit
      (double.fractionBits + double.exponentBits) = negative := by
    rw [double_fields, Nat.testBit_eq_decide_div_mod_eq,
      show double.fractionBits + double.exponentBits = 63 from rfl]
    cases negative with
    | true => exact decide_eq_true (by simp only [if_true]; omega)
    | false => exact decide_eq_false (by simp only [Bool.false_eq_true, if_false]; omega)
  simp only [Format.decode, hunit, hsize, htop, hlow, hmiddle, hhigh]

/-- The magnitude has no more bits than a significand, and it is not too large. -/
structure IsDouble (magnitude : Nat) : Prop where
  aligned : 2 ^ double.lastBit magnitude ∣ magnitude
  bounded : magnitude ≤ double.largest

theorem double_lastBit (magnitude : Nat) : double.lastBit magnitude = magnitude.log2 - 52 := by
  rw [Format.lastBit, show double.precision = 53 from rfl]
  omega

theorem Format.largest_lt (format : Format) :
    format.largest < 2 ^ (format.precision + (format.topExponent - 2)) := by
  rw [largest, Nat.shiftLeft_eq, Nat.one_shiftLeft, Nat.pow_add]
  exact Nat.mul_lt_mul_of_pos_right (Nat.sub_one_lt (Nat.two_pow_pos _).ne') (Nat.two_pow_pos _)

theorem Format.log2_lt {format : Format} (hpositive : 0 < magnitude)
    (hbounded : magnitude ≤ format.largest) :
    magnitude.log2 < format.precision + (format.topExponent - 2) :=
  (Nat.log2_lt hpositive.ne').mpr (Nat.lt_of_le_of_lt hbounded format.largest_lt)

theorem Format.two_pow_le_largest {format : Format} {exponent : Nat}
    (hprecision : 0 < format.precision) (hexponent : exponent ≤ format.topExponent - 2) :
    2 ^ exponent ≤ format.largest := by
  have hsignificand : 0 < 2 ^ format.precision - 1 :=
    Nat.sub_pos_of_lt (Nat.one_lt_two_pow hprecision.ne')
  rw [largest, Nat.shiftLeft_eq, Nat.one_shiftLeft]
  calc 2 ^ exponent
    _ ≤ 2 ^ (format.topExponent - 2) := Nat.pow_le_pow_right Nat.two_pos hexponent
    _ ≤ (2 ^ format.precision - 1) * 2 ^ (format.topExponent - 2) :=
      Nat.le_mul_of_pos_left _ hsignificand

/-- A number of the format has a pattern of its own. -/
theorem decode_encode_finite (hdouble : IsDouble magnitude) :
    double.decode (double.encode (.finite negative magnitude)) = .finite negative magnitude ∧
      double.encode (.finite negative magnitude) < 2 ^ 64 := by
  rw [Format.encode, show 1 <<< double.fractionBits = 2 ^ 52 from rfl]
  split
  · next hsmall =>
      rw [decode_fields negative (by decide) hsmall]
      exact ⟨rfl, double_fields_lt negative (by decide) hsmall⟩
  · next hlarge =>
      have hpositive : 0 < magnitude := by omega
      have hlog : 52 ≤ magnitude.log2 := (Nat.le_log2 hpositive.ne').mpr (Nat.le_of_not_lt hlarge)
      have htop : magnitude.log2 < 53 + 2045 := Format.log2_lt hpositive hdouble.bounded
      have haligned := hdouble.aligned
      have hlow := Nat.log2_self_le hpositive.ne'
      have hhigh := Nat.lt_log2_self (n := magnitude)
      obtain ⟨shift, hshift⟩ := Nat.exists_eq_add_of_le hlog
      rw [double_lastBit, hshift, Nat.add_sub_cancel_left] at haligned ⊢
      rw [hshift, Nat.add_comm, Nat.pow_add] at hlow
      rw [hshift, Nat.add_comm 52, Nat.add_assoc, Nat.pow_add] at hhigh
      obtain ⟨significand, rfl⟩ := haligned
      have hlower : 2 ^ 52 ≤ significand := Nat.le_of_mul_le_mul_left hlow (Nat.two_pow_pos shift)
      have hupper : significand < 2 ^ 53 := Nat.lt_of_mul_lt_mul_left hhigh
      dsimp only
      rw [Nat.shiftRight_eq_div_pow, Nat.mul_div_cancel_left _ (Nat.two_pow_pos shift)]
      have hexponent : shift + 1 < 2047 := by omega
      have hfraction : significand - 2 ^ 52 < 2 ^ 52 := by omega
      refine ⟨?_, double_fields_lt negative (by omega) hfraction⟩
      rw [decode_fields negative (by omega) hfraction, if_neg hexponent.ne,
        if_neg (Nat.succ_ne_zero _), Nat.add_sub_of_le hlower, Nat.shiftLeft_eq, Nat.add_sub_cancel,
        Nat.mul_comm]

theorem double_lastBit_le {shift : Nat} (hless : magnitude < 2 ^ (53 + shift)) :
    double.lastBit magnitude ≤ shift := by
  rw [double_lastBit]
  rcases Nat.eq_zero_or_pos magnitude with rfl | hpositive
  · exact Nat.zero_le shift
  · have hlog := (Nat.log2_lt hpositive.ne').mpr hless
    omega

theorem isDouble_mul_two_pow {significand shift : Nat} (hsignificand : significand ≤ 2 ^ 53)
    (hbounded : significand * 2 ^ shift ≤ double.largest) :
    IsDouble (significand * 2 ^ shift) := by
  refine ⟨?_, hbounded⟩
  rcases Nat.lt_or_eq_of_le hsignificand with hless | rfl
  · have hlast : double.lastBit (significand * 2 ^ shift) ≤ shift := by
      apply double_lastBit_le
      rw [Nat.pow_add]
      exact Nat.mul_lt_mul_of_pos_right hless (Nat.two_pow_pos shift)
    exact Nat.dvd_mul_left_of_dvd (Nat.pow_dvd_pow 2 hlast) significand
  · rw [← Nat.pow_add, double_lastBit, Nat.log2_two_pow]
    exact Nat.pow_dvd_pow 2 (by omega)

/-- The quotient in units of the last bit has no more bits than a significand. -/
theorem div_two_pow_lastBit_lt (quotient : Nat) :
    quotient / 2 ^ double.lastBit quotient < 2 ^ 53 := by
  have hless := Nat.lt_log2_self (n := quotient)
  rw [Nat.div_lt_iff_lt_mul (Nat.two_pow_pos _), ← Nat.pow_add, double_lastBit]
  exact Nat.lt_of_lt_of_le hless (Nat.pow_le_pow_right Nat.two_pos (by omega))

/-- Rounding does not lead below a power of two. -/
theorem two_pow_le_rounded {exponent : Nat} (hpower : 2 ^ exponent ≤ numerator / denominator) :
    2 ^ exponent ≤ nearestEven numerator
      (denominator * 2 ^ double.lastBit (numerator / denominator)) *
        2 ^ double.lastBit (numerator / denominator) := by
  have hfloor := div_le_nearestEven numerator
    (denominator * 2 ^ double.lastBit (numerator / denominator))
  rw [← Nat.div_div_eq_div_mul] at hfloor
  generalize numerator / denominator = quotient at *
  have hnonzero : quotient ≠ 0 := (Nat.lt_of_lt_of_le (Nat.two_pow_pos _) hpower).ne'
  have hexponent : exponent ≤ quotient.log2 := (Nat.le_log2 hnonzero).mpr hpower
  have hlast : double.lastBit quotient ≤ quotient.log2 := by
    rw [double_lastBit]
    exact Nat.sub_le _ _
  have hleading : 2 ^ quotient.log2 =
      2 ^ (quotient.log2 - double.lastBit quotient) * 2 ^ double.lastBit quotient := by
    rw [← Nat.pow_add, Nat.sub_add_cancel hlast]
  calc 2 ^ exponent
    _ ≤ 2 ^ quotient.log2 := Nat.pow_le_pow_right Nat.two_pos hexponent
    _ = 2 ^ (quotient.log2 - double.lastBit quotient) * 2 ^ double.lastBit quotient := hleading
    _ ≤ quotient / 2 ^ double.lastBit quotient * 2 ^ double.lastBit quotient := by
      apply Nat.mul_le_mul_right
      rw [Nat.le_div_iff_mul_le (Nat.two_pow_pos _), ← hleading]
      exact Nat.log2_self_le hnonzero
    _ ≤ _ := Nat.mul_le_mul_right _ hfloor

/-- A quotient that is rounded becomes infinite, or it stays above every power of two that it has
reached. -/
theorem round_cases (negative : Bool) (numerator denominator : Nat) :
    double.round negative numerator denominator = .infinite negative ∨
      ∃ magnitude, double.round negative numerator denominator = .finite negative magnitude ∧
        ∀ exponent, 2 ^ exponent ≤ numerator / denominator → 2 ^ exponent ≤ magnitude := by
  rw [Format.round, Nat.one_shiftLeft]
  split
  · exact .inr ⟨_, rfl, fun _ => two_pow_le_rounded⟩
  · exact .inl rfl

/-- What has been rounded is read back as it is. -/
theorem decode_encode_round (negative : Bool) (numerator denominator : Nat) :
    double.decode (double.encode (double.round negative numerator denominator)) =
        double.round negative numerator denominator ∧
      double.encode (double.round negative numerator denominator) < 2 ^ 64 := by
  have hsignificand : nearestEven numerator
      (denominator * 2 ^ double.lastBit (numerator / denominator)) ≤ 2 ^ 53 := by
    calc nearestEven numerator (denominator * 2 ^ double.lastBit (numerator / denominator))
      _ ≤ numerator / denominator / 2 ^ double.lastBit (numerator / denominator) + 1 :=
        Nat.div_div_eq_div_mul .. ▸ nearestEven_le ..
      _ ≤ 2 ^ 53 := div_two_pow_lastBit_lt _
  rw [Format.round, Nat.one_shiftLeft]
  split
  · next hbounded => exact decode_encode_finite (isDouble_mul_two_pow hsignificand hbounded)
  · exact ⟨decode_fields negative (by decide) (by decide),
      double_fields_lt negative (by decide) (by decide)⟩

end Binary

namespace Double

open Binary

theorem datum_ofRatio (negative : Bool) (numerator denominator : Nat) :
    (ofRatio negative numerator denominator).datum =
      Binary.double.round negative (numerator * Binary.double.one) denominator := by
  obtain ⟨hdecode, hless⟩ :=
    decode_encode_round negative (numerator * Binary.double.one) denominator
  rw [ofRatio, ofDatum, datum, UInt64.toNat_ofNat_of_lt' hless, hdecode]

theorem double_one : Binary.double.one = 2 ^ Binary.double.unitExponent := Nat.one_shiftLeft _

theorem toInt?_of_infinite {x : Double} {negative : Bool} (hdatum : x.datum = .infinite negative) :
    x.toInt? = none := by
  simp only [toInt?, hdatum]

theorem toInt?_of_finite {x : Double} {negative : Bool} {magnitude whole : Nat}
    (hdatum : x.datum = .finite negative magnitude)
    (hwhole : (2 * magnitude + Binary.double.one) / (2 * Binary.double.one) = whole) :
    x.toInt? = some (if negative then -(whole : Int) else whole) := by
  simp only [toInt?, hdatum, hwhole]

theorem rounded_mul {unit : Nat} (hunit : 0 < unit) (whole : Nat) :
    (2 * (whole * unit) + unit) / (2 * unit) = whole := by
  rw [← Nat.mul_assoc, Nat.mul_right_comm, Nat.add_comm, Nat.add_mul_div_left _ _ (by omega),
    Nat.div_eq_of_lt (by omega), Nat.zero_add]

theorem le_rounded_of_mul_le {least magnitude unit : Nat} (hunit : 0 < unit)
    (hle : least * unit ≤ magnitude) : least ≤ (2 * magnitude + unit) / (2 * unit) := by
  rw [Nat.le_div_iff_mul_le (by omega), Nat.mul_left_comm]
  omega

variable {value : Nat}

theorem log2_mul_one (hnonzero : value ≠ 0) :
    (value * Binary.double.one).log2 = value.log2 + Binary.double.unitExponent := by
  have hone : 0 < Binary.double.one := double_one ▸ Nat.two_pow_pos _
  rw [Nat.log2_eq_iff (Nat.mul_ne_zero hnonzero hone.ne'), double_one, Nat.add_right_comm,
    Nat.pow_add, Nat.pow_add 2 (value.log2 + 1)]
  exact ⟨Nat.mul_le_mul_right _ (Nat.log2_self_le hnonzero),
    Nat.mul_lt_mul_of_pos_right Nat.lt_log2_self (Nat.two_pow_pos _)⟩

/-- An integer of 64 bits that needs all of them is rounded to a multiple of 2048. -/
theorem toInt?_ofRatio_of_wide (negative : Bool) (hlow : 2 ^ 63 ≤ value) (hhigh : value < 2 ^ 64) :
    (ofRatio negative value 1).toInt? =
      some (if negative then -((nearestEven value 2048 * 2048 : Nat) : Int)
        else (nearestEven value 2048 * 2048 : Nat)) := by
  have hlog : value.log2 = 63 := (Nat.log2_eq_iff (by omega)).mpr ⟨hlow, hhigh⟩
  have hlast : Binary.double.lastBit (value * Binary.double.one / 1) =
      11 + Binary.double.unitExponent := by
    rw [Nat.div_one, double_lastBit, log2_mul_one (by omega), hlog]
    omega
  have hstep : 1 <<< (11 + Binary.double.unitExponent) = 2048 * Binary.double.one := by
    rw [Nat.one_shiftLeft, Nat.pow_add, double_one]
  have hone : 0 < Binary.double.one := double_one ▸ Nat.two_pow_pos _
  have hbounded : nearestEven value 2048 * 2048 * Binary.double.one ≤ Binary.double.largest := by
    have hrounded : nearestEven value 2048 ≤ 2 ^ 53 := by
      have hnext := nearestEven_le value 2048
      omega
    calc nearestEven value 2048 * 2048 * Binary.double.one
      _ ≤ 2 ^ 64 * Binary.double.one := Nat.mul_le_mul_right _ (by omega)
      _ = 2 ^ (64 + Binary.double.unitExponent) := by rw [double_one, Nat.pow_add]
      _ ≤ Binary.double.largest := Format.two_pow_le_largest (by decide) (by decide)
  refine toInt?_of_finite ?_ (rounded_mul hone _)
  rw [datum_ofRatio, Format.round, hlast, hstep, Nat.one_mul, nearestEven_mul_mul hone,
    ← Nat.mul_assoc]
  exact if_pos hbounded

/-- A larger integer stays larger, or it becomes infinite. -/
theorem toInt?_ofRatio_of_huge (negative : Bool) (hhuge : 2 ^ 64 ≤ value) :
    (ofRatio negative value 1).toInt? = none ∨ ∃ whole : Nat, 2 ^ 64 ≤ whole ∧
      (ofRatio negative value 1).toInt? = some (if negative then -(whole : Int) else whole) := by
  have hone : 0 < Binary.double.one := double_one ▸ Nat.two_pow_pos _
  have hdatum := datum_ofRatio negative value 1
  rcases round_cases negative (value * Binary.double.one) 1 with
    hround | ⟨magnitude, hround, hkeeps⟩
  · exact .inl (toInt?_of_infinite (hdatum.trans hround))
  · right
    have hlarge : 2 ^ 64 * Binary.double.one ≤ magnitude := by
      rw [double_one, ← Nat.pow_add]
      apply hkeeps
      rw [Nat.div_one, Nat.pow_add, double_one]
      exact Nat.mul_le_mul_right _ hhuge
    exact ⟨_, le_rounded_of_mul_le hone hlarge, toInt?_of_finite (hdatum.trans hround) rfl⟩

end Double

end Fieldbus
