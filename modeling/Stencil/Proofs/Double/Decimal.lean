import Stencil.Double.Shortest
import Stencil.Proofs.Double.Rounding

/-! Decimals that read back as a number.

A decimal reads as the number that it is nearest to, however it is split into digits and
a scale. The shortest decimal of a number is such a decimal: on the grid of seventeen
digits, two neighbours are closer than the ends of the interval around the number.
-/

set_option autoImplicit false

namespace Stencil.Double

/-- The value of a decimal. -/
def Decimal.value (decimal : Decimal) : ℚ :=
  decimal.digits * 10 ^ decimal.scale

theorem zpow_ten_pos (power : Int) : (0 : ℚ) < 10 ^ power :=
  zpow_pos (by norm_num) power

/-- The number of decimal digits bounds a number from both sides. -/
theorem toDigits_bounds {n : Nat} (some : 0 < n) :
    (10 : ℚ) ^ (((Nat.toDigits 10 n).length : Int) - 1) ≤ n ∧
      (n : ℚ) < 10 ^ ((Nat.toDigits 10 n).length : Int) := by
  have positive : 0 < (Nat.toDigits 10 n).length := Nat.length_toDigits_pos
  constructor
  · have low : 10 ^ ((Nat.toDigits 10 n).length - 1) ≤ n := by
      by_contra less
      rcases Nat.eq_zero_or_pos ((Nat.toDigits 10 n).length - 1) with one | more
      · rw [one] at less
        omega
      · have := (Nat.length_toDigits_le_iff (by decide) more).2 (not_le.1 less)
        omega
    have same : ((Nat.toDigits 10 n).length : Int) - 1 = ((Nat.toDigits 10 n).length - 1 : Nat) := by
      omega
    rw [same, zpow_natCast]
    exact_mod_cast low
  · have high : n < 10 ^ (Nat.toDigits 10 n).length :=
      (Nat.length_toDigits_le_iff (by decide) positive).1 (le_refl _)
    rw [zpow_natCast]
    exact_mod_cast high

/-- The length of its digits and its scale bound a decimal from both sides. -/
theorem Decimal.value_bounds {decimal : Decimal} (some : 0 < decimal.digits) :
    (10 : ℚ) ^ ((Nat.toDigits 10 decimal.digits).length + decimal.scale - 1) ≤ decimal.value ∧
      decimal.value < 10 ^ ((Nat.toDigits 10 decimal.digits).length + decimal.scale) := by
  obtain ⟨low, high⟩ := toDigits_bounds some
  have unit := zpow_ten_pos decimal.scale
  constructor
  · have split : ((Nat.toDigits 10 decimal.digits).length : Int) + decimal.scale - 1 =
        ((Nat.toDigits 10 decimal.digits).length : Int) - 1 + decimal.scale := by ring
    rw [split, zpow_add₀ (by norm_num), value]
    gcongr
  · rw [zpow_add₀ (by norm_num), value]
    gcongr

section

variable {x : Double} {value : ℚ}

/-- Half the least number is more than the least power of ten that is read, -/
theorem least_power : (10 : ℚ) ^ (-330 : Int) < 2 ^ (-1075 : Int) := by
  have powers : (2 : ℕ) ^ 1075 < 10 ^ 330 := by decide +kernel
  have powers : (2 : ℚ) ^ 1075 < 10 ^ 330 := by exact_mod_cast powers
  rw [zpow_neg, zpow_neg]
  exact (inv_lt_inv₀ (zpow_ten_pos 330) (zpow_pos (by norm_num) _)).2 (by exact_mod_cast powers)

/-- and all numbers are less than the greatest one. -/
theorem greatest_power : (2 : ℚ) ^ (1024 : Int) < 10 ^ (310 : Int) := by
  have powers : (2 : ℕ) ^ 1024 < 10 ^ 310 := by decide +kernel
  exact_mod_cast powers

/-- What is nearest to a number other than zero lies within the range of the format. -/
theorem Nearest.range (canonical : x.Canonical) (some : 0 < x.significand)
    (nearest : x.Nearest value) : (10 : ℚ) ^ (-330 : Int) < value ∧ value < 10 ^ (310 : Int) := by
  constructor
  · refine lt_of_lt_of_le ?_ nearest.low
    have significand : (1 / 2 : ℚ) ≤ x.significand - x.gap := by
      have one : (1 : ℚ) ≤ x.significand := by exact_mod_cast some
      have := gap_le x
      linarith
    have power : (2 : ℚ) ^ (-1074 : Int) ≤ 2 ^ x.exponent :=
      zpow_le_zpow_right₀ (by norm_num) canonical.least
    have half : (2 : ℚ) ^ (-1075 : Int) = 1 / 2 * 2 ^ (-1074 : Int) := by
      rw [show (-1075 : Int) = -1074 - 1 by norm_num, zpow_sub_one₀ (by norm_num)]
      ring
    have positive : (0 : ℚ) ≤ 2 ^ (-1074 : Int) := (zpow_pos (by norm_num) _).le
    calc (10 : ℚ) ^ (-330 : Int) < 2 ^ (-1075 : Int) := least_power
      _ = 1 / 2 * 2 ^ (-1074 : Int) := half
      _ ≤ (x.significand - x.gap) * 2 ^ x.exponent :=
        mul_le_mul significand power positive (by linarith)
  · refine lt_of_le_of_lt nearest.high ?_
    have significand : (x.significand : ℚ) + 1 / 2 ≤ 2 ^ 53 := by
      have bounded : (x.significand : ℚ) + 1 ≤ 2 * leadingBit := by exact_mod_cast canonical.bounded
      rw [leadingBit_eq] at bounded
      norm_num at bounded ⊢
      linarith
    have power : (2 : ℚ) ^ x.exponent ≤ 2 ^ (971 : Int) :=
      zpow_le_zpow_right₀ (by norm_num) canonical.greatest
    have unit : (0 : ℚ) < 2 ^ x.exponent := zpow_pos (by norm_num) _
    have whole : (2 : ℚ) ^ (1024 : Int) = 2 ^ 53 * 2 ^ (971 : Int) := by
      rw [show (1024 : Int) = 53 + 971 by norm_num, zpow_add₀ (by norm_num)]
      norm_num
    calc ((x.significand : ℚ) + 1 / 2) * 2 ^ x.exponent
        ≤ 2 ^ 53 * 2 ^ (971 : Int) := mul_le_mul significand power unit.le (by norm_num)
      _ = 2 ^ (1024 : Int) := whole.symm
      _ < 10 ^ (310 : Int) := greatest_power

/-- A decimal reads as the number that it is nearest to. -/
theorem ofDecimal?_of_nearest {decimal : Decimal} (canonical : x.Canonical) (some : 0 < x.significand)
    (nearest : x.Nearest decimal.value) (negative : Bool) :
    ofDecimal? negative decimal.digits decimal.scale =
      .some ⟨negative, x.significand, x.exponent⟩ := by
  obtain ⟨digits, scale⟩ := decimal
  obtain ⟨low, high⟩ := nearest.range canonical some
  have digitsPositive : 0 < digits := by
    apply Nat.pos_of_ne_zero
    rintro rfl
    have positive := lt_trans (zpow_ten_pos (-330)) low
    simp [Decimal.value] at positive
  obtain ⟨above, below⟩ := Decimal.value_bounds (show 0 < (Decimal.mk digits scale).digits from digitsPositive)
  simp only at above below ⊢
  have tooSmall : ¬ ((Nat.toDigits 10 digits).length : Int) + scale < -330 := by
    have := (zpow_lt_zpow_iff_right₀ (by norm_num : (1 : ℚ) < 10)).1 (lt_trans low below)
    omega
  have tooGreat : ¬ 310 < ((Nat.toDigits 10 digits).length : Int) + scale := by
    have := (zpow_lt_zpow_iff_right₀ (by norm_num : (1 : ℚ) < 10)).1 (lt_of_le_of_lt above high)
    omega
  have notZero : (digits == 0) = false := by simpa using digitsPositive.ne'
  simp only [ofDecimal?, notZero, tooSmall, tooGreat, Bool.false_or, decide_false, Bool.false_eq_true,
    if_false]
  cases scale with
  | ofNat n =>
      refine ofRatio?_of_nearest canonical (Nat.mul_pos digitsPositive (Nat.pow_pos (by decide)))
        Nat.one_pos ?_ negative
      simpa [Decimal.value] using nearest
  | negSucc n =>
      refine ofRatio?_of_nearest canonical digitsPositive (Nat.pow_pos (by decide)) ?_ negative
      simpa [Decimal.value, zpow_negSucc, div_eq_mul_inv] using nearest

theorem canonical_of_ofDecimal? {negative : Bool} {digits : Nat} {scale : Int}
    (read : ofDecimal? negative digits scale = .some x) : x.Canonical := by
  simp only [ofDecimal?] at read
  split at read
  · cases read
    exact canonical_zero negative
  split at read
  · cases read
  split at read
  · exact canonical_of_ofRatio? Nat.one_pos read
  · exact canonical_of_ofRatio? (Nat.pow_pos (by decide)) read

/-- The ends and the middle of an interval, as rationals. -/
theorem interval_ends (some : 0 < x.significand) :
    (0 : ℚ) < x.interval.den ∧
      (x.interval.low : ℚ) = (x.significand - x.gap) * 2 ^ x.exponent * x.interval.den ∧
      (x.interval.middle : ℚ) = x.significand * 2 ^ x.exponent * x.interval.den ∧
      (x.interval.high : ℚ) = (x.significand + 1 / 2) * 2 ^ x.exponent * x.interval.den := by
  obtain ⟨denPositive, down⟩ := scaleDown_div 1 (show 0 < 1 by decide) (2 - x.exponent)
  have unit : (2 : ℚ) ^ x.exponent = 4 / 2 ^ (2 - x.exponent) := by
    rw [zpow_sub₀ (by norm_num)]
    have : (2 : ℚ) ^ x.exponent ≠ 0 := (zpow_pos (by norm_num) _).ne'
    field_simp
    norm_num
  simp only [interval]
  generalize scaleDown 1 1 (2 - x.exponent) = scaled at denPositive down ⊢
  obtain ⟨factor, den⟩ := scaled
  simp only at denPositive down ⊢
  have positive : (0 : ℚ) < den := by exact_mod_cast denPositive
  -- Four units are one in the last place.
  have quarter : (factor : ℚ) = 2 ^ x.exponent / 4 * den := by
    rw [div_eq_iff positive.ne'] at down
    rw [down, unit]
    push_cast
    ring
  refine ⟨positive, ?_, ?_, ?_⟩
  · rw [gap]
    by_cases power : x.significand = leadingBit ∧ leastExponent < x.exponent
    · have here : (x.significand == leadingBit && decide (leastExponent < x.exponent)) = true := by
        simpa using power
      rw [if_pos here, if_pos power, Nat.cast_mul, Nat.cast_sub (by omega), quarter]
      push_cast
      ring
    · have here : ¬ (x.significand == leadingBit && decide (leastExponent < x.exponent)) = true := by
        simpa using power
      rw [if_neg here, if_neg power, Nat.cast_mul, Nat.cast_sub (by omega), quarter]
      push_cast
      ring
  · push_cast
    rw [quarter]
    ring
  · push_cast
    rw [quarter]
    ring

/-- A decimal is compared with the ends of an interval as a whole number over a multiple
of the denominator. -/
theorem exists_compared (some : 0 < x.significand) (decimal : Decimal) :
    ∃ value factor : Nat,
      (x.interval.holds decimal =
        if x.interval.closed then
          decide (x.interval.low * factor ≤ value) && decide (value ≤ x.interval.high * factor)
        else decide (x.interval.low * factor < value) && decide (value < x.interval.high * factor)) ∧
      ∀ (bound : Nat) (limit : ℚ), (bound : ℚ) = limit * x.interval.den →
        (bound * factor ≤ value ↔ limit ≤ decimal.value) ∧
          (value ≤ bound * factor ↔ decimal.value ≤ limit) := by
  obtain ⟨positive, -⟩ := interval_ends some
  obtain ⟨value, factor, factorPositive, same, holds⟩ : ∃ value factor : Nat, 0 < factor ∧
      decimal.value * x.interval.den * factor = value ∧ x.interval.holds decimal =
        if x.interval.closed then
          decide (x.interval.low * factor ≤ value) && decide (value ≤ x.interval.high * factor)
        else decide (x.interval.low * factor < value) && decide (value < x.interval.high * factor) := by
    obtain ⟨digits, scale⟩ := decimal
    cases scale with
    | ofNat n =>
        refine ⟨digits * Nat.pow 10 n * x.interval.den, 1, Nat.one_pos, ?_, rfl⟩
        simp [Decimal.value]
    | negSucc n =>
        refine ⟨digits * x.interval.den, Nat.pow 10 (n + 1), Nat.pow_pos (by decide), ?_, rfl⟩
        simp only [Decimal.value, zpow_negSucc, Nat.pow_eq]
        push_cast
        field_simp
  refine ⟨value, factor, holds, fun bound limit here => ?_⟩
  have scale : (0 : ℚ) < x.interval.den * factor := by positivity
  constructor
  · rw [← mul_le_mul_iff_left₀ scale, ← mul_assoc, ← here, ← mul_assoc, same]
    exact_mod_cast Iff.rfl
  · rw [← mul_le_mul_iff_left₀ scale, ← mul_assoc, same, ← mul_assoc, ← here]
    exact_mod_cast Iff.rfl

/-- The decimals in the interval of a number are those that it is nearest to. -/
theorem holds_interval_iff (some : 0 < x.significand) (decimal : Decimal) :
    x.interval.holds decimal = true ↔ x.Nearest decimal.value := by
  obtain ⟨-, low, -, high⟩ := interval_ends some
  obtain ⟨value, factor, holds, compared⟩ := exists_compared some decimal
  obtain ⟨lowLe, leLow⟩ := compared _ _ low
  obtain ⟨highLe, leHigh⟩ := compared _ _ high
  have closed : x.interval.closed = (x.significand % 2 == 0) := rfl
  rw [holds, closed]
  cases even : x.significand % 2 == 0 with
  | true =>
      simp only [if_true, Bool.and_eq_true, decide_eq_true_eq, lowLe, leHigh]
      constructor
      · rintro ⟨above, below⟩
        exact ⟨above, below, fun _ => by simpa using even⟩
      · rintro ⟨above, below, -⟩
        exact ⟨above, below⟩
  | false =>
      have odd : ¬ x.significand % 2 = 0 := by simpa using even
      simp only [Bool.false_eq_true, if_false, Bool.and_eq_true, decide_eq_true_eq, ← not_le, highLe,
        leLow]
      constructor
      · rintro ⟨above, below⟩
        refine ⟨(not_le.1 above).le, (not_le.1 below).le, ?_⟩
        rintro (same | same)
        · exact absurd same.le above
        · exact absurd same.ge below
      · rintro ⟨above, below, ends⟩
        constructor
        · intro less
          exact odd (ends (Or.inl (le_antisymm less above)))
        · intro more
          exact odd (ends (Or.inr (le_antisymm below more)))

/-- The digits without the zeros at their end have the same value. -/
theorem Decimal.value_stripped (steps : Nat) (decimal : Decimal) :
    (stripped steps decimal).value = decimal.value := by
  induction steps generalizing decimal with
  | zero => rfl
  | succ steps ih =>
      simp only [stripped]
      split
      · rename_i divides
        rw [ih]
        have tens : decimal.digits = 10 * (decimal.digits / 10) := by
          simp only [beq_iff_eq] at divides
          omega
        simp only [value]
        rw [zpow_add_one₀ (by norm_num), show (decimal.digits : ℚ) = 10 * (decimal.digits / 10 : ℕ) by
          exact_mod_cast tens]
        ring
      · rfl

/-- A grid is searched around the number, in units of the grid. -/
theorem exists_onGrid? (some : 0 < x.significand) (scale : Int) :
    ∃ num den : Nat, 0 < den ∧ (x.significand : ℚ) * 2 ^ x.exponent = num / den * 10 ^ scale ∧
      onGrid? x.interval scale =
        match x.interval.holds ⟨num / den, scale⟩, x.interval.holds ⟨num / den + 1, scale⟩ with
        | true, true => .some ⟨roundHalfEven num den, scale⟩
        | true, false => .some ⟨num / den, scale⟩
        | false, true => .some ⟨num / den + 1, scale⟩
        | false, false => none := by
  obtain ⟨positive, -, middle, -⟩ := interval_ends some
  have denPositive : 0 < x.interval.den := by exact_mod_cast positive
  have tens : ∀ n : Nat, (0 : ℚ) < 10 ^ n := fun n => by positivity
  cases scale with
  | ofNat n =>
      refine ⟨x.interval.middle, x.interval.den * Nat.pow 10 n,
        Nat.mul_pos denPositive (Nat.pow_pos (by decide)), ?_, rfl⟩
      have := (tens n).ne'
      rw [middle, Int.ofNat_eq_natCast, zpow_natCast, Nat.pow_eq]
      push_cast
      field_simp
  | negSucc n =>
      refine ⟨x.interval.middle * Nat.pow 10 (n + 1), x.interval.den, denPositive, ?_, rfl⟩
      have := (tens (n + 1)).ne'
      rw [Nat.cast_mul, middle, zpow_negSucc, Nat.pow_eq]
      push_cast
      field_simp

/-- What is found on a grid lies in the interval. -/
theorem holds_of_onGrid? (some : 0 < x.significand) {scale : Int} {decimal : Decimal}
    (found : onGrid? x.interval scale = .some decimal) : x.interval.holds decimal = true := by
  obtain ⟨num, den, -, -, same⟩ := exists_onGrid? some scale
  rw [same] at found
  split at found
  · rename_i low high
    cases found
    obtain ⟨lower, upper⟩ := le_roundHalfEven num den
    rcases Nat.eq_or_lt_of_le lower with same | more
    · rw [← same]
      exact low
    · rw [Nat.le_antisymm upper more]
      exact high
  · rename_i low _
    cases found
    exact low
  · rename_i _ high
    cases found
    exact high
  · cases found

/-- Scaling makes up for the least exponent. -/
theorem one_le_mul_pow (canonical : x.Canonical) (some : 0 < x.significand) {zeros : Nat}
    (enough : 330 ≤ zeros) : 1 ≤ (x.significand : ℚ) * 2 ^ x.exponent * 10 ^ zeros := by
  have tens : (0 : ℚ) < 10 ^ zeros := by positivity
  have one : (1 : ℚ) ≤ x.significand := by exact_mod_cast some
  have power : (10 : ℚ) ^ (-(zeros : Int)) ≤ 2 ^ x.exponent := by
    have small : (10 : ℚ) ^ (-(zeros : Int)) ≤ 10 ^ (-330 : Int) :=
      zpow_le_zpow_right₀ (by norm_num) (by omega)
    have exponent : (2 : ℚ) ^ (-1075 : Int) ≤ 2 ^ x.exponent :=
      zpow_le_zpow_right₀ (by norm_num) (le_trans (by decide) canonical.least)
    exact small.trans (least_power.le.trans exponent)
  have unit : (10 : ℚ) ^ (-(zeros : Int)) * 10 ^ zeros = 1 := by
    rw [zpow_neg, zpow_natCast, inv_mul_cancel₀ tens.ne']
  calc (1 : ℚ) = 1 * 10 ^ (-(zeros : Int)) * 10 ^ zeros := by rw [one_mul, unit]
    _ ≤ x.significand * 2 ^ x.exponent * 10 ^ zeros := by
      have positive := (zpow_ten_pos (-(zeros : Int))).le
      gcongr

/-- No number is less than the unit of its leading place. -/
theorem leadingPlace_le (canonical : x.Canonical) (some : 0 < x.significand) :
    (10 : ℚ) ^ leadingPlace x.interval ≤ x.significand * 2 ^ x.exponent := by
  obtain ⟨positive, -, middle, -⟩ := interval_ends some
  have denPositive : 0 < x.interval.den := by exact_mod_cast positive
  simp only [leadingPlace]
  obtain ⟨zeros, scaled⟩ : ∃ zeros : Nat, zeros = 400 := ⟨_, rfl⟩
  rw [← scaled]
  have tens : (0 : ℚ) < 10 ^ zeros := by positivity
  have least := one_le_mul_pow canonical some (show 330 ≤ zeros by omega)
  have whole : ((x.interval.middle * Nat.pow 10 zeros : ℕ) : ℚ) =
      x.significand * 2 ^ x.exponent * 10 ^ zeros * x.interval.den := by
    rw [Nat.cast_mul, middle, Nat.pow_eq, Nat.cast_pow]
    push_cast
    ring
  have digits : 0 < x.interval.middle * Nat.pow 10 zeros / x.interval.den := by
    rw [Nat.div_pos_iff]
    refine ⟨denPositive, ?_⟩
    have more : (x.interval.den : ℚ) ≤ (x.interval.middle * Nat.pow 10 zeros : ℕ) := by
      rw [whole]
      exact le_mul_of_one_le_left positive.le least
    exact_mod_cast more
  obtain ⟨low, -⟩ := toDigits_bounds digits
  have floor : ((x.interval.middle * Nat.pow 10 zeros / x.interval.den : ℕ) : ℚ) ≤
      x.significand * 2 ^ x.exponent * 10 ^ zeros := by
    have product : ((x.interval.middle * Nat.pow 10 zeros / x.interval.den : ℕ) : ℚ) * x.interval.den ≤
        (x.interval.middle * Nat.pow 10 zeros : ℕ) := by
      exact_mod_cast Nat.div_mul_le_self _ _
    rw [whole] at product
    exact le_of_mul_le_mul_right product positive
  generalize (Nat.toDigits 10 (x.interval.middle * Nat.pow 10 zeros / x.interval.den)).length =
    length at low ⊢
  have place : (10 : ℚ) ^ ((length : Int) - 401) = 10 ^ ((length : Int) - 1) / 10 ^ zeros := by
    rw [← zpow_natCast, ← zpow_sub₀ (by norm_num), scaled]
    congr 1
    push_cast
    ring
  rw [place, div_le_iff₀ tens]
  exact low.trans floor

theorem gap_pos (x : Double) : 0 < x.gap := by
  unfold gap
  split <;> norm_num

/-- A decimal that is not in the interval is beyond the end on its side. -/
theorem le_low_of_missed (some : 0 < x.significand) {decimal : Decimal}
    (below : decimal.value ≤ x.significand * 2 ^ x.exponent)
    (missed : x.interval.holds decimal = false) :
    decimal.value ≤ (x.significand - x.gap) * 2 ^ x.exponent := by
  have power : (0 : ℚ) < 2 ^ x.exponent := zpow_pos (by norm_num) _
  by_contra inside
  have hit : x.Nearest decimal.value := by
    refine ⟨(not_le.1 inside).le, by nlinarith, ?_⟩
    rintro (same | same)
    · exact absurd same.le inside
    · nlinarith
  rw [← holds_interval_iff some, missed] at hit
  cases hit

theorem high_le_of_missed (some : 0 < x.significand) {decimal : Decimal}
    (above : x.significand * 2 ^ x.exponent ≤ decimal.value)
    (missed : x.interval.holds decimal = false) :
    (x.significand + 1 / 2) * 2 ^ x.exponent ≤ decimal.value := by
  have power : (0 : ℚ) < 2 ^ x.exponent := zpow_pos (by norm_num) _
  have gap := gap_pos x
  by_contra inside
  have hit : x.Nearest decimal.value := by
    refine ⟨by nlinarith, (not_le.1 inside).le, ?_⟩
    rintro (same | same)
    · nlinarith
    · exact absurd same.ge inside
  rw [← holds_interval_iff some, missed] at hit
  cases hit

/-- The unit of the seventeenth digit is less than what lies between the ends. -/
theorem unit_lt_ends (canonical : x.Canonical) {place : Int}
    (leading : (10 : ℚ) ^ place ≤ x.significand * 2 ^ x.exponent) :
    (10 : ℚ) ^ (place - 16) < (1 / 2 + x.gap) * 2 ^ x.exponent := by
  have power : (0 : ℚ) < 2 ^ x.exponent := zpow_pos (by norm_num) _
  have scaled : (10 : ℚ) ^ (place - 16) * 10 ^ 16 = 10 ^ place := by
    rw [← zpow_natCast, ← zpow_add₀ (by norm_num)]
    congr 1
    push_cast
    ring
  by_contra spacing
  have tooMany : (1 / 2 + x.gap) * 10 ^ 16 ≤ (x.significand : ℚ) := by
    refine le_of_mul_le_mul_right ?_ power
    calc (1 / 2 + x.gap) * 10 ^ 16 * 2 ^ x.exponent
        = (1 / 2 + x.gap) * 2 ^ x.exponent * 10 ^ 16 := by ring
      _ ≤ 10 ^ (place - 16) * 10 ^ 16 := by
        have spacing := not_lt.1 spacing
        gcongr
      _ = 10 ^ place := scaled
      _ ≤ x.significand * 2 ^ x.exponent := leading
  have bounded : (x.significand : ℚ) < 2 * leadingBit := by exact_mod_cast canonical.bounded
  rw [leadingBit_eq] at bounded
  by_cases halved : x.significand = leadingBit ∧ leastExponent < x.exponent
  · rw [gap, if_pos halved, halved.1, leadingBit_eq] at tooMany
    norm_num at tooMany
  · rw [gap, if_neg halved] at tooMany
    norm_num at tooMany bounded
    linarith

/-- Seventeen digits are enough for a neighbour of every number. -/
theorem onGrid?_ne_none (canonical : x.Canonical) (some : 0 < x.significand) :
    onGrid? x.interval (leadingPlace x.interval - 16) ≠ none := by
  have spacing := unit_lt_ends canonical (leadingPlace_le canonical some)
  generalize leadingPlace x.interval - 16 = scale at spacing ⊢
  obtain ⟨num, den, denPositive, whole, same⟩ := exists_onGrid? some scale
  have unit := zpow_ten_pos scale
  have positive : (0 : ℚ) < den := by exact_mod_cast denPositive
  -- The neighbours stand on both sides of the number.
  have below : (Decimal.mk (num / den) scale).value ≤ x.significand * 2 ^ x.exponent := by
    rw [whole, Decimal.value]
    gcongr
    rw [le_div_iff₀ positive]
    exact_mod_cast Nat.div_mul_le_self num den
  have above : (x.significand : ℚ) * 2 ^ x.exponent ≤ (Decimal.mk (num / den + 1) scale).value := by
    rw [whole, Decimal.value]
    gcongr
    rw [div_le_iff₀ positive, mul_comm]
    exact_mod_cast (Nat.lt_mul_div_succ num denPositive).le
  intro missed
  rw [same] at missed
  split at missed
  · cases missed
  · cases missed
  · cases missed
  · rename_i low high
    -- If both miss, they are as far apart as the ends.
    have lowMissed := le_low_of_missed some below low
    have highMissed := high_le_of_missed some above high
    simp only [Decimal.value] at lowMissed highMissed
    push_cast at highMissed
    linarith

/-- The shortest decimal of a number is one that it is nearest to. -/
theorem nearest_shortest (canonical : x.Canonical) (some : 0 < x.significand) :
    x.Nearest x.shortest.value := by
  have notZero : (x.significand == 0) = false := by simpa using some.ne'
  simp only [shortest, notZero, Bool.false_eq_true, if_false]
  split
  · rename_i decimal found
    obtain ⟨n, -, hit⟩ := List.exists_of_findSome?_eq_some found
    rw [Decimal.value_stripped]
    exact (holds_interval_iff some decimal).1 (holds_of_onGrid? some hit)
  · rename_i absent
    have missed := List.findSome?_eq_none_iff.1 absent 16 (by simp)
    exact absurd missed (onGrid?_ne_none canonical some)

end

end Stencil.Double
