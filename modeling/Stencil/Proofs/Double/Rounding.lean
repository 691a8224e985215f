import Mathlib.Algebra.Order.Field.Rat
import Mathlib.Tactic.FieldSimp
import Mathlib.Tactic.Linarith
import Mathlib.Tactic.NormNum
import Mathlib.Tactic.Positivity
import Mathlib.Tactic.Push
import Mathlib.Tactic.Ring
import Stencil.Double.Basic

/-! Rounding a quotient to the nearest number of the format.

Every number of the format has an interval of rationals around it, up to halfway to its
neighbours; an end belongs to the interval if the significand is even. A quotient in the
interval of a number rounds to that number.
-/

set_option autoImplicit false

namespace Stencil.Double

/-- The numbers of the format: significands of 53 bits, of which the leading one is set
unless the exponent is the least one. -/
structure Canonical (x : Double) : Prop where
  bounded : x.significand < 2 * leadingBit
  least : leastExponent ≤ x.exponent
  greatest : x.exponent ≤ greatestExponent
  normal : leastExponent < x.exponent → leadingBit ≤ x.significand

theorem Canonical.neg {x : Double} (canonical : x.Canonical) : x.neg.Canonical :=
  ⟨canonical.bounded, canonical.least, canonical.greatest, canonical.normal⟩

theorem leadingBit_eq : leadingBit = 4503599627370496 := rfl

section

variable {num den : Nat}

/-- A number at most a half away is the nearest one, and an even one exactly so. -/
theorem roundHalfEven_eq {nearest : Nat} (positive : 0 < den)
    (low : 2 * nearest * den ≤ 2 * num + den) (high : 2 * num ≤ (2 * nearest + 1) * den)
    (tieLow : 2 * nearest * den = 2 * num + den → nearest % 2 = 0)
    (tieHigh : 2 * num = (2 * nearest + 1) * den → nearest % 2 = 0) :
    roundHalfEven num den = nearest := by
  have split : den * (num / den) + num % den = num := Nat.div_add_mod num den
  have small : num % den < den := Nat.mod_lt num positive
  simp only [roundHalfEven]
  generalize num / den = quotient at split ⊢
  generalize num % den = rest at split small ⊢
  subst split
  have here : nearest = quotient ∨ nearest = quotient + 1 := by
    rcases Nat.lt_trichotomy nearest quotient with below | same | above
    · have : den * (nearest + 1) ≤ den * quotient := Nat.mul_le_mul_left den below
      nlinarith
    · exact Or.inl same
    · rcases Nat.lt_or_ge (quotient + 1) nearest with far | near
      · have : den * (quotient + 2) ≤ den * nearest := Nat.mul_le_mul_left den far
        nlinarith
      · exact Or.inr (Nat.le_antisymm near above)
  have linear : 2 * quotient * den = 2 * (den * quotient) := by ring
  rcases here with rfl | rfl
  · have fits : 2 * rest ≤ den := by nlinarith
    split
    · rfl
    · rename_i other
      have tie : 2 * rest = den := by
        simp only [Bool.or_eq_true, decide_eq_true_eq, Bool.and_eq_true, beq_iff_eq, not_or] at other
        omega
      have even := tieHigh (by nlinarith)
      simp [tie, even] at other
  · have fits : den ≤ 2 * rest := by nlinarith
    split
    · rename_i taken
      simp only [Bool.or_eq_true, decide_eq_true_eq, Bool.and_eq_true, beq_iff_eq] at taken
      have tie : 2 * rest = den := by omega
      have even := tieLow (by nlinarith)
      omega
    · rfl

/-- A quotient divided by a power of two. -/
theorem scaleDown_div (num : Nat) (positive : 0 < den) (power : Int) :
    0 < (scaleDown num den power).2 ∧
      ((scaleDown num den power).1 : ℚ) / (scaleDown num den power).2 = num / den / 2 ^ power := by
  have some : (den : ℚ) ≠ 0 := by positivity
  cases power with
  | ofNat n =>
      refine ⟨Nat.mul_pos positive (Nat.pow_pos (by decide)), ?_⟩
      simp only [scaleDown, Int.ofNat_eq_natCast, zpow_natCast, Nat.cast_mul, Nat.pow_eq, Nat.cast_pow, Nat.cast_ofNat]
      rw [div_div]
  | negSucc n =>
      refine ⟨positive, ?_⟩
      simp only [scaleDown, zpow_negSucc, Nat.cast_mul, Nat.pow_eq, Nat.cast_pow, Nat.cast_ofNat, div_inv_eq_mul]
      ring

/-- The quotient of the leading bits is off by less than one bit. -/
theorem estimate_bounds {estimate : Int} (some : 0 < num) (positive : 0 < den)
    (estimated : estimate = (num.log2 : Int) - den.log2 - 53) :
    (leadingBit : ℚ) * 2 ^ estimate ≤ num / den ∧ (num : ℚ) / den < 4 * leadingBit * 2 ^ estimate := by
  have two : (2 : ℚ) ≠ 0 := by norm_num
  have denPositive : (0 : ℚ) < den := by exact_mod_cast positive
  have numLow : (2 : ℚ) ^ num.log2 ≤ num := by exact_mod_cast Nat.log2_self_le some.ne'
  have numHigh : (num : ℚ) < 2 ^ (num.log2 + 1) := by exact_mod_cast Nat.lt_log2_self
  have denLow : (2 : ℚ) ^ den.log2 ≤ den := by exact_mod_cast Nat.log2_self_le positive.ne'
  have denHigh : (den : ℚ) < 2 ^ (den.log2 + 1) := by exact_mod_cast Nat.lt_log2_self
  have unit : (2 : ℚ) ^ estimate * 2 ^ den.log2 * 2 ^ 53 = 2 ^ num.log2 := by
    rw [← zpow_natCast, ← zpow_natCast, ← zpow_natCast, ← zpow_add₀ two, ← zpow_add₀ two]
    congr 1
    omega
  have unitPositive : (0 : ℚ) < 2 ^ estimate := zpow_pos (by norm_num) estimate
  constructor
  · rw [le_div_iff₀ denPositive, leadingBit_eq]
    calc (4503599627370496 : ℕ) * (2 : ℚ) ^ estimate * den
        ≤ (4503599627370496 : ℕ) * 2 ^ estimate * 2 ^ (den.log2 + 1) := by gcongr
      _ = 2 ^ estimate * 2 ^ den.log2 * 2 ^ 53 := by rw [pow_succ]; norm_num; ring
      _ ≤ num := by rw [unit]; exact numLow
  · rw [div_lt_iff₀ denPositive, leadingBit_eq]
    calc (num : ℚ) < 2 * 2 ^ num.log2 := by rw [pow_succ] at numHigh; linarith
      _ = 4 * (4503599627370496 : ℕ) * 2 ^ estimate * 2 ^ den.log2 := by rw [← unit]; norm_num; ring
      _ ≤ 4 * (4503599627370496 : ℕ) * 2 ^ estimate * den := by gcongr

/-- The exponent under which a quotient has its leading bit where significands have it. -/
theorem exists_unitExponent (some : 0 < num) (positive : 0 < den) :
    ∃ exponent : Int, unitExponent num den = max leastExponent exponent ∧
      (leadingBit : ℚ) * 2 ^ exponent ≤ num / den ∧ (num : ℚ) / den < 2 * leadingBit * 2 ^ exponent := by
  have two : (2 : ℚ) ≠ 0 := by norm_num
  set estimate : Int := (num.log2 : Int) - den.log2 - 53 with estimated
  have unitPositive : (0 : ℚ) < 2 ^ estimate := zpow_pos (by norm_num) estimate
  obtain ⟨low, high⟩ := estimate_bounds some positive estimated
  obtain ⟨downPositive, down⟩ := scaleDown_div num positive estimate
  have fits : (scaleDown num den estimate).1 / (scaleDown num den estimate).2 < 2 * leadingBit ↔
      (num : ℚ) / den < 2 * leadingBit * 2 ^ estimate := by
    rw [Nat.div_lt_iff_lt_mul downPositive, ← div_lt_iff₀ unitPositive, ← down,
      div_lt_iff₀ (by exact_mod_cast downPositive)]
    exact_mod_cast Iff.rfl
  simp only [unitExponent, ← estimated]
  by_cases less : (num : ℚ) / den < 2 * leadingBit * 2 ^ estimate
  · refine ⟨estimate, ?_, low, less⟩
    rw [if_pos (fits.2 less)]
  · refine ⟨estimate + 1, ?_, ?_, ?_⟩
    · rw [if_neg fun small => less (fits.1 small)]
    · rw [zpow_add₀ two, zpow_one]
      linarith
    · rw [zpow_add₀ two, zpow_one]
      linarith

/-- A quotient in units of a power of two, at most a half away from a whole number. -/
theorem roundHalfEven_scaleDown {nearest : Nat} (positive : 0 < den) (exponent : Int)
    (low : ((nearest : ℚ) - 1 / 2) * 2 ^ exponent ≤ num / den)
    (high : (num : ℚ) / den ≤ (nearest + 1 / 2) * 2 ^ exponent)
    (ends : (num : ℚ) / den = (nearest - 1 / 2) * 2 ^ exponent ∨
      (num : ℚ) / den = (nearest + 1 / 2) * 2 ^ exponent → nearest % 2 = 0) :
    roundHalfEven (scaleDown num den exponent).1 (scaleDown num den exponent).2 = nearest := by
  have unit : (0 : ℚ) < 2 ^ exponent := zpow_pos (by norm_num) exponent
  obtain ⟨downPositive, down⟩ := scaleDown_div num positive exponent
  generalize scaleDown num den exponent = scaled at downPositive down ⊢
  obtain ⟨n, d⟩ := scaled
  simp only at downPositive down ⊢
  have some : (0 : ℚ) < d := by exact_mod_cast downPositive
  have whole : (num : ℚ) / den = n / d * 2 ^ exponent := by rw [down, div_mul_cancel₀ _ unit.ne']
  rw [whole] at low high ends
  have low := le_of_mul_le_mul_right low unit
  have high := le_of_mul_le_mul_right high unit
  rw [le_div_iff₀ some] at low
  rw [div_le_iff₀ some] at high
  have lowNat : (2 * nearest * d : ℚ) ≤ 2 * n + d := by linarith
  have highNat : (2 * n : ℚ) ≤ (2 * nearest + 1) * d := by linarith
  refine roundHalfEven_eq downPositive (by exact_mod_cast lowNat) (by exact_mod_cast highNat) ?_ ?_
  · intro tie
    have tie : (2 * nearest * d : ℚ) = 2 * n + d := by exact_mod_cast tie
    refine ends (Or.inl ?_)
    rw [div_eq_iff some.ne' |>.2 (show (n : ℚ) = (nearest - 1 / 2) * d by linarith)]
  · intro tie
    have tie : (2 * n : ℚ) = (2 * nearest + 1) * d := by exact_mod_cast tie
    refine ends (Or.inr ?_)
    rw [div_eq_iff some.ne' |>.2 (show (n : ℚ) = (nearest + 1 / 2) * d by linarith)]

end

/-- Half the distance to the number below, in units of the last place. Below a power of
two the numbers are twice as close. -/
def gap (x : Double) : ℚ :=
  if x.significand = leadingBit ∧ leastExponent < x.exponent then 1 / 4 else 1 / 2

/-- The rationals that a number is nearest to. -/
structure Nearest (x : Double) (value : ℚ) : Prop where
  low : (x.significand - x.gap) * 2 ^ x.exponent ≤ value
  high : value ≤ (x.significand + 1 / 2) * 2 ^ x.exponent
  ends : value = (x.significand - x.gap) * 2 ^ x.exponent ∨
    value = (x.significand + 1 / 2) * 2 ^ x.exponent → x.significand % 2 = 0

theorem le_of_mul_zpow_lt {size value : ℚ} {small great : Int} (positive : 0 < size)
    (low : size * 2 ^ small ≤ value) (high : value < 2 * size * 2 ^ great) : small ≤ great := by
  have less : size * (2 : ℚ) ^ small < size * 2 ^ (great + 1) := by
    rw [zpow_add₀ (by norm_num), zpow_one]
    linarith
  have power := (mul_lt_mul_iff_right₀ positive).1 less
  have := (zpow_lt_zpow_iff_right₀ (by norm_num : (1 : ℚ) < 2)).1 power
  omega

theorem gap_le (x : Double) : x.gap ≤ 1 / 2 := by
  unfold gap
  split <;> norm_num

theorem leadingBit_pos : (0 : ℚ) < leadingBit := by
  rw [leadingBit_eq]
  norm_num

section

variable {x : Double} {num den : Nat} (canonical : x.Canonical) (some : 0 < num) (positive : 0 < den)
  (nearest : x.Nearest (num / den)) (negative : Bool)

include canonical some positive nearest

/-- Below a power of two the unit is half as great, and a quotient that is near enough
rounds up to that power. -/
theorem ofRatio?_below_power (power : x.significand = leadingBit) (above : leastExponent < x.exponent)
    (less : (num : ℚ) / den < leadingBit * 2 ^ x.exponent) :
    ofRatio? negative num den = .some ⟨negative, x.significand, x.exponent⟩ := by
  obtain ⟨exponent, unit, low, high⟩ := exists_unitExponent some positive
  have gap : x.gap = 1 / 4 := if_pos ⟨power, above⟩
  have halved : (2 : ℚ) ^ x.exponent = 2 * 2 ^ (x.exponent - 1) := by
    rw [zpow_sub_one₀ (by norm_num)]
    ring
  have half : (0 : ℚ) < 2 ^ (x.exponent - 1) := zpow_pos (by norm_num) _
  have lowEnd := nearest.low
  rw [gap, power] at lowEnd
  have here : exponent = x.exponent - 1 := by
    apply le_antisymm
    · exact le_of_mul_zpow_lt leadingBit_pos low (by rw [halved] at less; linarith)
    · refine le_of_mul_zpow_lt leadingBit_pos ?_ high
      refine le_trans ?_ lowEnd
      rw [halved, leadingBit_eq]
      push_cast
      linarith
  have unitHere : max leastExponent exponent = x.exponent - 1 := by omega
  have rounds : roundHalfEven (scaleDown num den (x.exponent - 1)).1
      (scaleDown num den (x.exponent - 1)).2 = 2 * leadingBit := by
    refine roundHalfEven_scaleDown positive _ ?_ ?_ fun _ => by decide
    · refine le_trans (le_of_eq ?_) lowEnd
      rw [halved]
      push_cast
      ring
    · rw [halved] at less
      push_cast
      linarith
  have notZero : (num == 0) = false := by simpa using some.ne'
  have fits := canonical.greatest
  simp [ofRatio?, notZero, unit, unitHere, rounds, fits, power]

/-- A quotient whose leading bit is where that of the number is has its exponent. -/
theorem ofRatio?_at_exponent
    (atLeast : leastExponent < x.exponent → (leadingBit : ℚ) * 2 ^ x.exponent ≤ num / den) :
    ofRatio? negative num den = .some ⟨negative, x.significand, x.exponent⟩ := by
  obtain ⟨exponent, unit, low, high⟩ := exists_unitExponent some positive
  have unitPositive : (0 : ℚ) < 2 ^ x.exponent := zpow_pos (by norm_num) x.exponent
  have below : (num : ℚ) / den < 2 * leadingBit * 2 ^ x.exponent := by
    have bounded : (x.significand : ℚ) + 1 ≤ 2 * leadingBit := by exact_mod_cast canonical.bounded
    refine lt_of_le_of_lt nearest.high ?_
    gcongr
    linarith
  have here : max leastExponent exponent = x.exponent := by
    have upper := le_of_mul_zpow_lt leadingBit_pos low below
    rcases lt_or_eq_of_le canonical.least with above | least
    · have lower := le_of_mul_zpow_lt leadingBit_pos (atLeast above) high
      omega
    · omega
  have rounds : roundHalfEven (scaleDown num den x.exponent).1 (scaleDown num den x.exponent).2 =
      x.significand := by
    refine roundHalfEven_scaleDown positive _ ?_ nearest.high ?_
    · refine le_trans ?_ nearest.low
      have := gap_le x
      gcongr
    · rintro (tie | tie)
      -- Halfway down lies in the interval only if the distance below is not halved.
      · by_cases halved : x.significand = leadingBit ∧ leastExponent < x.exponent
        · have := atLeast halved.2
          rw [tie, halved.1] at this
          have := le_of_mul_le_mul_right this unitPositive
          linarith
        · have gap : x.gap = 1 / 2 := if_neg halved
          exact nearest.ends (Or.inl (by rw [gap]; exact tie))
      · exact nearest.ends (Or.inr tie)
  have notZero : (num == 0) = false := by simpa using some.ne'
  have notDouble : (x.significand == 2 * leadingBit) = false := by
    simpa using canonical.bounded.ne
  have fits := canonical.greatest
  simp [ofRatio?, notZero, unit, here, rounds, notDouble, fits]

/-- A quotient rounds to the number that it is nearest to. -/
theorem ofRatio?_of_nearest :
    ofRatio? negative num den = .some ⟨negative, x.significand, x.exponent⟩ := by
  by_cases just : x.significand = leadingBit ∧ leastExponent < x.exponent ∧
      (num : ℚ) / den < leadingBit * 2 ^ x.exponent
  · obtain ⟨power, above, less⟩ := just
    exact ofRatio?_below_power canonical some positive nearest negative power above less
  · apply ofRatio?_at_exponent canonical some positive nearest negative
    intro above
    rcases Nat.eq_or_lt_of_le (canonical.normal above) with power | more
    · by_contra less
      exact just ⟨power.symm, above, not_le.1 less⟩
    · refine le_trans ?_ nearest.low
      have more : (leadingBit : ℚ) + 1 ≤ x.significand := by exact_mod_cast more
      have := gap_le x
      have unitPositive : (0 : ℚ) < 2 ^ x.exponent := zpow_pos (by norm_num) x.exponent
      gcongr
      linarith

end

/-- Rounding stays between the whole numbers around a quotient. -/
theorem le_roundHalfEven (num den : Nat) :
    num / den ≤ roundHalfEven num den ∧ roundHalfEven num den ≤ num / den + 1 := by
  simp only [roundHalfEven]
  split <;> omega

theorem canonical_zero (negative : Bool) : (zero negative).Canonical where
  bounded := by
    change 0 < 2 * leadingBit
    decide
  least := le_refl _
  greatest := by
    change leastExponent ≤ greatestExponent
    decide
  normal above := absurd above (lt_irrefl _)

/-- In units of its exponent a quotient has at most 53 bits, and no fewer unless the
exponent is the least one. -/
theorem scaleDown_unitExponent {num den : Nat} (some : 0 < num) (positive : 0 < den) :
    let scaled := scaleDown num den (unitExponent num den)
    leastExponent ≤ unitExponent num den ∧ scaled.1 / scaled.2 < 2 * leadingBit ∧
      (leastExponent < unitExponent num den → leadingBit ≤ scaled.1 / scaled.2) := by
  obtain ⟨exponent, unit, low, high⟩ := exists_unitExponent some positive
  obtain ⟨downPositive, down⟩ := scaleDown_div num positive (unitExponent num den)
  have least : leastExponent ≤ unitExponent num den := by
    rw [unit]
    exact le_max_left _ _
  have unitPositive : (0 : ℚ) < 2 ^ unitExponent num den := zpow_pos (by norm_num) _
  generalize unitExponent num den = chosen at *
  generalize scaleDown num den chosen = scaled at *
  obtain ⟨n, d⟩ := scaled
  simp only at downPositive down ⊢
  have dPositive : (0 : ℚ) < d := by exact_mod_cast downPositive
  refine ⟨least, ?_, fun above => ?_⟩
  · rw [Nat.div_lt_iff_lt_mul downPositive]
    have less : (n : ℚ) / d < 2 * leadingBit := by
      rw [down, div_lt_iff₀ unitPositive]
      refine lt_of_lt_of_le high ?_
      have larger : (2 : ℚ) ^ exponent ≤ 2 ^ chosen :=
        zpow_le_zpow_right₀ (by norm_num) (unit ▸ le_max_right _ _)
      have := leadingBit_pos
      gcongr
    rw [div_lt_iff₀ dPositive] at less
    exact_mod_cast less
  · have same : chosen = exponent := by omega
    rw [Nat.le_div_iff_mul_le downPositive]
    have more : (leadingBit : ℚ) ≤ n / d := by
      rw [down, le_div_iff₀ unitPositive, same]
      exact low
    rw [le_div_iff₀ dPositive] at more
    exact_mod_cast more

/-- Rounding gives numbers of the format. -/
theorem canonical_of_ofRatio? {negative : Bool} {num den : Nat} {x : Double} (positive : 0 < den)
    (rounded : ofRatio? negative num den = .some x) : x.Canonical := by
  rcases Nat.eq_zero_or_pos num with rfl | some
  · cases rounded
    exact canonical_zero negative
  have notZero : (num == 0) = false := by simpa using some.ne'
  obtain ⟨least, bounded, normal⟩ := scaleDown_unitExponent some positive
  simp only [ofRatio?, notZero, Bool.false_eq_true, if_false] at rounded
  generalize unitExponent num den = exponent at *
  generalize scaleDown num den exponent = scaled at *
  obtain ⟨n, d⟩ := scaled
  simp only at bounded normal rounded
  obtain ⟨lower, upper⟩ := le_roundHalfEven n d
  generalize roundHalfEven n d = significand at lower upper rounded
  by_cases carried : significand = 2 * leadingBit
  · simp only [carried, beq_self_eq_true, if_true, Option.ite_none_right_eq_some,
      Option.some.injEq] at rounded
    obtain ⟨fits, rfl⟩ := rounded
    refine ⟨?_, ?_, fits, fun _ => le_refl _⟩
    · change leadingBit < 2 * leadingBit
      decide
    · change leastExponent ≤ exponent + 1
      omega
  · have same : (significand == 2 * leadingBit) = false := by simpa using carried
    simp only [same, Bool.false_eq_true, if_false, Option.ite_none_right_eq_some,
      Option.some.injEq] at rounded
    obtain ⟨fits, rfl⟩ := rounded
    refine ⟨?_, least, fits, fun above => le_trans (normal above) lower⟩
    change significand < 2 * leadingBit
    omega

end Stencil.Double
