import Stencil.Double.Layout
import Stencil.Proofs.Double.Decimal
import Stencil.Proofs.Token.Numeral

/-! Written numbers read back.

With or without an exponent, a decimal is written as a numeral of the same value. So the
shortest decimal of a number reads as that number.
-/

set_option autoImplicit false

namespace Stencil.Double

open Token (Numeral IsDigits IsFraction IsExponent power)

/-- The decimal that a numeral is read as. -/
def numeralDecimal (numeral : Numeral) : Decimal :=
  ⟨Text.ofDecimal (numeral.whole ++ numeral.fraction.drop 1),
    power numeral.exponent - (numeral.fraction.length - 1 : Nat)⟩

theorem isDigits_toDigits (n : Nat) : IsDigits (Nat.toDigits 10 n) where
  some := Nat.toDigits_ne_nil
  all _ member := Nat.isDigit_of_mem_toDigits (by decide) (le_refl 10) member

theorem ofDecimal_append (first second : List Char) :
    Text.ofDecimal (first ++ second) =
      10 ^ second.length * Text.ofDecimal first + Text.ofDecimal second := by
  unfold Text.ofDecimal
  rw [Nat.ofDigitChars_append, Nat.ofDigitChars_eq_ofDigitChars_zero]

theorem ofDecimal_zeros (zeros : Nat) : Text.ofDecimal (List.replicate zeros '0') = 0 := by
  simp [Text.ofDecimal]

/-- A text is a numeral of the value of a decimal, and not of digits alone. -/
structure Writes (text : List Char) (decimal : Decimal) (numeral : Numeral) : Prop where
  same : text = numeral.text
  value : (numeralDecimal numeral).value = decimal.value
  float : ¬ (numeral.fraction = [] ∧ numeral.exponent = [])

theorem exists_writes {text whole fraction exponent : List Char} {decimal : Decimal}
    (same : text = whole ++ (fraction ++ exponent)) (wholeDigits : IsDigits whole)
    (isFraction : IsFraction fraction) (isExponent : IsExponent exponent)
    (value : (Decimal.mk (Text.ofDecimal (whole ++ fraction.drop 1))
      (power exponent - (fraction.length - 1 : Nat))).value = decimal.value)
    (float : ¬ (fraction = [] ∧ exponent = [])) : ∃ numeral, Writes text decimal numeral :=
  ⟨⟨whole, fraction, exponent, wholeDigits, isFraction, isExponent⟩, same, value, float⟩

theorem value_shift (zeros digits : Nat) (scale : Int) :
    (Decimal.mk (10 ^ zeros * digits) scale).value = (Decimal.mk digits (scale + zeros)).value := by
  simp only [Decimal.value]
  rw [zpow_add₀ (by norm_num), zpow_natCast]
  push_cast
  ring

section

variable {written : List Char} {scale : Int}

/-- A point stands among the digits. -/
theorem exists_writes_among {exponent : List Char} {n : Nat} (isDigits : IsDigits written) (first : 0 < n)
    (within : n < written.length) (isExponent : IsExponent exponent)
    (scaled : power exponent - (written.length - n : Nat) = scale) :
    ∃ numeral, Writes (written.take n ++ ('.' :: written.drop n ++ exponent))
      ⟨Text.ofDecimal written, scale⟩ numeral := by
  have front : IsDigits (written.take n) :=
    isDigits.of_sublist (by simp [isDigits.some, first.ne']) (List.take_sublist n written)
  have back : IsDigits (written.drop n) :=
    isDigits.of_sublist (by simpa using within) (List.drop_sublist n written)
  refine exists_writes rfl front (.digits back) isExponent ?_ (by simp)
  rw [List.drop_succ_cons, List.drop_zero, List.take_append_drop, ← scaled, List.length_cons,
    List.length_drop, Nat.add_sub_cancel]

/-- Zeros stand before the digits of a fraction, -/
theorem exists_writes_below {zeros : Nat} (isDigits : IsDigits written)
    (leading : Int.negSucc zeros = scale + written.length - 1) :
    ∃ numeral, Writes (plainText written (.negSucc zeros)) ⟨Text.ofDecimal written, scale⟩ numeral := by
  have zero : IsDigits ['0'] := ⟨by simp, by simp⟩
  refine exists_writes (by simp [plainText]) zero (.digits (isDigits.zeros_append zeros).1) .none ?_
    (by simp)
  congr 1
  rw [Decimal.mk.injEq]
  constructor
  · rw [List.drop_succ_cons, List.drop_zero, ofDecimal_append, ofDecimal_append,
      ofDecimal_zeros, show Text.ofDecimal ['0'] = 0 from rfl]
    simp
  · simp only [power, List.length_cons, List.length_append, List.length_replicate]
    omega

/-- and after digits that end before the point. -/
theorem exists_writes_above {place : Nat} (isDigits : IsDigits written)
    (long : written.length ≤ place + 1) (leading : (place : Int) = scale + written.length - 1) :
    ∃ numeral, Writes (plainText written place) ⟨Text.ofDecimal written, scale⟩ numeral := by
  have zero : IsDigits ['0'] := ⟨by simp, by simp⟩
  have none : written.drop (place + 1) = [] := List.drop_eq_nil_of_le long
  refine exists_writes ?_ (isDigits.zeros_append (place + 1 - written.length)).2 (.digits zero)
    .none ?_ (by simp)
  · simp [plainText, none, List.take_of_length_le long]
  · rw [List.drop_succ_cons, List.drop_zero, ofDecimal_append, ofDecimal_append,
      ofDecimal_zeros, show Text.ofDecimal ['0'] = 0 from rfl, Nat.add_zero, Nat.add_zero,
      value_shift, value_shift]
    congr 2
    simp only [power, List.length_cons, List.length_nil, List.length_replicate]
    omega

/-- Without an exponent. -/
theorem exists_plainText {place : Int} (isDigits : IsDigits written)
    (leading : place = scale + written.length - 1) :
    ∃ numeral, Writes (plainText written place) ⟨Text.ofDecimal written, scale⟩ numeral := by
  cases place with
  | negSucc zeros => exact exists_writes_below isDigits leading
  | ofNat place =>
      have leading : (place : Int) = scale + written.length - 1 := leading
      by_cases long : written.length ≤ place + 1
      · exact exists_writes_above isDigits long leading
      · have filled : written.drop (place + 1) ≠ [] := by simpa using long
        have noZeros : place + 1 - written.length = 0 := by omega
        have split : plainText written place =
            written.take (place + 1) ++ ('.' :: written.drop (place + 1) ++ []) := by
          simp [plainText, filled, noZeros]
        rw [Int.ofNat_eq_natCast, split]
        refine exists_writes_among isDigits (Nat.succ_pos place) (by omega) .none ?_
        simp only [power]
        omega

/-- With an exponent: the place of the first digit. -/
theorem exists_exponentText {place : Int} (isDigits : IsDigits written)
    (leading : place = scale + written.length - 1) :
    ∃ numeral, Writes (exponentText written place) ⟨Text.ofDecimal written, scale⟩ numeral := by
  have size : 0 < written.length := List.length_pos_iff.2 isDigits.some
  have sign : Token.IsSign (if place < 0 then '-' else '+') := by
    split
    · exact Or.inr rfl
    · exact Or.inl rfl
  have mark : IsExponent ('e' :: (if place < 0 then '-' else '+') :: Nat.toDigits 10 place.natAbs) :=
    .signed (Or.inl rfl) sign (isDigits_toDigits _)
  have places : power ('e' :: (if place < 0 then '-' else '+') :: Nat.toDigits 10 place.natAbs) =
      place := by
    split
    · simp only [power, Text.ofDecimal_toDigits]
      omega
    · simp only [power, Text.ofDecimal_toDigits]
      omega
  by_cases one : written.length ≤ 1
  · have whole : written.take 1 = written := List.take_of_length_le one
    refine exists_writes (by simp [exponentText, one, whole]) isDigits .none mark ?_ (by simp)
    rw [places, List.drop_nil, List.append_nil]
    congr 2
    simp only [List.length_nil]
    omega
  · have split : exponentText written place = written.take 1 ++ ('.' :: written.drop 1 ++
        'e' :: (if place < 0 then '-' else '+') :: Nat.toDigits 10 place.natAbs) := by
      simp [exponentText, one]
    rw [split]
    refine exists_writes_among isDigits Nat.one_pos (by omega) mark ?_
    rw [places]
    omega

end

theorem exists_magnitude (decimal : Decimal) (plain : Bool) :
    ∃ numeral, Writes
      (let digits := Nat.toDigits 10 decimal.digits
       let place := decimal.scale + digits.length - 1
       if plain then plainText digits place else exponentText digits place) decimal numeral := by
  have isDigits := isDigits_toDigits decimal.digits
  cases plain with
  | true =>
      have found := @exists_plainText _ decimal.scale _ isDigits rfl
      rwa [Text.ofDecimal_toDigits] at found
  | false =>
      have found := @exists_exponentText _ decimal.scale _ isDigits rfl
      rwa [Text.ofDecimal_toDigits] at found

theorem digits_eq_zero_of_value {decimal : Decimal} (none : decimal.value = 0) : decimal.digits = 0 := by
  have unit := (zpow_ten_pos decimal.scale).ne'
  exact_mod_cast (mul_eq_zero.1 none).resolve_right unit

/-- A numeral that is written for the shortest decimal of a number reads as that number,
without its sign. -/
theorem ofText?_of_writes {x : Double} (canonical : x.Canonical) {text : List Char}
    {numeral : Numeral} (writes : Writes text x.shortest numeral) :
    ofText? false numeral.text = some ⟨false, x.significand, x.exponent⟩ := by
  rw [Token.ofText?_numeral]
  change ofDecimal? false (numeralDecimal numeral).digits (numeralDecimal numeral).scale = _
  rcases Nat.eq_zero_or_pos x.significand with none | positive
  · have shortest : x.shortest.value = 0 := by simp [shortest, none, Decimal.value]
    have digits := digits_eq_zero_of_value (writes.value.trans shortest)
    have least : x.exponent = leastExponent := by
      have normal := mt canonical.normal
      rw [none, not_le, not_lt] at normal
      exact le_antisymm (normal (by decide)) canonical.least
    simp [ofDecimal?, digits, zero, none, least]
  · have nearest := nearest_shortest canonical positive
    rw [← writes.value] at nearest
    exact ofDecimal?_of_nearest canonical positive nearest false

/-- A number is written as a numeral, after a sign if it is negative. -/
theorem exists_write (layout : Layout) {x : Double} (canonical : x.Canonical) :
    ∃ numeral : Numeral,
      (layout.write x).toList = (if x.negative then '-' :: numeral.text else numeral.text) ∧
      numeral.text.all Char.isDigit = false ∧
      ofText? false numeral.text = some ⟨false, x.significand, x.exponent⟩ := by
  obtain ⟨numeral, writes⟩ := exists_magnitude x.shortest
    (let place := x.shortest.scale + (Nat.toDigits 10 x.shortest.digits).length - 1
     layout.plainFrom ≤ place && place ≤ layout.plainTo)
  refine ⟨numeral, ?_, ?_, ofText?_of_writes canonical writes⟩
  · simp only [Layout.write, String.toList_ofList, ← writes.same]
  · rw [Bool.eq_false_iff]
    exact fun digits => writes.float ((Token.all_isDigit_numeral numeral).1 digits)

end Stencil.Double
