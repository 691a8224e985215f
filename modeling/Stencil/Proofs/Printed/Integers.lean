import Stencil.Proofs.Printed.RoundTrip

/-! Integers read back from their decimal text.

A sign is an operator, and joins the number only after the digits have been read. So an
integer reads back just if its magnitude is an integer too, which that of the least one
of 64 bits is not.
-/

set_option autoImplicit false

namespace Stencil

open Grammar Token

theorem Value.intText_eq_toString (n : Int) : intText n = toString n := by
  cases n with
  | ofNat n => rfl
  | negSucc n => exact String.ofList_cons

/-- Of the integers of 64 bits only the least one has no opposite. -/
theorem isSigned_toInt_iff (n : Int64) : IsSigned n.toInt ↔ n ≠ Int64.minValue := by
  have least : n = Int64.minValue ↔ n.toInt = -2 ^ 63 := Int64.toInt_inj.symm
  have low := n.le_toInt
  have high := n.toInt_lt
  rw [ne_eq, least, IsSigned, Value.greatestInt]
  omega

/-- Digits beyond the greatest integer are read as a float. -/
theorem Printed.ofNumber?_beyond {n : Nat} (beyond : Value.greatestInt < n) :
    Value.ofNumber? (naturalNumeral n).text =
      (Double.ofText? false (naturalNumeral n).text).map .float := by
  have large : ¬ (n : Int) ≤ Value.greatestInt := Int.not_le.2 beyond
  rw [naturalNumeral_text]
  simp [Value.ofNumber?, Text.ofDecimal_toDigits, large]

namespace Expr

open Printed

/-- A minus before a number makes it the number of the other sign. -/
theorem parse_minus_numeral {numeral : Numeral} {magnitude value : Value}
    (read : Value.ofNumber? numeral.text = some magnitude) (negated : magnitude.neg? = some value) :
    parse (String.ofList ('-' :: numeral.text)) = .ok (.literal value) := by
  have number : (nested 254).unary [.number (String.ofList numeral.text)] (.literal magnitude) :=
    unary_number read 253
  have signed : (nested 255).unary [.punct .minus, .number (String.ofList numeral.text)] (.literal value) :=
    .negative number negated
  exact parse_of_spelled ⟨'-', numeral.text, rfl, rfl, by decide⟩ ((numeral_shuts numeral).cons '-')
    (spelled_numeral numeral).minus (.one (conditional_of_unary signed))

/-- An integer reads back from its decimal text just if it has an opposite. -/
theorem parse_intText_iff (n : Int) :
    parse (Value.intText n) = .ok (.literal (.int n)) ↔ IsSigned n := by
  constructor
  · intro parsed
    cases (formed_of_parse parsed).value with
    | int signed => exact signed
  · intro signed
    have shallow : (literal (.int n)).nesting < depthLimit := by
      simp only [Expr.nesting, Value.nesting, depthLimit]
      split <;> omega
    exact (parse_text_of_formed (.literal (.int signed))).2 ⟨Nat.zero_le _, rfl, shallow⟩

/-- The decimal text of an integer of 64 bits is read as this integer, and is its printed
form, unless the integer is the least one. -/
theorem parse_toString_iff (n : Int64) :
    (parse (toString n) = .ok (.literal (.int n.toInt)) ∧
        (literal (.int n.toInt)).text = toString n) ↔ n ≠ Int64.minValue := by
  have printed : (literal (.int n.toInt)).text = toString n := Value.intText_eq_toString n.toInt
  rw [← isSigned_toInt_iff, ← parse_intText_iff, and_iff_left printed]
  exact Eq.congr_left (congrArg parse printed.symm)

/-- The magnitude of the least integer is read as a float, and stays one under the sign. -/
theorem parse_leastInt :
    let tree : Expr := .literal (.float ⟨true, 2 ^ 52, 11⟩)
    toString Int64.minValue = "-9223372036854775808" ∧
      parse "-9223372036854775808" = .ok tree ∧ tree.text = "-9.223372036854776e+18" ∧
      tree ≠ .literal (.int Int64.minValue.toInt) := by
  intro tree
  have read : Value.ofNumber? (naturalNumeral 9223372036854775808).text =
      some (.float ⟨false, 2 ^ 52, 11⟩) := by
    have rounds : Double.ofText? false (Nat.toDigits 10 9223372036854775808) =
        some ⟨false, 2 ^ 52, 11⟩ := by decide +kernel
    rw [ofNumber?_beyond (by decide), naturalNumeral_text, rounds]
    rfl
  have parsed := parse_minus_numeral read (show Value.neg? _ = some (.float ⟨true, 2 ^ 52, 11⟩) from rfl)
  have written : String.ofList ('-' :: Nat.toDigits 10 9223372036854775808) = "-9223372036854775808" := by
    decide +kernel
  rw [naturalNumeral_text, written] at parsed
  refine ⟨by decide +kernel, parsed, by decide +kernel, fun same => ?_⟩
  cases Expr.literal.inj same

end Expr

end Stencil
