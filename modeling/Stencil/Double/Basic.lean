/-! Finite binary numbers of 53 significant bits, and rounding to them.

A magnitude is `significand * 2 ^ exponent`. Rounding goes to the nearest
number of the format, and to the even significand from halfway between two.
-/

set_option autoImplicit false

namespace Stencil

/-- A finite number with a sign, so that zero has two forms. -/
structure Double where
  negative : Bool
  significand : Nat
  exponent : Int
  deriving DecidableEq, Repr

namespace Double

def leastExponent : Int := -1074

def greatestExponent : Int := 971

/-- The leading bit of a significand of 53 bits. -/
def leadingBit : Nat := Nat.pow 2 52

def zero (negative : Bool) : Double :=
  ⟨negative, 0, leastExponent⟩

def neg (x : Double) : Double :=
  { x with negative := !x.negative }

/-- The whole number nearest to a quotient; a half goes to the even one. -/
def roundHalfEven (num den : Nat) : Nat :=
  let quotient := num / den
  let doubled := 2 * (num % den)
  if doubled < den || (doubled == den && quotient % 2 == 0) then quotient else quotient + 1

/-- A quotient divided by a power of two, as a quotient. -/
def scaleDown (num den : Nat) : Int → Nat × Nat
  | .ofNat n => (num, den * Nat.pow 2 n)
  | .negSucc n => (num * Nat.pow 2 (n + 1), den)

/-- The exponent whose unit leaves 53 bits of a positive quotient before the
point, or the least exponent if that is greater. -/
def unitExponent (num den : Nat) : Int :=
  let estimate : Int := (num.log2 : Int) - den.log2 - 53
  let (n, d) := scaleDown num den estimate
  max leastExponent (if n / d < 2 * leadingBit then estimate else estimate + 1)

/-- The number nearest to a quotient, or none above the greatest number. -/
def ofRatio? (negative : Bool) (num den : Nat) : Option Double :=
  if num == 0 then some (zero negative)
  else
    let exponent := unitExponent num den
    let (n, d) := scaleDown num den exponent
    let significand := roundHalfEven n d
    let rounded : Double :=
      if significand == 2 * leadingBit then ⟨negative, leadingBit, exponent + 1⟩
      else ⟨negative, significand, exponent⟩
    if rounded.exponent ≤ greatestExponent then some rounded else none

/-- The number nearest to `digits * 10 ^ scale`, or none above the greatest
number. Magnitudes far outside the format are decided by their length alone. -/
def ofDecimal? (negative : Bool) (digits : Nat) (scale : Int) : Option Double :=
  let length : Int := (Nat.toDigits 10 digits).length
  if digits == 0 || length + scale < -330 then some (zero negative)
  else if 310 < length + scale then none
  else match scale with
    | .ofNat n => ofRatio? negative (digits * Nat.pow 10 n) 1
    | .negSucc n => ofRatio? negative digits (Nat.pow 10 (n + 1))

end Double

end Stencil
