import Stencil.Double.Basic

/-! The fewest decimal digits that read back as a number.

A decimal reads back when it lies among the reals that round to the number.
For one digit, two digits and so on, the two neighbours of the number on that
decimal grid are tested; the first grid with a hit wins, and of two hits the
nearer one, or the even one from halfway.
-/

set_option autoImplicit false

namespace Stencil.Double

/-- A decimal `digits * 10 ^ scale`. -/
structure Decimal where
  digits : Nat
  scale : Int
  deriving DecidableEq, Repr

/-- The reals that round to a number, as numerators over one denominator. -/
structure Interval where
  low : Nat
  middle : Nat
  high : Nat
  den : Nat
  closed : Bool
  deriving Repr

/-- Below a power of two the neighbouring number is half as far away, and so
is the end of the interval. An even significand keeps both ends. -/
def interval (x : Double) : Interval :=
  let below := if x.significand == leadingBit && leastExponent < x.exponent then 1 else 2
  let (unit, den) := scaleDown 1 1 (2 - x.exponent)
  ⟨(4 * x.significand - below) * unit, 4 * x.significand * unit, (4 * x.significand + 2) * unit, den,
    x.significand % 2 == 0⟩

/-- Whether `digits * 10 ^ scale` lies in an interval. -/
def Interval.holds (range : Interval) (decimal : Decimal) : Bool :=
  let (value, factor) : Nat × Nat := match decimal.scale with
    | .ofNat n => (decimal.digits * Nat.pow 10 n * range.den, 1)
    | .negSucc n => (decimal.digits * range.den, Nat.pow 10 (n + 1))
  let low := range.low * factor
  let high := range.high * factor
  if range.closed then low ≤ value && value ≤ high else low < value && value < high

/-- The place of the leading digit of a positive number: 0 for 1 up to 10.
The scaling makes the smallest number greater than one. -/
def leadingPlace (range : Interval) : Int :=
  (Nat.toDigits 10 (range.middle * Nat.pow 10 400 / range.den)).length - 401

/-- The neighbour of a number on a decimal grid that reads back, if any. -/
def onGrid? (range : Interval) (scale : Int) : Option Decimal :=
  let (num, den) : Nat × Nat := match scale with
    | .ofNat n => (range.middle, range.den * Nat.pow 10 n)
    | .negSucc n => (range.middle * Nat.pow 10 (n + 1), range.den)
  let lower : Decimal := ⟨num / den, scale⟩
  let upper : Decimal := ⟨num / den + 1, scale⟩
  match range.holds lower, range.holds upper with
  | true, true => some ⟨roundHalfEven num den, scale⟩
  | true, false => some lower
  | false, true => some upper
  | false, false => none

/-- The digits without the zeros at their end; each moves the scale by one. -/
def Decimal.stripped : Nat → Decimal → Decimal
  | 0, decimal => decimal
  | steps + 1, decimal =>
      if decimal.digits % 10 == 0 then stripped steps ⟨decimal.digits / 10, decimal.scale + 1⟩
      else decimal

/-- The shortest decimal that reads back as the magnitude of a number;
seventeen digits always do. -/
def shortest (x : Double) : Decimal :=
  if x.significand == 0 then ⟨0, 0⟩
  else
    let range := x.interval
    let place := leadingPlace range
    match (List.range 17).findSome? fun (n : Nat) => onGrid? range (place - n) with
    | some decimal => decimal.stripped 17
    | none => ⟨0, 0⟩

end Stencil.Double
