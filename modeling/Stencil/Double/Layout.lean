import Stencil.Double.Shortest

/-! Writing the decimal of a number, with or without an exponent. -/

set_option autoImplicit false

namespace Stencil.Double

/-- The places of the leading digit from which to which a number is written
without an exponent. -/
structure Layout where
  plainFrom : Int
  plainTo : Int
  deriving Repr

/-- Digits whose first one has the given place, with a fraction in any case. -/
def plainText (digits : List Char) (place : Int) : List Char :=
  match place with
  | .negSucc zeros => ['0', '.'] ++ List.replicate zeros '0' ++ digits
  | .ofNat place =>
      let fraction := digits.drop (place + 1)
      digits.take (place + 1) ++ List.replicate (place + 1 - digits.length) '0' ++ ['.'] ++
        (if fraction.isEmpty then ['0'] else fraction)

/-- One digit, the others after a point, and the place with its sign. -/
def exponentText (digits : List Char) (place : Int) : List Char :=
  digits.take 1 ++ (if digits.length ≤ 1 then [] else '.' :: digits.drop 1) ++
    ['e', if place < 0 then '-' else '+'] ++ Nat.toDigits 10 place.natAbs

def Layout.write (layout : Layout) (x : Double) : String :=
  let decimal := x.shortest
  let digits := Nat.toDigits 10 decimal.digits
  let place := decimal.scale + digits.length - 1
  let magnitude :=
    if layout.plainFrom ≤ place && place ≤ layout.plainTo then plainText digits place
    else exponentText digits place
  String.ofList (if x.negative then '-' :: magnitude else magnitude)

end Stencil.Double
