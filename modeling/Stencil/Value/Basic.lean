import Stencil.Dict
import Stencil.Double.Basic

/-! Constant values, as template expressions write them. -/

set_option autoImplicit false

namespace Stencil

inductive Value where
  | null
  | bool (value : Bool)
  | int (value : Int)
  | float (value : Double)
  | string (text : String)
  | array (items : List Value)
  | object (members : Dict Value)
  deriving Repr

namespace Value

def leastInt : Int := -9223372036854775808

def greatestInt : Int := 9223372036854775807

/-- The integers of 64 bits; a number token beyond them is a float. -/
def isInt (n : Int) : Bool :=
  leastInt ≤ n && n ≤ greatestInt

/-- The number of the other sign, where there is one. -/
def neg? : Value → Option Value
  | .int n => if isInt (-n) then some (.int (-n)) else none
  | .float x => some (.float x.neg)
  | _ => none

end Value

end Stencil
