/-! Tables of code points: closed ranges, and ranges with a stride. -/

set_option autoImplicit false

namespace Stencil.Text

/-- A class of characters as closed ranges of code points. -/
abbrev Ranges := List (Nat × Nat)

def Ranges.contains (ranges : Ranges) (c : Char) : Bool :=
  ranges.any fun (first, last) => first ≤ c.toNat && c.toNat ≤ last

/-- Every `stride`-th code point from `first` to `last`. -/
structure Stepped where
  first : Nat
  last : Nat
  stride : Nat
  deriving Repr

def Stepped.contains (range : Stepped) (c : Char) : Bool :=
  range.first ≤ c.toNat && c.toNat ≤ range.last && (c.toNat - range.first) % range.stride == 0

/-- A rule of a case mapping: the code points of a range move by one distance. -/
structure Shift where
  range : Stepped
  distance : Int
  deriving Repr

def Shift.apply (shift : Shift) (c : Char) : Char :=
  Char.ofNat (c.toNat + shift.distance).toNat

end Stencil.Text
