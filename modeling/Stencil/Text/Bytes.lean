/-! Sizes of text in UTF-8 bytes, and the part of a text that fits a byte budget. -/

set_option autoImplicit false

namespace Stencil.Text

/-- The number of bytes of a text in UTF-8. -/
def byteSize (text : List Char) : Nat :=
  text.foldr (fun c size => c.utf8Size + size) 0

/-- The longest beginning of a text that fits in the given number of bytes. -/
def fitting : Nat → List Char → List Char
  | _, [] => []
  | budget, c :: rest =>
      if c.utf8Size ≤ budget then c :: fitting (budget - c.utf8Size) rest else []

/-- The longest ending of a text that fits in the given number of bytes. -/
def ending (budget : Nat) (text : List Char) : List Char :=
  (fitting budget text.reverse).reverse

/-- The bytes of a character in UTF-8. -/
def bytesOf (c : Char) : List UInt8 :=
  String.utf8EncodeChar c

/-- The bytes of a text in UTF-8. -/
def bytes (text : List Char) : List UInt8 :=
  text.flatMap bytesOf

end Stencil.Text
