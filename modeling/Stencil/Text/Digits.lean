/-! Numbers in digits, and characters by their code points. -/

set_option autoImplicit false

namespace Stencil.Text

/-- The value of decimal digits; the last digit weighs one. -/
def ofDecimal (digits : List Char) : Nat :=
  Nat.ofDigitChars 10 digits 0

theorem ofDecimal_toDigits (n : Nat) : ofDecimal (Nat.toDigits 10 n) = n :=
  Nat.ofDigitChars_ten_toDigits

def hexValue (c : Char) : Nat :=
  if c.isDigit then c.toNat - '0'.toNat
  else if 'a' ≤ c && c ≤ 'f' then c.toNat - 'a'.toNat + 10
  else c.toNat - 'A'.toNat + 10

def isHexDigit (c : Char) : Bool :=
  c.isDigit || ('a' ≤ c && c ≤ 'f') || ('A' ≤ c && c ≤ 'F')

/-- The value of hexadecimal digits of either case. -/
def ofHex (digits : List Char) : Nat :=
  digits.foldl (fun n c => 16 * n + hexValue c) 0

/-- The character of a code point; surrogates and numbers above U+10FFFF have
none. -/
def charOf? (code : Nat) : Option Char :=
  if code.isValidChar then some (Char.ofNat code) else none

end Stencil.Text
