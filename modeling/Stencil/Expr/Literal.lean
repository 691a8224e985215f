import Stencil.Text.Digits
import Stencil.Expr.Tokens
import Stencil.Value.Basic

/-! The values of number and string tokens. -/

set_option autoImplicit false

namespace Stencil

namespace Double

/-- The number nearest to a decimal text: digits, a fraction and an exponent. -/
def ofText? (negative : Bool) (text : List Char) : Option Double :=
  let whole := text.takeWhile Char.isDigit
  let (fraction, exponent) := Token.readFraction (text.dropWhile Char.isDigit)
  let digits := Text.ofDecimal (whole ++ fraction.drop 1)
  let power : Int :=
    match exponent with
    | _ :: '-' :: magnitude => -(Text.ofDecimal magnitude)
    | _ :: '+' :: magnitude => Text.ofDecimal magnitude
    | _ :: magnitude => Text.ofDecimal magnitude
    | [] => 0
  ofDecimal? negative digits (power - (fraction.length - 1 : Nat))

end Double

namespace Value

/-- Digits alone are an integer if it fits; anything else is a float, if it is
not too great. -/
def ofNumber? (text : List Char) : Option Value :=
  let n : Int := Text.ofDecimal text
  if text.all Char.isDigit && n ≤ greatestInt then some (.int n)
  else (Double.ofText? false text).map .float

end Value

namespace Token

/-- The character that a letter stands for after a backslash. -/
def unescapeLetter (c : Char) : Char :=
  if c = 'n' then '\n'
  else if c = 't' then '\t'
  else if c = 'r' then '\r'
  else if c = 'b' then '\x08'
  else if c = 'f' then '\x0c'
  else c

/-- The character of up to four hexadecimal digits, which may follow a plus
sign. -/
def charOfHex? (digits : List Char) : Option Char :=
  let unsigned := (Text.strip? ['+'] digits).getD digits
  if unsigned.isEmpty || !unsigned.all Text.isHexDigit then none
  else Text.charOf? (Text.ofHex unsigned)

/-- The text that a quoted string stands for, from what is between its quotes.
A code that names no character stays as it is written. -/
def unescape : List Char → List Char
  | [] => []
  | c :: rest =>
      if c ≠ '\\' then c :: unescape rest
      else match rest with
        | [] => ['\\']
        | letter :: rest =>
            if letter ≠ 'u' then unescapeLetter letter :: unescape rest
            else
              (match charOfHex? (rest.take 4) with
                | some named => [named]
                | none => '\\' :: 'u' :: rest.take 4) ++ unescape (rest.drop 4)
termination_by text => text.length

/-- The text of a string token. -/
def stringText (quoted : String) : String :=
  String.ofList (unescape (quoted.toList.drop 1).dropLast)

end Token

end Stencil
