import Stencil.Double.Layout
import Stencil.Value.Basic

/-! The compact JSON text of a value. -/

set_option autoImplicit false

namespace Stencil.Value

/-- Floats are written without an exponent from `0.00001` up to
`1000000000000000.0`. -/
def floatLayout : Double.Layout :=
  ⟨-5, 15⟩

def hexDigits (width n : Nat) : List Char :=
  let digits := Nat.toDigits 16 n
  List.replicate (width - digits.length) '0' ++ digits

/-- Quotes, backslashes and control characters are escaped, the latter by a
letter where there is one. -/
def escapeChar (c : Char) : List Char :=
  if c = '"' then ['\\', '"']
  else if c = '\\' then ['\\', '\\']
  else if c = '\x08' then ['\\', 'b']
  else if c = '\x0c' then ['\\', 'f']
  else if c = '\n' then ['\\', 'n']
  else if c = '\r' then ['\\', 'r']
  else if c = '\t' then ['\\', 't']
  else if c.toNat < 0x20 then '\\' :: 'u' :: hexDigits 4 c.toNat
  else [c]

def quote (text : String) : String :=
  String.ofList ('"' :: (text.toList.flatMap escapeChar ++ ['"']))

def intText : Int → String
  | .ofNat n => String.ofList (Nat.toDigits 10 n)
  | .negSucc n => String.ofList ('-' :: Nat.toDigits 10 (n + 1))

mutual
def text : Value → String
  | .null => "null"
  | .bool true => "true"
  | .bool false => "false"
  | .int n => intText n
  | .float x => floatLayout.write x
  | .string s => quote s
  | .array items => "[" ++ ",".intercalate (texts items) ++ "]"
  | .object members => "\x7b" ++ ",".intercalate (memberTexts members.entries) ++ "\x7d"

def texts : List Value → List String
  | [] => []
  | item :: rest => text item :: texts rest

def memberTexts : List (String × Value) → List String
  | [] => []
  | (name, value) :: rest => (quote name ++ ":" ++ text value) :: memberTexts rest
end

end Stencil.Value
