import Stencil.Text.Lowercase
import Stencil.Text.Uppercase

/-! Function names for views. -/

set_option autoImplicit false

namespace Stencil.Embed

/-- Each upper case character becomes lower case, after an underscore unless it
comes first. -/
def snakeCaseFrom : (first : Bool) → List Char → List Char
  | _, [] => []
  | first, c :: rest =>
      let cased :=
        if Text.isUppercase c then (if first then [] else ['_']) ++ Text.lowercase c else [c]
      cased ++ snakeCaseFrom false rest

def snakeCase (text : List Char) : List Char :=
  snakeCaseFrom true text

def isIdentChar (c : Char) : Bool :=
  c.isAlphanum || c == '_'

/-- Each run of characters that cannot stand in a name becomes one underscore. -/
def collapse : (inRun : Bool) → List Char → List Char
  | _, [] => []
  | inRun, c :: rest =>
      if isIdentChar c then c :: collapse false rest
      else if inRun then collapse true rest
      else '_' :: collapse true rest

/-- The text of a function's name: in snake case, and with an underscore before a
digit at the start. -/
def functionText (view : String) : List Char :=
  match snakeCase (collapse false view.toList) with
  | [] => []
  | c :: rest => if c.isDigit then '_' :: c :: rest else c :: rest

/-- Whether a text can name a function: it has a character, and no digit comes first. -/
def isIdent : List Char → Bool
  | [] => false
  | c :: rest => !c.isDigit && (c :: rest).all isIdentChar

/-- The name of the function for a view, if its text can name one. -/
def functionName? (view : String) : Option String :=
  let name := functionText view
  if isIdent name then some (String.ofList name) else none

end Stencil.Embed
