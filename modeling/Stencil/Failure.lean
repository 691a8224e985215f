import Stencil.Expr.SyntaxError

/-! Why a template does not compile. -/

set_option autoImplicit false

namespace Stencil

/-- The cause of a failure, with what its message names. -/
inductive Cause where
  /-- Braces that open in the text do not all close. -/
  | openBraces (text : String)
  /-- The two closing bytes of a delimiter begin inside a character. -/
  | cutCharacter (text : String)
  | openTag (tag : String)
  | closedBlock (source : String)
  | strayElse (source : String)
  | unnamedView
  | unknownView (name : String)
  | unnamedChild (tag : String)
  | misplacedExpression (source : String)
  | emptyAttribute (name value : String)
  | mixedAttribute (name : String)
  | openScopes (count : Nat)
  | syntaxError (error : SyntaxError)
  deriving DecidableEq, Repr

def Cause.message : Cause → String
  | .openBraces text => "Mismatched braces in: " ++ text
  | .cutCharacter text => "Closing braces inside a character in: " ++ text
  | .openTag tag => "Mismatched closing HTML tag: " ++ tag
  | .closedBlock source => "Mismatched closing template tag: " ++ source
  | .strayElse source => "Error parsing template: " ++ source
  | .unnamedView => "The <view> element requires a name attribute"
  | .unknownView name => "No view found for \"" ++ name ++ "\""
  | .unnamedChild tag => "The <" ++ tag ++ "> element requires a literal name attribute"
  | .misplacedExpression source => "Error parsing template: " ++ source
  | .emptyAttribute name value => "Error parsing " ++ name ++ " attribute: " ++ value
  | .mixedAttribute name => "Attribute " ++ name ++ " is both a value and an array"
  | .openScopes count =>
      String.ofList (Nat.toDigits 10 count) ++ " element or block scope(s) left unclosed"
  | .syntaxError error => error.message

/-- Where a failure arose: in an expression, in a named template. -/
inductive Within where
  | expression (source : String)
  | template (name source : String)
  deriving DecidableEq, Repr

def Within.text : Within → String
  | .expression source => "\n\nWithin expression: " ++ source
  | .template name source => "\n\nWithin template \"" ++ name ++ "\":\n" ++ source

/-- A cause and the places around it, from the inside out. -/
structure Failure where
  cause : Cause
  places : List Within
  deriving DecidableEq, Repr

namespace Failure

def of (cause : Cause) : Failure :=
  ⟨cause, []⟩

def within (failure : Failure) (place : Within) : Failure :=
  { failure with places := failure.places ++ [place] }

/-- The message of the cause, and after it every place. -/
def message (failure : Failure) : String :=
  failure.cause.message ++ String.join (failure.places.map Within.text)

@[simp] theorem cause_within (failure : Failure) (place : Within) :
    (failure.within place).cause = failure.cause := rfl

theorem message_of (cause : Cause) : (of cause).message = cause.message :=
  String.append_empty

theorem message_within (failure : Failure) (place : Within) :
    (failure.within place).message = failure.message ++ place.text := by
  simp [message, within, String.append_assoc]

end Failure

end Stencil
