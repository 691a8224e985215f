import Stencil.Expr.Token
import Stencil.Text.Bytes

/-! Faults in the text of an expression. -/

set_option autoImplicit false

namespace Stencil

/-- What a place of the grammar asks for. -/
inductive Wanted where
  | expression
  | objectKey
  | punct (punct : Punct)
  deriving DecidableEq, Repr

def Wanted.text : Wanted → String
  | .expression => "an expression"
  | .objectKey => "an object key"
  | .punct p => p.text

inductive SyntaxFault where
  | missingName
  | unterminatedString
  | unexpectedCharacter (c : Char)
  | invalidNumber
  | tooDeep
  | unexpectedToken (token : Token)
  | unexpectedKey (token : Token)
  | missingMember
  | expected (wanted : Wanted) (found : Option Token)
  deriving DecidableEq, Repr

def SyntaxFault.text : SyntaxFault → String
  | .missingName => "expected a name"
  | .unterminatedString => "unterminated string"
  | .unexpectedCharacter c => "unexpected character '" ++ c.toString ++ "'"
  | .invalidNumber => "invalid number"
  | .tooDeep => "expression nested too deeply"
  | .unexpectedToken token => "unexpected token " ++ token.value
  | .unexpectedKey token => "unexpected object key " ++ token.value
  | .missingMember => "expected a name after ."
  | .expected wanted (some token) => "expected " ++ wanted.text ++ ", found " ++ token.value
  | .expected wanted none => "expected " ++ wanted.text ++ ", found end of expression"

/-- A fault, and the text whose ending shows where it is. -/
structure SyntaxError where
  fault : SyntaxFault
  near : String
  deriving DecidableEq, Repr

/-- A message shows at most the last 32 bytes of the text near a fault. -/
def SyntaxError.message (error : SyntaxError) : String :=
  error.fault.text ++ " near \"" ++ String.ofList (Text.ending 32 error.near.toList) ++ "\""

end Stencil
