import Stencil.Expr.Punct

/-! Tokens of expressions. -/

set_option autoImplicit false

namespace Stencil

/-- The name of an alias or attribute is without its sigil; a number is as
written; a string is as written, with its quotes. -/
inductive Token where
  | identifier (name : String)
  | aliasName (name : String)
  | attributeName (name : String)
  | number (text : String)
  | string (quoted : String)
  | punct (punct : Punct)
  deriving DecidableEq, Repr

/-- The text by which messages name a token. -/
def Token.value : Token → String
  | .identifier name | .aliasName name | .attributeName name => name
  | .number text => text
  | .string quoted => quoted
  | .punct p => p.text

/-- The text of a token in a source. -/
def Token.raw : Token → String
  | .aliasName name => "#" ++ name
  | .attributeName name => "@" ++ name
  | token => token.value

end Stencil
