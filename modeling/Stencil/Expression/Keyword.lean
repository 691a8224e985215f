/-! Block keywords of template expressions. -/

set_option autoImplicit false

namespace Stencil

/-- `close` is the ending that names no keyword. -/
inductive Keyword where
  | ifTrue
  | ifFalse
  | each
  | scope
  | orElse
  | orElseIf
  | bound
  | unbound
  | close
  | custom (word : String)
  deriving DecidableEq, Repr

namespace Keyword

def ofText (word : String) : Keyword :=
  if word = "if" then .ifTrue
  else if word = "unless" then .ifFalse
  else if word = "each" then .each
  else if word = "with" then .scope
  else if word = "else" then .orElse
  else if word = "else if" then .orElseIf
  else if word = "bound" then .bound
  else if word = "unbound" then .unbound
  else if word = "end" then .close
  else .custom word

def text : Keyword → String
  | .ifTrue => "if"
  | .ifFalse => "unless"
  | .each => "each"
  | .scope => "with"
  | .orElse => "else"
  | .orElseIf => "else if"
  | .bound => "bound"
  | .unbound => "unbound"
  | .close => "end"
  | .custom word => word

@[simp] theorem text_ofText (word : String) : (ofText word).text = word := by
  unfold ofText
  repeat' split
  all_goals simp_all [text]

/-- Whether a keyword goes on with a block that is open. -/
def continues : Keyword → Bool
  | .orElse | .orElseIf => true
  | _ => false

end Keyword

end Stencil
