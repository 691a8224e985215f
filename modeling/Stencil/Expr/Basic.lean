import Stencil.Value.Basic

/-! The tree of a template expression. -/

set_option autoImplicit false

namespace Stencil

/-- Where a path starts: the data at hand, the current scope, an alias that a
block bound, or an attribute of the view. -/
inductive Root where
  | context
  | relative
  | ofAlias (name : String)
  | ofAttribute (name : String)
  deriving DecidableEq, Repr

mutual
/-- The operators `{}` and `[]` build an object from alternating keys and
values, and an array; they stand where some member is not a literal. -/
inductive Expr where
  | empty
  | literal (value : Value)
  | path (path : Path)
  | call (path : Path) (args : List Expr)
  | operator (name : String) (args : List Expr)
  | sequence (args : List Expr)

structure Path where
  root : Root
  segments : List Segment

inductive Segment where
  | name (text : String)
  | index (expr : Expr)
end

instance : Inhabited Expr := ⟨.empty⟩

namespace Expr

/-- The value of a literal. -/
def literal? : Expr → Option Value
  | .literal value => some value
  | _ => none

def isLiteral (expr : Expr) : Bool :=
  expr.literal?.isSome

/-- A lookup of one name in the data at hand. -/
def ofName (name : String) : Expr :=
  .path ⟨.context, [.name name]⟩

end Expr

namespace Operator

def conditional : String := "?:"

def object : String := "\x7b\x7d"

def array : String := "[]"

end Operator

end Stencil
