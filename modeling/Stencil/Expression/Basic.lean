import Stencil.Expr.Text
import Stencil.Expression.Keyword

/-! Template expressions: a tree, and the marks that keywords leave on it. -/

set_option autoImplicit false

namespace Stencil

/-- Whether the output of an expression stays live. -/
inductive Binding where
  | bound
  | unbound
  deriving DecidableEq, Repr

/-- What the words around the path of an expression say. -/
structure Marks where
  source : String
  keyword : Option Keyword
  isEnd : Bool
  aliasName : Option String
  unescaped : Bool
  binding : Option Binding
  isView : Bool
  deriving DecidableEq, Repr

/-- The marks of an expression without any such words. -/
def Marks.plain (source : String) : Marks :=
  ⟨source, none, false, none, false, none, false⟩

structure Expression where
  expr : Expr
  marks : Marks

namespace Expression

/-- A bare tree; its printed form is its source. -/
def ofExpr (expr : Expr) : Expression :=
  ⟨expr, .plain expr.text⟩

/-- Whether an expression opens, continues or closes a block. -/
def isBlock (expression : Expression) : Bool :=
  expression.marks.keyword.isSome

end Expression

end Stencil
