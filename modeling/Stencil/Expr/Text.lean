import Stencil.Expr.Basic
import Stencil.Value.Text

/-! The printed form of an expression.

The form shows the tree for people to read. It sets no brackets around the
arguments of operators, so not every tree reads back from it.
-/

set_option autoImplicit false

namespace Stencil

def Root.text : Root → String
  | .context => ""
  | .relative => "this"
  | .ofAlias name => "#" ++ name
  | .ofAttribute name => "@" ++ name

/-- A pair of an object; a literal name stands without quotes. -/
def pairText (key : Option Value) (name value : String) : String :=
  match key with
  | some (.string bare) => bare ++ ": " ++ value
  | _ => name ++ ": " ++ value

/-- Arguments with their printed forms, two by two; the last may be alone. -/
def pairTexts : List (Option Value × String) → List String
  | [] => []
  | [(_, name)] => [name]
  | (key, name) :: (_, value) :: rest => pairText key name value :: pairTexts rest

/-- An operator with the printed forms of its arguments. -/
def operatorText (name : String) (args : List (Option Value × String)) : String :=
  let texts := args.map (·.2)
  if name = Operator.object then "\x7b" ++ ", ".intercalate (pairTexts args) ++ "\x7d"
  else if name = Operator.array then "[" ++ ", ".intercalate texts ++ "]"
  else match texts with
    | [test, consequent, alternate] =>
        if name = Operator.conditional then test ++ " ? " ++ consequent ++ " : " ++ alternate
        else name ++ "(" ++ ", ".intercalate texts ++ ")"
    | [arg] => name ++ arg
    | [left, right] => left ++ " " ++ name ++ " " ++ right
    | texts => name ++ "(" ++ ", ".intercalate texts ++ ")"

mutual
def Expr.text : Expr → String
  | .empty => ""
  | .literal value => value.text
  | .path path => path.text
  | .call path args => path.text ++ "(" ++ ", ".intercalate (Expr.texts args) ++ ")"
  | .operator name args => operatorText name (Expr.labelled args)
  | .sequence args => ", ".intercalate (Expr.texts args)

def Expr.texts : List Expr → List String
  | [] => []
  | arg :: rest => arg.text :: Expr.texts rest

/-- Each argument's value, if it is a literal, with its printed form. -/
def Expr.labelled : List Expr → List (Option Value × String)
  | [] => []
  | arg :: rest => (arg.literal?, arg.text) :: Expr.labelled rest

def Path.text : Path → String
  | ⟨root, segments⟩ => root.text ++ Segment.texts (root = .context) segments

/-- A point stands before every name but one that starts the path. -/
def Segment.texts : Bool → List Segment → String
  | _, [] => ""
  | first, segment :: rest => segment.text first ++ Segment.texts false rest

def Segment.text : Bool → Segment → String
  | first, .name name => if first then name else "." ++ name
  | _, .index index => "[" ++ index.text ++ "]"
end

end Stencil
