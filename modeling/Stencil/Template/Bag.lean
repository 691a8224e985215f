import Stencil.Failure
import Stencil.Template.Node
import Stencil.Text.Uppercase

/-! The attributes that are passed to a view. -/

set_option autoImplicit false

namespace Stencil

/-- Each dash and the character after it give way to the upper case of that
character. A line feed is not taken. -/
def camelCase : List Char → List Char
  | [] => []
  | [c] => [c]
  | c :: next :: rest =>
      if c = '-' && next != '\n' then Text.uppercase next ++ camelCase rest
      else c :: camelCase (next :: rest)

namespace ViewAttribute

/-- A template that is one expression. -/
def ofExpression (expression : Expression) : ViewAttribute :=
  .wrapper [.dynamic expression] (some expression)

def ofContent (content : List Node) : ViewAttribute :=
  .wrapper content none

def ofAttribute : Attribute → ViewAttribute
  | .literal value => .literal value
  | .dynamic expression => ofExpression expression
  | .template content => ofContent content

end ViewAttribute

namespace Bag

/-- The name under which a view finds the content that nothing else claims. -/
def contentName : String := "content"

/-- The attributes of an element, under names in camel case. -/
def ofAttributes (attributes : Dict Attribute) : Bag :=
  attributes.entries.foldl (fun bag entry =>
    bag.insert (String.ofList (camelCase entry.1.toList)) (.ofAttribute entry.2)) .empty

/-- The bag with a content, unless it has one or there is nothing to add. -/
def addContent (bag : Bag) (content : List Node) : Bag :=
  if bag.contains contentName || content.isEmpty then bag
  else bag.insert contentName (.ofContent content)

/-- The bag with one more item in the array of a name. -/
def addItem (bag : Bag) (name : String) (item : Bag) : Except Failure Bag :=
  match bag.find? name with
  | none => .ok (bag.insert name (.array [item]))
  | some (.array items) => .ok (bag.insert name (.array (items ++ [item])))
  | some _ => .error (.of (.mixedAttribute name))

/-- The bag of alternating names and values, as an object with expressions for
values holds them. -/
def ofPairs (source : String) (bag : Bag) : List Expr → Except Failure Bag
  | [] => .ok bag
  | .literal (.string name) :: value :: rest =>
      let passed := match value with
        | .literal constant => .literal constant
        | value => .ofExpression (.ofExpr value)
      ofPairs source (bag.insert name passed) rest
  | _ => .error (.of (.misplacedExpression source))

/-- Pairs add literals and single expressions. -/
theorem ofPairs_induction {motive : Bag → Prop} {source : String} {bag after : Bag}
    {pairs : List Expr} (read : ofPairs source bag pairs = .ok after) (start : motive bag)
    (literal : ∀ bag name value, motive bag → motive (bag.insert name (.literal value)))
    (single : ∀ bag name value, motive bag →
      motive (bag.insert name (.ofExpression (.ofExpr value)))) : motive after := by
  fun_induction ofPairs source bag pairs with
  | case1 bag =>
      cases read
      exact start
  | case2 bag name value rest passed ih =>
      apply ih read
      cases value with
      | literal constant => exact literal bag name constant start
      | _ => exact single bag name _ start
  | case3 => cases read

/-- The bag of the object in a view expression. -/
def ofExpr (source : String) : Option Expr → Except Failure Bag
  | none => .ok .empty
  | some (.literal (.object members)) =>
      .ok (members.entries.foldl (fun bag entry => bag.insert entry.1 (.literal entry.2)) .empty)
  | some (.operator name args) =>
      if name = Operator.object then ofPairs source .empty args
      else .error (.of (.misplacedExpression source))
  | some _ => .error (.of (.misplacedExpression source))

end Bag

end Stencil
