import Stencil.Dict
import Stencil.Expression.Basic
import Stencil.View.Basic

/-! The tree of a template. -/

set_option autoImplicit false

namespace Stencil

mutual
inductive Node where
  | element (element : Element)
  /-- Text without character references. -/
  | text (data : String)
  /-- The output of an expression. -/
  | dynamic (expression : Expression)
  | comment (data : String)
  | conditional (branches : Branches)
  /-- A loop, and what stands for it if there is nothing to go through. -/
  | each (opener : Expression) (content : List Node) (otherwise : Option (List Node))
  | block (opener : Expression) (content : List Node)
  | view (view : View) (attributes : Dict ViewAttribute)
  /-- A view whose name is known when the template is rendered. -/
  | dynamicView (name : ViewName) (attributes : Dict ViewAttribute)

structure Element where
  tag : String
  attributes : Dict Attribute
  content : List Node
  isVoid : Bool

/-- The guards of a conditional, and the contents that they stand before, in two lists. -/
structure Branches where
  guards : List Expression
  contents : List (List Node)

inductive Attribute where
  | literal (value : Value)
  | dynamic (expression : Expression)
  | template (content : List Node)

inductive ViewName where
  | expression (expression : Expression)
  | template (content : List Node)

/-- What is passed to a view: a value, a template to render in the place of the
reference, or one bag for each of several child elements. -/
inductive ViewAttribute where
  | literal (value : Value)
  | wrapper (content : List Node) (expression : Option Expression)
  | array (bags : List (Dict ViewAttribute))
end

abbrev Template := List Node

/-- A guard with the content that it stands before. -/
structure Branch where
  guard : Expression
  content : List Node

/-- The attributes of a reference to a view. -/
abbrev Bag := Dict ViewAttribute

namespace Node

/-- The expression that opens a block. -/
def opener? : Node → Option Expression
  | .conditional branches => branches.guards.head?
  | .each opener _ _ => some opener
  | .block opener _ => some opener
  | _ => none

end Node

namespace Branches

def ofList (branches : List Branch) : Branches :=
  ⟨branches.map (·.guard), branches.map (·.content)⟩

/-- What is made of each guard with its content. -/
def map {α : Type} (f : Branch → α) (branches : Branches) : List α :=
  List.zipWith (fun guard content => f ⟨guard, content⟩) branches.guards branches.contents

/-- The contents with another one in the place of the last. -/
def fillLast (content : List Node) : List (List Node) → List (List Node)
  | [] => []
  | [_] => [content]
  | first :: rest => first :: fillLast content rest

/-- The branches with a content put into the last one. -/
def fill (content : List Node) (branches : Branches) : Branches :=
  { branches with contents := fillLast content branches.contents }

/-- The branches with one more, which is empty. -/
def add (guard : Expression) (branches : Branches) : Branches :=
  ⟨branches.guards ++ [guard], branches.contents ++ [[]]⟩

/-- One branch, which is empty. -/
def single (guard : Expression) : Branches :=
  ⟨[guard], [[]]⟩

end Branches

namespace Node

/-- The node with a content put where its content is still open: in an element
that is not void, in the last branch, in the else part of a loop or else in
its body, in a block. -/
def fill (content : List Node) : Node → Node
  | .element parent =>
      if parent.isVoid then .element parent else .element { parent with content := content }
  | .conditional branches => .conditional (branches.fill content)
  | .each opener body (some _) => .each opener body (some content)
  | .each opener _ none => .each opener content none
  | .block opener _ => .block opener content
  | node => node

mutual
/-- The openers of all blocks in document order. Attributes and views are not
searched. -/
def openers : Node → List Expression
  | .element ⟨_, _, content, _⟩ => allOpeners content
  | .conditional ⟨guards, contents⟩ => guards.head?.toList ++ contentOpeners contents
  | .each opener content otherwise => opener :: (allOpeners content ++ otherwiseOpeners otherwise)
  | .block opener content => opener :: allOpeners content
  | _ => []

def allOpeners : List Node → List Expression
  | [] => []
  | node :: rest => openers node ++ allOpeners rest

def contentOpeners : List (List Node) → List Expression
  | [] => []
  | content :: rest => allOpeners content ++ contentOpeners rest

def otherwiseOpeners : Option (List Node) → List Expression
  | none => []
  | some content => allOpeners content
end

end Node

end Stencil
