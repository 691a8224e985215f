import Stencil.Template.Bag

/-! References to views. -/

set_option autoImplicit false

namespace Stencil

/-- Where a template compiles: the views it can see, and the namespace it is in. -/
structure ViewContext where
  lookup : ViewLookup
  home : Option String

namespace ViewContext

def detached : ViewContext :=
  ⟨.detached, none⟩

def findView (context : ViewContext) (name : String) : Except Failure View :=
  match context.lookup.find? name context.home with
  | some view => .ok view
  | none => .error (.of (.unknownView name))

end ViewContext

namespace Element

/-- The name that an `attribute` or `array` element gives, and the element
without it. -/
def takeName (element : Element) : Except Failure (String × Element) :=
  match element.attributes.find? "name" with
  | some (.literal (.string name)) =>
      if name.isEmpty then .error (.of (.unnamedChild element.tag))
      else .ok (name, { element with attributes := element.attributes.erase "name" })
  | _ => .error (.of (.unnamedChild element.tag))

/-- The bag of an element: its attributes, and its content by default. -/
def bag (element : Element) : Bag :=
  (Bag.ofAttributes element.attributes).addContent element.content

/-- How a view takes a child element. -/
inductive Claim where
  | passed (name : String) (element : Element)
  | collected (name : String) (element : Element)

/-- The claim of a view on a child element. The tag `attribute` comes before
the attributes that the view declares, these before the tag `array`, and this
before the arrays that the view declares. -/
def claim? (view : View) (element : Element) : Except Failure (Option Claim) :=
  if element.tag = "attribute" then do
    let (name, element) ← element.takeName
    pure (some (.passed name element))
  else if element.tag ∈ view.attributes then .ok (some (.passed element.tag element))
  else if element.tag = "array" then do
    let (name, element) ← element.takeName
    pure (some (.collected name element))
  else if element.tag ∈ view.arrays then .ok (some (.collected element.tag element))
  else .ok none

/-- The bag with what a claim takes. -/
def Claim.addTo (bag : Bag) : Claim → Except Failure Bag
  | .passed name element => .ok (bag.insert name (.ofContent element.content))
  | .collected name element => bag.addItem name element.bag

end Element

/-- The bag with the child elements that a view claims, and the other nodes in
their order. -/
def claimContent (view : View) (bag : Bag) : List Node → Except Failure (Bag × List Node)
  | [] => .ok (bag, [])
  | node :: rest => do
      let claim ← match node with
        | .element element => element.claim? view
        | _ => pure none
      match claim with
      | some claim => claimContent view (← claim.addTo bag) rest
      | none => do
          let (bag, remaining) ← claimContent view bag rest
          pure (bag, node :: remaining)

/-- A reference to a known view by an element. -/
def Node.ofViewElement (view : View) (element : Element) : Except Failure Node := do
  let (bag, remaining) ← claimContent view (Bag.ofAttributes element.attributes) element.content
  pure (.view view (bag.addContent remaining))

namespace ViewContext

/-- The reference that a closed `view` element makes. A name that is no literal
is left to rendering, and the whole content with it. -/
def viewElement (context : ViewContext) (element : Element) : Except Failure Node :=
  let unnamed := { element with attributes := element.attributes.erase "name" }
  match element.attributes.find? "name" with
  | some (.literal (.string name)) =>
      if name.isEmpty then .error (.of .unnamedView)
      else do
        let view ← context.findView name
        Node.ofViewElement view unnamed
  | some (.dynamic expression) => .ok (.dynamicView (.expression expression) unnamed.bag)
  | some (.template content) => .ok (.dynamicView (.template content) unnamed.bag)
  | _ => .error (.of .unnamedView)

/-- The reference that a view expression makes: a name, and an object of
attributes or none. The attributes are read before the name is looked up. -/
def viewExpression (context : ViewContext) (expression : Expression) : Except Failure Node := do
  let source := expression.marks.source
  let (name, object) ← match expression.expr with
    | .sequence [] => .error (Failure.of (.misplacedExpression source))
    | .sequence [name] => pure (name, none)
    | .sequence [name, object] => pure (name, some object)
    | .sequence _ => .error (Failure.of (.misplacedExpression source))
    | name => pure (name, none)
  let bag ← Bag.ofExpr source object
  match name with
  | .literal (.string name) => do
      let view ← context.findView name
      pure (.view view bag)
  | .path _ | .call _ _ | .operator _ _ => pure (.dynamicView (.expression (.ofExpr name)) bag)
  | _ => .error (.of (.misplacedExpression source))

end ViewContext

end Stencil
