import Mathlib
import Stencil.Proofs.Scope

/-! Nodes as building a template makes them, and what holds of them at every depth.

A node has parts wherever a tree holds other trees: in its content, in the templates
of its attributes, in what it passes to a view. The rules by which nodes are built
say of a node and of all its parts which expressions they hold.
-/

set_option autoImplicit false

namespace Stencil

/-- A value that is not marked as an ending. -/
def Expression.IsOutput (expression : Expression) : Prop :=
  expression.IsValue ∧ expression.marks.isEnd = false

/-- The templates that a bag passes on, and the expression of each that is a
single one. Arrays are searched at any depth. -/
inductive Bag.Wraps : Bag → List Node → Option Expression → Prop where
  | wrapper {bag : Bag} {name : String} {content : List Node} {expression : Option Expression} :
      (name, .wrapper content expression) ∈ bag.entries → Wraps bag content expression
  | array {bag inner : Bag} {name : String} {bags : List Bag} {content : List Node}
      {expression : Option Expression} :
      (name, .array bags) ∈ bag.entries → inner ∈ bags → Wraps inner content expression →
      Wraps bag content expression

namespace Node

/-- The nodes that stand right below a node. -/
inductive Part : Node → Node → Prop where
  | content {element : Element} {child : Node} :
      child ∈ element.content → Part (.element element) child
  | attributes {element : Element} {name : String} {content : List Node} {child : Node} :
      (name, .template content) ∈ element.attributes.entries → child ∈ content →
      Part (.element element) child
  | branch {branches : Branches} {content : List Node} {child : Node} :
      content ∈ branches.contents → child ∈ content → Part (.conditional branches) child
  | body {opener : Expression} {content : List Node} {otherwise : Option (List Node)} {child : Node} :
      child ∈ content → Part (.each opener content otherwise) child
  | otherwise {opener : Expression} {content other : List Node} {child : Node} :
      child ∈ other → Part (.each opener content (some other)) child
  | block {opener : Expression} {content : List Node} {child : Node} :
      child ∈ content → Part (.block opener content) child
  | passed {view : View} {bag : Bag} {content : List Node} {expression : Option Expression}
      {child : Node} : bag.Wraps content expression → child ∈ content → Part (.view view bag) child
  | passedOn {name : ViewName} {bag : Bag} {content : List Node} {expression : Option Expression}
      {child : Node} :
      bag.Wraps content expression → child ∈ content → Part (.dynamicView name bag) child
  | name {content : List Node} {bag : Bag} {child : Node} :
      child ∈ content → Part (.dynamicView (.template content) bag) child

/-- The expressions that a node holds itself. -/
inductive Stores : Node → Expression → Prop where
  | dynamic {expression : Expression} : Stores (.dynamic expression) expression
  | attributes {element : Element} {name : String} {expression : Expression} :
      (name, .dynamic expression) ∈ element.attributes.entries → Stores (.element element) expression
  | guard {branches : Branches} {guard : Expression} :
      guard ∈ branches.guards → Stores (.conditional branches) guard
  | each {opener : Expression} {content : List Node} {otherwise : Option (List Node)} :
      Stores (.each opener content otherwise) opener
  | block {opener : Expression} {content : List Node} : Stores (.block opener content) opener
  | passed {view : View} {bag : Bag} {content : List Node} {expression : Expression} :
      bag.Wraps content (some expression) → Stores (.view view bag) expression
  | passedOn {name : ViewName} {bag : Bag} {content : List Node} {expression : Expression} :
      bag.Wraps content (some expression) → Stores (.dynamicView name bag) expression
  | name {expression : Expression} {bag : Bag} :
      Stores (.dynamicView (.expression expression) bag) expression

/-- A node below another one at any depth, or that node itself. -/
def Reaches : Node → Node → Prop :=
  Relation.ReflTransGen Part

/-- A conditional has as many guards as contents; the first guard opens it, and all
later ones continue it; loops and other blocks hold an opener of their kind; what is
put out is a value; a void element is empty. -/
def Sound (blocks : BlockMap) : Node → Prop
  | .element parent => parent.isVoid = true → parent.content = []
  | .conditional branches => branches.guards.length = branches.contents.length ∧
      ∃ first rest, branches.guards = first :: rest ∧ first.Opens blocks .conditional ∧
        ∀ guard ∈ rest, guard.Continues
  | .each opener _ _ => opener.Opens blocks .each
  | .block opener _ => opener.Opens blocks .generic
  | .dynamic expression => expression.IsValue
  | .text _ | .comment _ | .view _ _ | .dynamicView _ _ => True

end Node

variable {compiler : Compiler} {context : ViewContext}

/-- The nodes that a compiler builds. -/
inductive Built (compiler : Compiler) (context : ViewContext) : Node → Prop where
  | text {data : String} : Built compiler context (.text data)
  | comment {data : String} : Built compiler context (.comment data)
  | value {expression : Expression} : expression.IsOutput → Built compiler context (.dynamic expression)
  -- An element whose tag is not void stands for itself and not for a view.
  | element {element : Element} :
      (element.isVoid = true → element.content = []) →
      (Markup.isVoid element.tag = false → compiler.Keeps context element.tag) →
      (∀ name expression, (name, .dynamic expression) ∈ element.attributes.entries →
        expression.IsOutput) →
      (∀ name content, (name, .template content) ∈ element.attributes.entries →
        ∀ node ∈ content, Built compiler context node) →
      (∀ node ∈ element.content, Built compiler context node) →
      Built compiler context (.element element)
  | conditional {opener : Expression} {guards : List Expression} {contents : List (List Node)} :
      opener.Opens compiler.blocks .conditional → (∀ guard ∈ guards, guard.Continues) →
      (opener :: guards).length = contents.length →
      (∀ content ∈ contents, ∀ node ∈ content, Built compiler context node) →
      Built compiler context (.conditional ⟨opener :: guards, contents⟩)
  | each {opener : Expression} {content : List Node} {otherwise : Option (List Node)} :
      opener.Opens compiler.blocks .each → (∀ node ∈ content, Built compiler context node) →
      (∀ other, otherwise = some other → ∀ node ∈ other, Built compiler context node) →
      Built compiler context (.each opener content otherwise)
  | block {opener : Expression} {content : List Node} :
      opener.Opens compiler.blocks .generic → (∀ node ∈ content, Built compiler context node) →
      Built compiler context (.block opener content)
  | view {view : View} {bag : Bag} :
      (∀ content expression, bag.Wraps content expression →
        ∀ node ∈ content, Built compiler context node) →
      (∀ content expression, bag.Wraps content (some expression) → expression.IsOutput) →
      Built compiler context (.view view bag)
  | dynamicView {name : ViewName} {bag : Bag} :
      (∀ expression, name = .expression expression → expression.IsOutput) →
      (∀ nodes, name = .template nodes → ∀ node ∈ nodes, Built compiler context node) →
      (∀ content expression, bag.Wraps content expression →
        ∀ node ∈ content, Built compiler context node) →
      (∀ content expression, bag.Wraps content (some expression) → expression.IsOutput) →
      Built compiler context (.dynamicView name bag)

namespace Built

theorem part {node child : Node} (built : Built compiler context node) (part : node.Part child) :
    Built compiler context child := by
  cases part with
  | content member => cases built with | element _ _ _ _ content => exact content _ member
  | attributes entry member =>
      cases built with | element _ _ _ templates _ => exact templates _ _ entry _ member
  | branch among member => cases built with | conditional _ _ _ contents => exact contents _ among _ member
  | body member => cases built with | each _ content _ => exact content _ member
  | otherwise member => cases built with | each _ _ others => exact others _ rfl _ member
  | block member => cases built with | block _ content => exact content _ member
  | passed wraps member => cases built with | view nodes _ => exact nodes _ _ wraps _ member
  | passedOn wraps member =>
      cases built with | dynamicView _ _ nodes _ => exact nodes _ _ wraps _ member
  | name member => cases built with | dynamicView _ names _ _ => exact names _ rfl _ member

theorem reaches {node other : Node} (built : Built compiler context node)
    (reaches : node.Reaches other) : Built compiler context other := by
  induction reaches with
  | refl => exact built
  | tail _ part ih => exact ih.part part

theorem sound {node : Node} (built : Built compiler context node) : node.Sound compiler.blocks := by
  cases built with
  | text | comment | view | dynamicView => trivial
  | value isOutput => exact isOutput.1
  | element isEmpty => exact isEmpty
  | conditional opens continues lengths _ => exact ⟨lengths, _, _, rfl, opens, continues⟩
  | each opens => exact opens
  | block opens => exact opens

/-- No node holds an ending. -/
theorem isEnd_of_stores {node : Node} {expression : Expression} (built : Built compiler context node)
    (stores : node.Stores expression) : expression.marks.isEnd = false := by
  cases stores with
  | dynamic => cases built with | value isOutput => exact isOutput.2
  | attributes entry =>
      cases built with | element _ _ dynamics _ _ => exact (dynamics _ _ entry).2
  | guard among =>
      cases built with
      | conditional opens continues _ _ =>
          obtain ⟨_, _, isOpen, _⟩ := opens
          rcases List.mem_cons.1 among with rfl | later
          · exact isOpen
          · exact (continues _ later).1
  | each => cases built with | each opens => obtain ⟨_, _, isOpen, _⟩ := opens; exact isOpen
  | block => cases built with | block opens => obtain ⟨_, _, isOpen, _⟩ := opens; exact isOpen
  | passed wraps => cases built with | view _ values => exact (values _ _ wraps).2
  | passedOn wraps => cases built with | dynamicView _ _ _ values => exact (values _ _ wraps).2
  | name => cases built with | dynamicView names => exact (names _ rfl).2

end Built

namespace Element

/-- An element whose attributes and content are built. -/
structure Kept (compiler : Compiler) (context : ViewContext) (element : Element) : Prop where
  dynamics : ∀ name expression, (name, .dynamic expression) ∈ element.attributes.entries →
    expression.IsOutput
  templates : ∀ name content, (name, .template content) ∈ element.attributes.entries →
    ∀ node ∈ content, Built compiler context node
  content : ∀ node ∈ element.content, Built compiler context node

end Element

end Stencil
