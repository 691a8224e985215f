import Stencil.Expression.Source
import Stencil.Fragment
import Stencil.Markup.Entity
import Stencil.Markup.Events
import Stencil.Template.Blocks
import Stencil.Template.Composition

/-! Building templates from text and from markup. -/

set_option autoImplicit false

namespace Stencil

/-- What all templates of a compiler share. -/
structure Compiler where
  blocks : BlockMap
  /-- Whether elements with the tag of a view stand for that view. -/
  elementViews : Bool := true
  /-- Whether conditional comments are kept; others never are. -/
  conditionalComments : Bool := true

namespace Compiler

def standard : Compiler :=
  { blocks := .builtins }

variable (compiler : Compiler) (context : ViewContext)

/-- The expression of the text between two delimiters. -/
def expression (source : String) : Except Failure Expression :=
  Expression.parse compiler.blocks.openers source

def addExpression (scope : Scope) (expression : Expression) : Except Failure Scope :=
  match expression.marks.keyword with
  | some keyword => scope.addBlock compiler.blocks keyword expression
  | none =>
      if expression.marks.isView then do
        let node ← context.viewExpression expression
        pure (scope.append node)
      else .ok (scope.append (.dynamic expression))

/-- Delimiters without content are skipped. -/
def addFragment (scope : Scope) : Fragment → Except Failure Scope
  | .literal text => .ok (scope.append (.text text))
  | .delimited content =>
      if content.toList.all Text.isBlank then .ok scope
      else do
        let expression ← compiler.expression content
        compiler.addExpression context scope expression

/-- The fragments of a text are added as they are read, so that a fault in one
of them comes before a fault in the delimiters after it. -/
def addText (scope : Scope) (text : String) : Except Failure Scope := do
  let fragments := Fragment.split text
  let scope ← fragments.items.foldlM (compiler.addFragment context) scope
  match fragments.fault with
  | some cause => .error (.of cause)
  | none => pure scope

/-- The template of a source without markup. -/
def compileString (source : String) : Except Failure Template := do
  let scope ← compiler.addText context .root source
  scope.finish

/-- The attribute of a value's template. One text or one literal is a literal,
and one other expression is dynamic. -/
def attributeOf? : Template → Option Attribute
  | [] => none
  | [.text data] => some (.literal (.string data))
  | [.dynamic expression] =>
      match expression.expr with
      | .literal value => some (.literal value)
      | _ => some (.dynamic expression)
  | content => some (.template content)

/-- An attribute value is compiled in scopes of its own. -/
def attributeValue (name value : String) : Except Failure Attribute := do
  let content ← compiler.compileString context (unescapeEntities value)
  match attributeOf? content with
  | some value => pure value
  | none => .error (.of (.emptyAttribute name value))

def attributeFor (name : String) : Option String → Except Failure Attribute
  | none => .ok (.literal (.bool true))
  | some value =>
      if value.isEmpty then .ok (.literal (.string value))
      else compiler.attributeValue context name value

/-- The attributes of a start tag; a repeated name keeps its first place and its
last value. -/
def attributes (written : List (String × Option String)) : Except Failure (Dict Attribute) :=
  written.foldlM (fun dict entry => do
    let value ← compiler.attributeFor context entry.1 entry.2
    pure (dict.insert entry.1 value)) .empty

/-- The node of an element that has just closed: a reference to a view, or the
element itself. -/
def closed (element : Element) : Except Failure Node :=
  if element.tag = "view" then context.viewElement element
  else if compiler.elementViews then
    match context.lookup.element? element.tag with
    | some view => Node.ofViewElement view element
    | none => .ok (.element element)
  else .ok (.element element)

def closeElement (scope : Scope) (tag name : String) : Except Failure Scope :=
  match scope.leave? with
  | some (content, ⟨.element element :: before, outer⟩) =>
      if element.tag = name then do
        let node ← compiler.closed context { element with content := content }
        pure ⟨node :: before, outer⟩
      else .error (.of (.openTag tag))
  | _ => .error (.of (.openTag tag))

/-- What an event of the markup does to the open scopes. -/
def addEvent (scope : Scope) : Event → Except Failure Scope
  | .startTag _ name written => do
      let attributes ← compiler.attributes context written
      let isVoid := Markup.isVoid name
      let opened := scope.append (.element ⟨name, attributes, [], isVoid⟩)
      pure (if isVoid then opened else opened.enter)
  | .endTag tag name =>
      if Markup.isVoid name then .ok scope else compiler.closeElement context scope tag name
  | .text data => compiler.addText context scope (unescapeEntities data)
  | .comment tag data =>
      if compiler.conditionalComments && Markup.isConditional tag then
        .ok (scope.append (.comment data))
      else .ok scope
  | .other tag =>
      .ok (scope.append (.dynamic ⟨.literal (.string tag), { Marks.plain tag with unescaped := true }⟩))

/-- The template of a source with markup. -/
def compileMarkup (source : String) : Except Failure Template := do
  let scope ← Markup.feed (compiler.addEvent context) Scope.root source
  scope.finish

end Compiler

end Stencil
