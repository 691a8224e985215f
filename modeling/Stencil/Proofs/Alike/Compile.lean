import Mathlib.Data.List.Forall2
import Stencil.Proofs.Alike
import Stencil.Template.Compile

/-! Compiling one source with two lookups.

Where the second lookup has a view for all that the first one finds, and the views claim
alike, both runs stay together up to a name that the first does not find.
-/

set_option autoImplicit false

namespace Stencil

open List (Forall₂)
open Dict (Matches)

namespace Branches

theorem alike_fillLast {first second : List (List Node)}
    (contents : Forall₂ (Forall₂ Node.Alike) first second) {content inner : List Node}
    (nodes : Forall₂ Node.Alike content inner) :
    Forall₂ (Forall₂ Node.Alike) (fillLast content first) (fillLast inner second) := by
  induction contents with
  | nil => exact .nil
  | cons old rest ih =>
      cases rest with
      | nil => exact .cons nodes .nil
      | cons => exact .cons old ih

variable {first second : Branches}

theorem Alike.fill (same : first.Alike second) {content inner : List Node}
    (nodes : Forall₂ Node.Alike content inner) : (first.fill content).Alike (second.fill inner) := by
  obtain ⟨contents⟩ := same
  exact .mk (alike_fillLast contents nodes)

theorem Alike.add (same : first.Alike second) (guard : Expression) :
    (first.add guard).Alike (second.add guard) := by
  obtain ⟨contents⟩ := same
  exact .mk (List.rel_append contents (.cons .nil .nil))

end Branches

namespace Node

variable {node other : Node}

theorem Alike.opener?_eq (same : node.Alike other) : node.opener? = other.opener? := by
  cases same with
  | conditional branches =>
      obtain ⟨contents⟩ := branches
      rfl
  | _ => rfl

theorem Alike.fill (same : node.Alike other) {content inner : List Node}
    (nodes : Forall₂ Node.Alike content inner) : (node.fill content).Alike (other.fill inner) := by
  cases same with
  | element elements =>
      have filled := elements.withContent nodes
      obtain ⟨attributes, old⟩ := elements
      simp only [Node.fill]
      split
      · exact .element (.mk attributes old)
      · exact .element filled
  | conditional branches => exact .conditional (branches.fill nodes)
  | each body otherwise =>
      cases otherwise with
      | none => exact .each nodes .none
      | some => exact .each body (.some nodes)
  | block => exact .block nodes
  | text => exact .text
  | dynamic => exact .dynamic
  | comment => exact .comment
  | view bags => exact .view bags
  | dynamicView names bags => exact .dynamicView names bags

end Node

namespace Scope

/-- The same scopes are open, and what they hold is alike. -/
structure Alike (first second : Scope) : Prop where
  current : Forall₂ Node.Alike first.current second.current
  outer : Forall₂ (Forall₂ Node.Alike) first.outer second.outer

variable {first second : Scope}

theorem alike_root : Alike root root :=
  ⟨.nil, .nil⟩

theorem Alike.append (same : first.Alike second) {node other : Node} (nodes : node.Alike other) :
    (first.append node).Alike (second.append other) :=
  ⟨.cons nodes same.current, same.outer⟩

theorem Alike.enter (same : first.Alike second) : first.enter.Alike second.enter :=
  ⟨.nil, .cons same.current same.outer⟩

theorem Alike.finish (same : first.Alike second) :
    Lockstep (Forall₂ Node.Alike) first.finish second.finish := by
  obtain ⟨current, outer⟩ := same
  simp only [Scope.finish, Scope.depth, outer.length_eq, ← List.length_eq_zero_iff, List.isEmpty_iff]
  split
  · exact .done (List.rel_reverse current)
  · exact .failed

theorem Alike.closeBlock (same : first.Alike second) (keyword : Keyword) (expression : Expression) :
    Lockstep Alike (first.closeBlock keyword expression) (second.closeBlock keyword expression) := by
  obtain ⟨current, outer⟩ := first
  obtain ⟨current', outer'⟩ := second
  obtain ⟨content, scopes⟩ := same
  cases scopes with
  | nil => exact .failed
  | cons around outer =>
      cases around with
      | nil => exact .failed
      | cons node before =>
          simp only [Scope.closeBlock, Scope.leave?, node.opener?_eq]
          split
          · split
            · exact .done ⟨.cons (node.fill (List.rel_reverse content)) before, outer⟩
            · exact .failed
          · exact .failed

theorem Alike.continueBlock (same : first.Alike second) (keyword : Keyword) (expression : Expression) :
    Lockstep Alike (first.continueBlock keyword expression)
      (second.continueBlock keyword expression) := by
  obtain ⟨current, outer⟩ := first
  obtain ⟨current', outer'⟩ := second
  obtain ⟨content, scopes⟩ := same
  cases scopes with
  | nil => exact .failed
  | cons around outer =>
      cases around with
      | nil => exact .failed
      | cons node before =>
          -- Only the two kinds of blocks that have parts go on.
          cases node with
          | conditional branches =>
              have filled := (branches.fill (List.rel_reverse content)).add expression
              exact .done (Alike.enter ⟨.cons (.conditional filled) before, outer⟩)
          | each body otherwise =>
              cases otherwise with
              | some => exact .failed
              | none =>
                  simp only [Scope.continueBlock, Scope.leave?]
                  split
                  · refine .done (Alike.enter ⟨.cons ?_ before, outer⟩)
                    exact .each (List.rel_reverse content) (.some .nil)
                  · exact .failed
          | _ => exact .failed

theorem Alike.addBlock (same : first.Alike second) (blocks : BlockMap) (keyword : Keyword)
    (expression : Expression) :
    Lockstep Alike (first.addBlock blocks keyword expression)
      (second.addBlock blocks keyword expression) := by
  unfold Scope.addBlock
  split
  · exact same.closeBlock keyword expression
  split
  · exact same.continueBlock keyword expression
  · refine .done (same.append ?_).enter
    cases blocks.kind keyword with
    | conditional => exact .conditional (.mk (.cons .nil .nil))
    | each => exact .each .nil .none
    | generic => exact .block .nil

end Scope

namespace Compiler

variable (compiler : Compiler) {first second : ViewContext} (covered : first.CoveredBy second)

include covered

theorem addExpression_lockstep {scope other : Scope} (same : scope.Alike other) (expression : Expression) :
    Lockstep Scope.Alike (compiler.addExpression first scope expression)
      (compiler.addExpression second other expression) := by
  unfold addExpression
  split
  · exact same.addBlock compiler.blocks _ expression
  split
  · exact (covered.viewExpression expression).bind fun _ _ nodes => .done (same.append nodes)
  · exact .done (same.append .dynamic)

theorem addFragment_lockstep {scope other : Scope} (same : scope.Alike other) (fragment : Fragment) :
    Lockstep Scope.Alike (compiler.addFragment first scope fragment)
      (compiler.addFragment second other fragment) := by
  cases fragment with
  | literal text => exact .done (same.append .text)
  | delimited content =>
      simp only [addFragment]
      split
      · exact .done same
      · exact Lockstep.bind_same fun expression => compiler.addExpression_lockstep covered same expression

theorem addText_lockstep {scope other : Scope} (same : scope.Alike other) (text : String) :
    Lockstep Scope.Alike (compiler.addText first scope text) (compiler.addText second other text) := by
  have taken := Lockstep.foldlM (fun _ _ fragment same => compiler.addFragment_lockstep covered same fragment)
    same (Fragment.split text).items
  refine taken.bind fun _ _ same => ?_
  split
  · exact .failed
  · exact .done same

theorem compileString_lockstep (source : String) :
    Lockstep (Forall₂ Node.Alike) (compiler.compileString first source)
      (compiler.compileString second source) :=
  (compiler.addText_lockstep covered Scope.alike_root source).bind fun _ _ same => same.finish

omit covered in
theorem alike_attributeOf? {content inner : Template} (nodes : Forall₂ Node.Alike content inner) :
    Option.Rel Attribute.Alike (attributeOf? content) (attributeOf? inner) := by
  cases nodes with
  | nil => exact .none
  | cons node rest =>
      have several := Option.Rel.some (Attribute.Alike.template (.cons node rest))
      cases rest with
      | cons => cases node <;> exact several
      | nil =>
          -- A single text or expression is no template.
          cases node with
          | text => exact .some .literal
          | @dynamic expression =>
              simp only [attributeOf?]
              split
              · exact .some .literal
              · exact .some .dynamic
          | _ => exact several

theorem attributeFor_lockstep (name : String) (value : Option String) :
    Lockstep Attribute.Alike (compiler.attributeFor first name value)
      (compiler.attributeFor second name value) := by
  unfold attributeFor
  split
  · exact .done .literal
  split
  · exact .done .literal
  · refine (compiler.compileString_lockstep covered _).bind fun content inner nodes => ?_
    have passed := alike_attributeOf? nodes
    generalize attributeOf? content = left, attributeOf? inner = right at passed
    cases passed with
    | none => exact .failed
    | some values => exact .done values

theorem attributes_lockstep (written : List (String × Option String)) :
    Lockstep (Matches Attribute.Alike) (compiler.attributes first written)
      (compiler.attributes second written) := by
  refine Lockstep.foldlM (fun left right entry same => ?_) Dict.matches_empty written
  exact (compiler.attributeFor_lockstep covered entry.1 entry.2).bind fun _ _ values =>
    .done (same.insert entry.1 values)

theorem closed_lockstep {element other : Element} (same : element.Alike other) :
    Lockstep Node.Alike (compiler.closed first element) (compiler.closed second other) := by
  simp only [closed, same.tag_eq]
  split
  · exact covered.viewElement same
  split
  · have found := covered.elements other.tag
    generalize first.lookup.element? other.tag = left, second.lookup.element? other.tag = right at found
    cases found with
    | none => exact .done (.element same)
    | some claims => exact same.reference claims
  · exact .done (.element same)

theorem closeElement_lockstep {scope other : Scope} (same : scope.Alike other) (tag name : String) :
    Lockstep Scope.Alike (compiler.closeElement first scope tag name)
      (compiler.closeElement second other tag name) := by
  obtain ⟨current, outer⟩ := scope
  obtain ⟨current', outer'⟩ := other
  obtain ⟨content, scopes⟩ := same
  cases scopes with
  | nil => exact .failed
  | cons around outer =>
      cases around with
      | nil => exact .failed
      | cons node before =>
          cases node with
          | element elements =>
              have closes := compiler.closed_lockstep covered
                (elements.withContent (List.rel_reverse content))
              obtain ⟨attributes, old⟩ := elements
              simp only [closeElement, Scope.leave?]
              split
              · exact closes.bind fun _ _ nodes => .done ⟨.cons nodes before, outer⟩
              · exact .failed
          | _ => exact .failed

theorem addEvent_lockstep {scope other : Scope} (same : scope.Alike other) (event : Event) :
    Lockstep Scope.Alike (compiler.addEvent first scope event)
      (compiler.addEvent second other event) := by
  cases event with
  | startTag tag name written =>
      refine (compiler.attributes_lockstep covered written).bind fun dict dict' attributes => ?_
      have element : Element.Alike ⟨name, dict, [], Markup.isVoid name⟩
          ⟨name, dict', [], Markup.isVoid name⟩ := .mk attributes .nil
      have opened := same.append (.element element)
      simp only
      split
      · exact .done opened
      · exact .done opened.enter
  | endTag tag name =>
      simp only [addEvent]
      split
      · exact .done same
      · exact compiler.closeElement_lockstep covered same tag name
  | text data => exact compiler.addText_lockstep covered same _
  | comment tag data =>
      simp only [addEvent]
      split
      · exact .done (same.append .comment)
      · exact .done same
  | other tag => exact .done (same.append .dynamic)

/-- Both lookups give the same failure or templates that differ only in their views,
but where the first one misses a name. -/
theorem compileMarkup_lockstep (source : String) :
    Lockstep (Forall₂ Node.Alike) (compiler.compileMarkup first source)
      (compiler.compileMarkup second source) := by
  have taken := Lockstep.foldlM (fun _ _ event same => compiler.addEvent_lockstep covered same event)
    Scope.alike_root (Markup.events source)
  exact taken.bind fun _ _ same => same.finish

end Compiler

end Stencil
