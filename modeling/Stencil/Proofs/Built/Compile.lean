import Stencil.Proofs.Composition
import Stencil.Proofs.Marks

/-! What compiles is built.

The open scopes are as the nodes below them: what stands in a scope is built, and the
newest node of every scope around it is an element or a block whose content is still
to come. Each piece keeps it so, and then so does a whole source.
-/

set_option autoImplicit false

namespace Stencil

variable {compiler : Compiler} {context : ViewContext}

namespace Built

theorem dynamic_iff {expression : Expression} :
    Built compiler context (.dynamic expression) ↔ expression.IsOutput := by
  constructor
  · intro built
    cases built with | value isOutput => exact isOutput
  · exact .value

theorem kept_iff_holds {element : Element} :
    element.Kept compiler context ↔ element.Holds (Built compiler context) := by
  constructor
  · intro kept
    refine ⟨?_, kept.content⟩
    rintro ⟨name, value⟩ entry
    cases value with
    | literal => trivial
    | dynamic => exact dynamic_iff.2 (kept.dynamics _ _ entry)
    | template => exact kept.templates _ _ entry
  · intro holds
    exact ⟨fun _ _ entry => dynamic_iff.1 (holds.attributes _ entry),
      fun _ _ entry => holds.attributes _ entry, holds.content⟩

/-- References to views are built of what is built. -/
theorem composes : Node.Composes (Built compiler context) where
  element element built := by
    cases built with
    | element _ _ dynamics templates content => exact kept_iff_holds.1 ⟨dynamics, templates, content⟩
  bare expr := .value ⟨⟨rfl, rfl⟩, rfl⟩
  view view bag holds := .view holds.nodes fun _ _ wraps => dynamic_iff.1 (holds.values _ _ wraps)
  named expression bag built holds := by
    refine .dynamicView ?_ ?_ holds.nodes fun _ _ wraps => dynamic_iff.1 (holds.values _ _ wraps)
    · rintro other ⟨⟩
      exact dynamic_iff.1 built
    · rintro nodes ⟨⟩
  templateNamed content bag built holds := by
    refine .dynamicView ?_ ?_ holds.nodes fun _ _ wraps => dynamic_iff.1 (holds.values _ _ wraps)
    · rintro other ⟨⟩
    · rintro nodes ⟨⟩
      exact built

/-- An element that closes stands for itself or for a view. -/
theorem closed {element : Element} {node : Node} (kept : element.Kept compiler context)
    (isOpen : element.isVoid = false) (closed : compiler.closed context element = .ok node) :
    Built compiler context node := by
  refine composes.closed (kept_iff_holds.1 kept) (fun keeps => ?_) closed
  exact .element (fun isVoid => absurd isVoid (by simp [isOpen])) (fun _ => keeps) kept.dynamics
    kept.templates kept.content

end Built

/-- A node whose content is still to come. -/
inductive Opened (compiler : Compiler) (context : ViewContext) : Node → Prop where
  | element {element : Element} :
      element.isVoid = false → element.Kept compiler context → Opened compiler context (.element element)
  | block {node : Node} {opener : Expression} :
      Built compiler context node → node.opener? = some opener → Opened compiler context node

/-- Whatever closes later will be built. -/
structure Scope.Kept (compiler : Compiler) (context : ViewContext) (scope : Scope) : Prop where
  current : ∀ node ∈ scope.current, Built compiler context node
  outer : ∀ frame ∈ scope.outer, ∃ newest before, frame = newest :: before ∧
    Opened compiler context newest ∧ ∀ node ∈ before, Built compiler context node

namespace Built

variable {branches : Branches} {content : List Node}

theorem fillLast (built : Built compiler context (.conditional branches))
    (nodes : ∀ node ∈ content, Built compiler context node) :
    Built compiler context (.conditional (branches.fill content)) := by
  cases built with
  | conditional opens continues lengths contents =>
      refine .conditional opens continues (by simpa using lengths) ?_
      intro inside member
      rcases Branches.mem_fillLast member with old | rfl
      · exact contents inside old
      · exact nodes

theorem concat {guard : Expression} (built : Built compiler context (.conditional branches))
    (goesOn : guard.Continues) : Built compiler context (.conditional (branches.add guard)) := by
  cases built with
  | conditional opens continues lengths contents =>
      refine .conditional opens ?_ (by simpa using lengths) ?_
      · intro other member
        rcases List.mem_append.1 member with old | new
        · exact continues other old
        · obtain rfl := List.mem_singleton.1 new
          exact goesOn
      · intro inside member
        rcases List.mem_append.1 member with old | new
        · exact contents inside old
        · obtain rfl := List.mem_singleton.1 new
          exact fun _ absent => absurd absent List.not_mem_nil

theorem fill {node : Node} {opener : Expression} (built : Built compiler context node)
    (isBlock : node.opener? = some opener) (nodes : ∀ node ∈ content, Built compiler context node) :
    Built compiler context (node.fill content) := by
  cases node with
  | conditional branches => exact built.fillLast nodes
  | each opener body otherwise =>
      cases built with
      | each opens here _ =>
          cases otherwise with
          | none => exact .each opens nodes fun _ none => by cases none
          | some other =>
              refine .each opens here ?_
              rintro other ⟨⟩
              exact nodes
  | block opener body => cases built with | block opens _ => exact .block opens nodes
  | _ => cases isBlock

theorem blockNode {expression : Expression} {kind : BlockKind}
    (opens : expression.Opens compiler.blocks kind) :
    Built compiler context (Scope.blockNode expression kind) := by
  cases kind with
  | conditional =>
      refine .conditional opens ?_ rfl ?_
      · exact fun _ absent => absurd absent List.not_mem_nil
      · intro content member
        obtain rfl := List.mem_singleton.1 member
        exact fun _ absent => absurd absent List.not_mem_nil
  | each =>
      refine .each opens ?_ ?_
      · exact fun _ absent => absurd absent List.not_mem_nil
      · exact fun _ none => by cases none
  | generic => exact .block opens fun _ absent => absurd absent List.not_mem_nil

end Built

namespace Scope.Kept

variable {scope after : Scope} {node : Node}

theorem root : Scope.Kept compiler context .root where
  current _ absent := absurd absent List.not_mem_nil
  outer _ absent := absurd absent List.not_mem_nil

theorem append (kept : scope.Kept compiler context) (built : Built compiler context node) :
    (scope.append node).Kept compiler context where
  current := List.forall_mem_cons.2 ⟨built, kept.current⟩
  outer := kept.outer

/-- The scope in a node that has just been opened. -/
theorem enter (kept : scope.Kept compiler context) (opened : Opened compiler context node) :
    (scope.append node).enter.Kept compiler context where
  current _ absent := absurd absent List.not_mem_nil
  outer := List.forall_mem_cons.2 ⟨⟨node, scope.current, rfl, opened, kept.current⟩, kept.outer⟩

/-- The scope around, with its newest node closed. -/
theorem leave {current before : List Node} {outer : List (List Node)} {newest : Node}
    (kept : Scope.Kept compiler context ⟨current, (newest :: before) :: outer⟩) :
    Opened compiler context newest ∧ Scope.Kept compiler context ⟨before, outer⟩ := by
  obtain ⟨here, others⟩ := List.forall_mem_cons.1 kept.outer
  obtain ⟨_, _, same, opened, built⟩ := here
  cases same
  exact ⟨opened, built, others⟩

theorem closeElement {tag name : String} (kept : scope.Kept compiler context)
    (passed : compiler.closeElement context scope tag name = .ok after) :
    after.Kept compiler context := by
  obtain ⟨current, around⟩ := scope
  obtain ⟨element, before, outer, node, rfl, -, closed, rfl⟩ :=
    Compiler.closeElement_eq_ok_iff.1 passed
  obtain ⟨opened, left⟩ := kept.leave
  cases opened with
  | element isOpen own =>
      have whole : ({ element with content := current.reverse } : Element).Kept compiler context :=
        ⟨own.dynamics, own.templates, fun node member => kept.current node (List.mem_reverse.1 member)⟩
      exact left.append (.closed whole isOpen closed)
  | block _ isBlock => cases isBlock

theorem closeBlock {keyword : Keyword} {expression : Expression} (kept : scope.Kept compiler context)
    (passed : scope.closeBlock keyword expression = .ok after) : after.Kept compiler context := by
  obtain ⟨current, around⟩ := scope
  obtain ⟨node, before, outer, opener, rfl, isBlock, -, rfl⟩ := Scope.closeBlock_eq_ok_iff.1 passed
  obtain ⟨opened, left⟩ := kept.leave
  cases opened with
  | element => cases isBlock
  | block built _ =>
      refine left.append (built.fill isBlock ?_)
      exact fun node member => kept.current node (List.mem_reverse.1 member)

theorem continueBlock {keyword : Keyword} {expression : Expression}
    (kept : scope.Kept compiler context) (isOpen : expression.marks.isEnd = false)
    (here : expression.marks.keyword = some keyword) (goesOn : keyword.continues = true)
    (passed : scope.continueBlock keyword expression = .ok after) : after.Kept compiler context := by
  obtain ⟨current, around⟩ := scope
  have nodes : ∀ node ∈ current.reverse, Built compiler context node :=
    fun node member => kept.current node (List.mem_reverse.1 member)
  rcases Scope.continueBlock_eq_ok_iff.1 passed with
    ⟨branches, before, outer, rfl, rfl⟩ | ⟨opener, body, before, outer, rfl, rfl, rfl⟩
  · obtain ⟨opened, left⟩ := kept.leave
    have continues : expression.Continues := .of_keyword isOpen here goesOn
    cases opened with
    | block built _ =>
        have more := (built.fillLast nodes).concat continues
        obtain ⟨-, first, rest, shape, -⟩ := more.sound
        exact left.enter (.block more (congrArg List.head? shape))
  · obtain ⟨opened, left⟩ := kept.leave
    cases opened with
    | block built _ =>
        cases built with
        | each opens _ _ =>
            refine left.enter (.block (.each opens nodes ?_) rfl)
            rintro other ⟨⟩
            exact fun _ absent => absurd absent List.not_mem_nil

end Scope.Kept

/-- A piece that brings nothing unbuilt with it, and no ending without a keyword. -/
inductive Piece.Kept (compiler : Compiler) (context : ViewContext) : Piece → Prop where
  | start {name : String} {attributes : Dict Attribute} :
      Element.Kept compiler context ⟨name, attributes, [], Markup.isVoid name⟩ →
      Kept compiler context (.start name attributes)
  | finish {tag name : String} : Kept compiler context (.finish tag name)
  | text {data : String} : Kept compiler context (.text data)
  | expression {expression : Expression} :
      (expression.marks.keyword = none → expression.marks.isEnd = false) →
      Kept compiler context (.expression expression)
  | comment {data : String} : Kept compiler context (.comment data)

/-- An element that is void is complete at once. -/
theorem built_void {name : String} {attributes : Dict Attribute} (isVoid : Markup.isVoid name = true)
    (kept : Element.Kept compiler context ⟨name, attributes, [], true⟩) :
    Built compiler context (.element ⟨name, attributes, [], true⟩) :=
  .element (fun _ => rfl) (fun isOpen => by cases isVoid.symm.trans isOpen) kept.dynamics
    kept.templates kept.content

namespace Scope.Kept

variable {scope after : Scope}

theorem addPiece {piece : Piece} (kept : scope.Kept compiler context)
    (own : piece.Kept compiler context) (passed : compiler.addPiece context scope piece = .ok after) :
    after.Kept compiler context := by
  cases Compiler.taken_of_addPiece passed with
  | text => exact kept.append .text
  | comment => exact kept.append .comment
  | void isVoid =>
      cases own with
      | start own =>
          rw [isVoid] at own
          exact kept.append (built_void isVoid own)
  | start isOpen =>
      cases own with
      | start own =>
          rw [isOpen] at own
          exact kept.enter (.element rfl own)
  | finish closed => exact kept.closeElement closed
  | value isValue =>
      cases own with
      | expression marked => exact kept.append (.value ⟨isValue, marked isValue.1⟩)
  | view _ _ made => exact kept.append (Built.composes.viewExpression made)
  | @opens expression kind opens =>
      have isBlock : (Scope.blockNode expression kind).opener? = some expression := by
        cases kind <;> rfl
      exact kept.enter (.block (.blockNode opens) isBlock)
  | continues isOpen here goesOn passed => exact kept.continueBlock isOpen here goesOn passed
  | ends _ _ passed => exact kept.closeBlock passed

theorem addPieces {pieces : List Piece} (kept : scope.Kept compiler context)
    (own : ∀ piece ∈ pieces, piece.Kept compiler context)
    (passed : compiler.addPieces context scope pieces = .ok after) : after.Kept compiler context := by
  apply foldlM_induction passed kept
  intro before piece after kept member taken
  exact kept.addPiece (own piece member) taken

/-- When all scopes are closed, the nodes of the root are the template. -/
theorem finish {nodes : Template} (kept : scope.Kept compiler context)
    (closed : scope.finish = .ok nodes) : ∀ node ∈ nodes, Built compiler context node := by
  obtain ⟨-, rfl⟩ := Scope.finish_eq_ok_iff.1 closed
  exact fun node member => kept.current node (List.mem_reverse.1 member)

end Scope.Kept

namespace Compiler

theorem kept_of_mem_textPieces {text : String} {pieces : List Piece}
    (read : compiler.textPieces text = .ok pieces) :
    ∀ piece ∈ pieces, piece.Kept compiler context := by
  intro piece member
  rcases text_or_read_of_mem_textPieces read member with ⟨data, rfl⟩ | ⟨_, expression, parsed, rfl⟩
  · exact .text
  · refine .expression fun unkeyed => ?_
    -- An ending has a keyword.
    rw [Bool.eq_false_iff]
    intro ends
    have keyed := ((Expression.exclusive_of_parse parsed).ending ends).1
    rw [unkeyed] at keyed
    cases keyed

/-- A template without markup is built, -/
theorem built_of_compileString {source : String} {nodes : Template}
    (accepted : compiler.compileString context source = .ok nodes) :
    ∀ node ∈ nodes, Built compiler context node := by
  obtain ⟨pieces, read⟩ := textPieces_of_compileString accepted
  rw [compileString_eq read] at accepted
  obtain ⟨scope, passed, closed⟩ := bind_eq_ok_iff.1 accepted
  exact (Scope.Kept.root.addPieces (kept_of_mem_textPieces read) passed).finish closed

/-- and so is what an attribute holds, -/
theorem kept_attributes {name : String} {isVoid : Bool} {written : List (String × Option String)}
    {dict : Dict Attribute} (compiled : compiler.attributes context written = .ok dict) :
    Element.Kept compiler context ⟨name, dict, [], isVoid⟩ :=
  Built.kept_iff_holds.2
    ⟨holds_attributes (fun _ _ _ _ accepted => built_of_compileString accepted) compiled, nofun⟩

theorem kept_of_mem_markupPieces {source : String} {pieces : List Piece}
    (read : compiler.markupPieces context source = .ok pieces) :
    ∀ piece ∈ pieces, piece.Kept compiler context := by
  intro piece member
  obtain ⟨event, -, brings⟩ := exists_brings_of_mem_markupPieces read member
  cases brings with
  | start compiled => exact .start (kept_attributes compiled)
  | finish => exact .finish
  | text here among => exact kept_of_mem_textPieces here piece among
  | comment => exact .comment
  | other => exact .expression fun _ => rfl

/-- and a template with markup. -/
theorem built_of_compileMarkup {source : String} {nodes : Template}
    (accepted : compiler.compileMarkup context source = .ok nodes) :
    ∀ node ∈ nodes, Built compiler context node := by
  obtain ⟨pieces, read⟩ := markupPieces_of_compileMarkup accepted
  rw [compileMarkup_eq read] at accepted
  obtain ⟨scope, passed, closed⟩ := bind_eq_ok_iff.1 accepted
  exact (Scope.Kept.root.addPieces (kept_of_mem_markupPieces read) passed).finish closed

/-- Every node that a compiler makes is well formed, and all nodes below it are, at
any depth; no node stores an ending. -/
theorem sound_of_compile {source : String} {nodes : Template}
    (accepted : compiler.compileMarkup context source = .ok nodes ∨
      compiler.compileString context source = .ok nodes) :
    ∀ node, (∃ root ∈ nodes, root.Reaches node) →
      node.Sound compiler.blocks ∧ ∀ expression, node.Stores expression →
        expression.marks.isEnd = false := by
  rintro node ⟨root, member, reaches⟩
  have built : Built compiler context root := by
    rcases accepted with markup | text
    · exact built_of_compileMarkup markup root member
    · exact built_of_compileString text root member
  have here : Built compiler context node := built.reaches reaches
  exact ⟨here.sound, fun _ stores => here.isEnd_of_stores stores⟩

/-- A conditional with a value in its last branch. -/
def branchNodes : Template :=
  [.conditional ⟨
    [⟨.ofName "a", { Marks.plain "if a" with keyword := some .ifTrue }⟩, .bareElse],
    [[.text "x"], [.dynamic ⟨.ofName "b", .plain "b"⟩]]⟩]

set_option maxRecDepth 20000 in
theorem sound_of_compile_branches :
    Compiler.standard.compileString .detached "{{if a}}x{{else}}{{b}}{{/}}" = .ok branchNodes ∧
      ∀ node, (∃ root ∈ branchNodes, root.Reaches node) →
        node.Sound .builtins ∧ ∀ expression, node.Stores expression →
          expression.marks.isEnd = false := by
  have accepted : Compiler.standard.compileString .detached "{{if a}}x{{else}}{{b}}{{/}}" =
      .ok branchNodes := by cbv
  exact ⟨accepted, Compiler.sound_of_compile (.inr accepted)⟩

end Compiler

end Stencil
