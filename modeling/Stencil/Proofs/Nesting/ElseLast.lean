import Stencil.Proofs.Composition
import Stencil.Proofs.Nesting
import Stencil.Proofs.Scope.Pending

/-! When an else is the last branch of its conditional.

A conditional takes every else and every else with a test, also after an else. So an else is
the last branch of every conditional, at any depth, exactly for those texts where none of them
comes while the innermost open block is a conditional in its else.
-/

set_option autoImplicit false

namespace Stencil

/-- No branch but the last one is a bare else. -/
def Branches.ElseLast (branches : Branches) : Prop :=
  ∀ guard ∈ branches.guards.dropLast, ¬ guard.IsElse

namespace Node

def ElseLast : Node → Prop
  | .conditional branches => branches.ElseLast
  | _ => True

/-- A property holds of a node and of all nodes below it. -/
def Everywhere (P : Node → Prop) (node : Node) : Prop :=
  ∀ other, node.Reaches other → P other

theorem everywhere_iff {P : Node → Prop} {node : Node} :
    node.Everywhere P ↔ P node ∧ ∀ child, node.Part child → child.Everywhere P := by
  constructor
  · intro all
    exact ⟨all node .refl, fun child part other reaches => all other (.head part reaches)⟩
  · rintro ⟨here, below⟩ other reaches
    rcases Relation.ReflTransGen.cases_head reaches with rfl | ⟨child, part, rest⟩
    · exact here
    · exact below child part other rest

/-- Filling adds the nodes to what is below. -/
theorem Gains.everywhere_iff {P : Node → Prop} {node whole : Node} {nodes : List Node}
    (gains : node.Gains nodes whole) (same : P whole ↔ P node) :
    whole.Everywhere P ↔ node.Everywhere P ∧ ∀ child ∈ nodes, child.Everywhere P := by
  rw [Node.everywhere_iff, Node.everywhere_iff, same, and_assoc]
  refine and_congr_right fun _ => ?_
  constructor
  · intro below
    exact ⟨fun child part => below child ((gains child).2 (.inl part)),
      fun child member => below child ((gains child).2 (.inr member))⟩
  · rintro ⟨old, new⟩ child part
    exact ((gains child).1 part).elim (old child) (new child)

theorem gains_reverse_iff {node whole : Node} {nodes : List Node} :
    node.Gains nodes.reverse whole ↔ node.Gains nodes whole := by
  simp only [Gains, List.mem_reverse]

/-- What an element takes in when it closes is its content. -/
theorem gains_content {element : Element} (isOpen : (Node.element element).openContent? = some [])
    (content : List Node) :
    (Node.element element).Gains content (.element { element with content := content }) := by
  obtain ⟨isVoid, -⟩ := isVoid_of_openContent? isOpen
  simpa [fill, isVoid] using gains_fill isOpen content

/-- The guards of a conditional stay when its last branch is filled. -/
theorem elseLast_fill (node : Node) (content : List Node) :
    (node.fill content).ElseLast ↔ node.ElseLast := by
  cases node with
  | element parent =>
      simp only [fill]
      split <;> rfl
  | each opener body otherwise => cases otherwise <;> rfl
  | _ => rfl

theorem everywhere_dynamic (expression : Expression) :
    (Node.dynamic expression).Everywhere ElseLast :=
  everywhere_iff.2 ⟨trivial, nofun⟩

theorem composes_everywhere_elseLast : Composes (Everywhere ElseLast) where
  element element everywhere := by
    have below := (everywhere_iff.1 everywhere).2
    refine ⟨?_, fun node member => below node (.content member)⟩
    rintro ⟨name, value⟩ entry
    cases value with
    | literal => trivial
    | dynamic expression => exact everywhere_dynamic expression
    | template content => exact fun node member => below node (.attributes entry member)
  bare expr := everywhere_dynamic (.ofExpr expr)
  view view bag holds := everywhere_iff.2 ⟨trivial, fun
    | _, .passed wraps member => holds.nodes _ _ wraps _ member⟩
  named expression bag _ holds := everywhere_iff.2 ⟨trivial, fun
    | _, .passedOn wraps member => holds.nodes _ _ wraps _ member⟩
  templateNamed content bag nodes holds := everywhere_iff.2 ⟨trivial, fun
    | _, .passedOn wraps member => holds.nodes _ _ wraps _ member
    | _, .name member => nodes _ member⟩

end Node

namespace Node

/-- A branch can be added exactly after one that is no else. -/
theorem everywhere_add_iff {branches : Branches} {front : List Expression} {last : Expression}
    (ends : branches.guards = front ++ [last]) (guard : Expression) :
    (Node.conditional (branches.add guard)).Everywhere ElseLast ↔
      (Node.conditional branches).Everywhere ElseLast ∧ ¬ last.IsElse := by
  have parts (child : Node) : (Node.conditional (branches.add guard)).Part child ↔
      (Node.conditional branches).Part child := by
    simp [part_conditional_iff, Branches.add, or_and_right, exists_or]
  have guards : (Node.conditional (branches.add guard)).ElseLast ↔
      (Node.conditional branches).ElseLast ∧ ¬ last.IsElse := by
    simp only [ElseLast, Branches.ElseLast, Branches.guards_add, ends, List.dropLast_concat,
      List.forall_mem_append, List.forall_mem_singleton]
  rw [everywhere_iff, everywhere_iff, guards]
  simp only [parts]
  tauto

theorem everywhere_blockNode (expression : Expression) (kind : BlockKind) :
    (Scope.blockNode expression kind).Everywhere ElseLast := by
  cases kind with
  | conditional =>
      refine everywhere_iff.2 ⟨nofun, fun child part => ?_⟩
      simp [Scope.blockNode, Branches.single, part_conditional_iff] at part
  | each =>
      refine everywhere_iff.2 ⟨trivial, fun child part => ?_⟩
      simp [Scope.blockNode, part_each_iff] at part
  | generic =>
      refine everywhere_iff.2 ⟨trivial, fun child part => ?_⟩
      cases part with
      | block member => cases member

end Node

/-- An else is the last branch of every conditional of a template, at any depth. -/
def Template.ElseLast (nodes : Template) : Prop :=
  ∀ node : Node, (∃ root ∈ nodes, root.Reaches node) → node.ElseLast

/-- No else follows another one in the same conditional. -/
def Piece.Follows (around : List Enclosure) : Piece → Prop
  | .expression next => ∀ opener rest, around = .block opener .conditional true :: rest →
      ¬ next.Continues
  | _ => True

/-- Wherever a conditional in its else is the innermost thing that is open, the next piece
does not go on with it. -/
def Orderly (blocks : BlockMap) (pieces : List Piece) : Prop :=
  ∀ before piece rest around, pieces = before ++ piece :: rest → Nests blocks before around →
    piece.Follows around

theorem orderly_snoc_iff {blocks : BlockMap} {pieces : List Piece} {piece : Piece}
    {around : List Enclosure} (nests : Nests blocks pieces around) :
    Orderly blocks (pieces ++ [piece]) ↔ Orderly blocks pieces ∧ piece.Follows around := by
  constructor
  · intro orderly
    refine ⟨?_, orderly pieces piece [] around rfl nests⟩
    rintro before other rest outside rfl within
    exact orderly before other (rest ++ [piece]) outside (by simp) within
  · rintro ⟨orderly, follows⟩ before other rest outside whole within
    rcases List.eq_nil_or_concat rest with rfl | ⟨front, last, rfl⟩
    · obtain ⟨rfl, same⟩ := List.append_inj' whole rfl
      obtain rfl := List.singleton_inj.1 same
      obtain rfl := nests.unique within
      exact follows
    · rw [List.concat_eq_append, ← List.cons_append, ← List.append_assoc] at whole
      obtain ⟨rfl, -⟩ := List.append_inj' whole rfl
      exact orderly before other front outside rfl within

/-- All nodes of the open scopes have an else only as the last branch, as far as they go. -/
structure Scope.ElseLast (scope : Scope) : Prop where
  current : ∀ node ∈ scope.current, node.Everywhere Node.ElseLast
  outer : ∀ frame ∈ scope.outer, ∀ node ∈ frame, node.Everywhere Node.ElseLast

namespace Scope

variable {scope : Scope} {node : Node}

theorem elseLast_append_iff :
    (scope.append node).ElseLast ↔ scope.ElseLast ∧ node.Everywhere Node.ElseLast := by
  constructor
  · rintro ⟨current, outer⟩
    obtain ⟨own, others⟩ := List.forall_mem_cons.1 current
    exact ⟨⟨others, outer⟩, own⟩
  · rintro ⟨⟨current, outer⟩, own⟩
    exact ⟨List.forall_mem_cons.2 ⟨own, current⟩, outer⟩

theorem elseLast_enter_iff : scope.enter.ElseLast ↔ scope.ElseLast := by
  constructor
  · rintro ⟨-, outer⟩
    obtain ⟨current, outer⟩ := List.forall_mem_cons.1 outer
    exact ⟨current, outer⟩
  · rintro ⟨current, outer⟩
    exact ⟨nofun, List.forall_mem_cons.2 ⟨current, outer⟩⟩

/-- What the newest node around takes in changes nothing. -/
theorem elseLast_leave_iff {whole : Node} {before : List Node} {outer : List (List Node)}
    (around : scope.outer = (node :: before) :: outer) (gains : node.Gains scope.current whole)
    (same : whole.ElseLast ↔ node.ElseLast) :
    Scope.ElseLast ⟨whole :: before, outer⟩ ↔ scope.ElseLast := by
  have closed := gains.everywhere_iff same
  constructor
  · rintro ⟨current, outside⟩
    obtain ⟨here, others⟩ := List.forall_mem_cons.1 current
    obtain ⟨isOpen, inside⟩ := closed.1 here
    exact ⟨inside, around ▸ List.forall_mem_cons.2 ⟨List.forall_mem_cons.2 ⟨isOpen, others⟩, outside⟩⟩
  · rintro ⟨inside, outside⟩
    rw [around] at outside
    obtain ⟨newest, others⟩ := List.forall_mem_cons.1 outside
    obtain ⟨isOpen, others⟩ := List.forall_mem_cons.1 newest
    exact ⟨List.forall_mem_cons.2 ⟨closed.2 ⟨isOpen, inside⟩, others⟩, (List.forall_mem_cons.1 outside).2⟩

/-- A branch changes nothing exactly after one that is no else. -/
theorem elseLast_add_iff {branches : Branches} {front : List Expression} {last : Expression}
    (ends : branches.guards = front ++ [last]) (guard : Expression) {before : List Node}
    {outer : List (List Node)} :
    Scope.ElseLast ⟨.conditional (branches.add guard) :: before, outer⟩ ↔
      Scope.ElseLast ⟨.conditional branches :: before, outer⟩ ∧ ¬ last.IsElse := by
  constructor
  · rintro ⟨current, others⟩
    obtain ⟨here, beside⟩ := List.forall_mem_cons.1 current
    obtain ⟨isOpen, fresh⟩ := (Node.everywhere_add_iff ends guard).1 here
    exact ⟨⟨List.forall_mem_cons.2 ⟨isOpen, beside⟩, others⟩, fresh⟩
  · rintro ⟨⟨current, others⟩, fresh⟩
    obtain ⟨here, beside⟩ := List.forall_mem_cons.1 current
    have whole := (Node.everywhere_add_iff ends guard).2 ⟨here, fresh⟩
    exact ⟨List.forall_mem_cons.2 ⟨whole, beside⟩, others⟩

theorem elseLast_closeBlock_iff {pending : List Opening} {keyword : Keyword} {ending : Expression}
    {next : Scope} (stands : scope.Stands pending) (passed : scope.closeBlock keyword ending = .ok next) :
    next.ElseLast ↔ scope.ElseLast := by
  obtain ⟨node, before, outer, _, outside, _, _, rfl⟩ := closeBlock_eq_ok_iff.1 passed
  obtain ⟨isOpen, -⟩ := stands.waits outside
  have gains := Node.gains_reverse_iff.1 (Node.gains_fill isOpen scope.current.reverse)
  exact elseLast_leave_iff outside gains (Node.elseLast_fill node _)

/-- An else makes a conditional that has one before its last branch exactly if it goes on with a
conditional in its else. -/
theorem elseLast_continueBlock_iff {blocks : BlockMap} {around : List Enclosure}
    {pending : List Opening} {keyword : Keyword} {expression : Expression} {next : Scope}
    (within : scope.Within blocks around) (stands : scope.Stands pending)
    (continues : expression.Continues)
    (passed : scope.continueBlock keyword expression = .ok next) :
    next.ElseLast ↔ scope.ElseLast ∧ (Piece.expression expression).Follows around := by
  rcases continueBlock_eq_ok_iff.1 passed with
    ⟨branches, before, outer, outside, rfl⟩ | ⟨opener, body, before, outer, outside, rfl, rfl⟩
  · obtain ⟨isOpen, -⟩ := stands.waits outside
    obtain ⟨_, rest, rfl, shows, -⟩ := within.exists_enclosure outside
    have gains := Node.gains_reverse_iff.1 (Node.gains_fill isOpen scope.current.reverse)
    have filled := elseLast_leave_iff outside gains (Node.elseLast_fill _ _)
    cases shows with
    | @conditional opener last front _ _ _ ends =>
        have follows : (Piece.expression expression).Follows
            (.block opener .conditional (decide last.IsElse) :: rest) ↔ ¬ last.IsElse := by
          simp [Piece.Follows, continues]
        have sameEnds : (branches.fill scope.current.reverse).guards = front ++ [last] := ends
        rw [follows, ← filled]
        exact elseLast_enter_iff.trans (elseLast_add_iff sameEnds expression)
  · obtain ⟨isOpen, -⟩ := stands.waits outside
    obtain ⟨_, rest, rfl, shows, -⟩ := within.exists_enclosure outside
    obtain rfl : body = [] := by simpa [Node.openContent?] using isOpen
    have gains : (Node.each opener [] none).Gains scope.current
        (.each opener scope.current.reverse (some [])) := by
      simp [Node.Gains, Node.part_each_iff]
    cases shows with
    | each =>
        rw [and_iff_left (by simp [Piece.Follows])]
        exact elseLast_enter_iff.trans (elseLast_leave_iff outside gains Iff.rfl)

end Scope

namespace Compiler

variable {compiler : Compiler} {context : ViewContext} {scope next : Scope}
  {around : List Enclosure} {pending : List Opening}

/-- An element that closes is complete, and then a view may take over what it holds. -/
theorem elseLast_closeElement {tag name : String} (fine : scope.ElseLast) (stands : scope.Stands pending)
    (passed : compiler.closeElement context scope tag name = .ok next) : next.ElseLast := by
  obtain ⟨element, before, outer, node, outside, -, closed, rfl⟩ := closeElement_eq_ok_iff.1 passed
  obtain ⟨isOpen, -⟩ := stands.waits outside
  have gains := Node.gains_reverse_iff.1 (Node.gains_content isOpen scope.current.reverse)
  obtain ⟨current, others⟩ := (Scope.elseLast_leave_iff outside gains Iff.rfl).2 fine
  obtain ⟨here, beside⟩ := List.forall_mem_cons.1 current
  have composes := Node.composes_everywhere_elseLast
  have own : node.Everywhere Node.ElseLast :=
    composes.closed (composes.element _ here) (fun _ => here) closed
  exact ⟨List.forall_mem_cons.2 ⟨own, beside⟩, others⟩

/-- If it stands for itself, nothing that it holds is lost. -/
theorem elseLast_of_closeElement {tag name : String} (keeps : compiler.Keeps context name)
    (fine : next.ElseLast) (stands : scope.Stands pending)
    (passed : compiler.closeElement context scope tag name = .ok next) : scope.ElseLast := by
  obtain ⟨element, before, outer, node, outside, named, closed, rfl⟩ := closeElement_eq_ok_iff.1 passed
  obtain ⟨isOpen, -⟩ := stands.waits outside
  have gains := Node.gains_reverse_iff.1 (Node.gains_content isOpen scope.current.reverse)
  rw [keeps { element with content := scope.current.reverse } named] at closed
  cases closed
  exact (Scope.elseLast_leave_iff outside gains Iff.rfl).1 fine

/-- No else is the next piece, so nothing follows an else. -/
theorem follows_of_not_continues {expression : Expression} (other : ¬ expression.Continues) :
    (Piece.expression expression).Follows around :=
  fun _ _ _ => other

theorem not_continues_of_unkeyed {expression : Expression} (unkeyed : expression.marks.keyword = none) :
    ¬ expression.Continues := by
  intro continues
  obtain ⟨keyword, keyed, -⟩ := continues.keyword
  cases keyed.symm.trans unkeyed

/-- Of the expressions of a text, only an else after an else makes a conditional that has one
before its last branch. -/
theorem elseLast_addExpression_iff {expression : Expression}
    (within : scope.Within compiler.blocks around) (stands : scope.Stands pending)
    (taken : compiler.addPiece context scope (.expression expression) = .ok next) :
    next.ElseLast ↔ scope.ElseLast ∧ (Piece.expression expression).Follows around := by
  cases taken_of_addExpression taken with
  | value isValue =>
      rw [and_iff_left (follows_of_not_continues (not_continues_of_unkeyed isValue.1))]
      have own := Node.everywhere_dynamic expression
      exact Scope.elseLast_append_iff.trans (and_iff_left own)
  | view unkeyed _ made =>
      rw [and_iff_left (follows_of_not_continues (not_continues_of_unkeyed unkeyed))]
      have own := Node.composes_everywhere_elseLast.viewExpression made
      exact Scope.elseLast_append_iff.trans (and_iff_left own)
  | opens opens =>
      obtain ⟨keyword, here, -, fresh, rfl⟩ := opens.keyword
      have other : ¬ expression.Continues := by
        intro continues
        obtain ⟨word, keyed, isElse⟩ := continues.keyword
        cases keyed.symm.trans here
        cases isElse.symm.trans fresh
      rw [and_iff_left (follows_of_not_continues other)]
      have own := Node.everywhere_blockNode expression (compiler.blocks.kind keyword)
      exact Scope.elseLast_enter_iff.trans (Scope.elseLast_append_iff.trans (and_iff_left own))
  | continues isOpen here goesOn passed =>
      exact Scope.elseLast_continueBlock_iff within stands (.of_keyword isOpen here goesOn) passed
  | ends ended _ passed =>
      have other : ¬ expression.Continues := fun continues => by cases continues.1.symm.trans ended
      rw [and_iff_left (follows_of_not_continues other)]
      exact Scope.elseLast_closeBlock_iff stands passed

/-- The scopes stay in order as long as no else follows another. -/
theorem elseLast_addPiece {piece : Piece} (fine : scope.ElseLast)
    (within : scope.Within compiler.blocks around) (stands : scope.Stands pending)
    (holds : piece.Holds (Node.Everywhere Node.ElseLast)) (follows : piece.Follows around)
    (taken : compiler.addPiece context scope piece = .ok next) : next.ElseLast := by
  have own {name : String} {attributes : Dict Attribute} (isVoid : Bool)
      (holds : (Piece.start name attributes).Holds (Node.Everywhere Node.ElseLast)) :
      (Node.element ⟨name, attributes, [], isVoid⟩).Everywhere Node.ElseLast := by
    refine Node.everywhere_iff.2 ⟨trivial, fun child part => ?_⟩
    cases part with
    | content member => cases member
    | attributes entry member => exact holds _ entry _ member
  cases taken_of_addPiece taken with
  | text | comment => exact Scope.elseLast_append_iff.2 ⟨fine, Node.everywhere_iff.2 ⟨trivial, nofun⟩⟩
  | void => exact Scope.elseLast_append_iff.2 ⟨fine, own true holds⟩
  | start => exact Scope.elseLast_enter_iff.2 (Scope.elseLast_append_iff.2 ⟨fine, own false holds⟩)
  | finish closed => exact elseLast_closeElement fine stands closed
  | _ => exact (elseLast_addExpression_iff within stands taken).2 ⟨fine, follows⟩

/-- They do not come to be in order again, as long as no view takes over an element. -/
theorem elseLast_of_addPiece {piece : Piece} (fine : next.ElseLast)
    (within : scope.Within compiler.blocks around) (stands : scope.Stands pending)
    (keeps : ∀ tag name, piece = .finish tag name → compiler.Keeps context name)
    (taken : compiler.addPiece context scope piece = .ok next) :
    scope.ElseLast ∧ piece.Follows around := by
  cases taken_of_addPiece taken with
  | text | comment | void => exact ⟨(Scope.elseLast_append_iff.1 fine).1, trivial⟩
  | start => exact ⟨(Scope.elseLast_append_iff.1 (Scope.elseLast_enter_iff.1 fine)).1, trivial⟩
  | finish closed =>
      exact ⟨elseLast_of_closeElement (keeps _ _ rfl) fine stands closed, trivial⟩
  | _ => exact (elseLast_addExpression_iff within stands taken).1 fine

/-- The run of pieces of which no else follows another leaves the scopes in order. -/
theorem elseLast_addPieces {pieces : List Piece} (orderly : Orderly compiler.blocks pieces)
    (holds : ∀ piece ∈ pieces, piece.Holds (Node.Everywhere Node.ElseLast))
    (passed : compiler.addPieces context .root pieces = .ok scope) : scope.ElseLast := by
  induction pieces using List.reverseRecOn generalizing scope with
  | nil =>
      cases passed
      exact ⟨nofun, nofun⟩
  | append_singleton pieces piece ih =>
      obtain ⟨middle, others, taken⟩ := addPieces_concat_eq_ok_iff.1 passed
      obtain ⟨around, nests, within⟩ := exists_nests_of_addPieces others
      have stands := stands_addPieces (show Scope.root.Stands [] from .nil) others
      obtain ⟨earlier, follows⟩ := (orderly_snoc_iff nests).1 orderly
      have fine := ih earlier (fun other member => holds other (List.mem_append_left _ member)) others
      exact elseLast_addPiece fine within stands (holds piece (by simp)) follows taken

/-- In a run that leaves the scopes in order no else follows another. -/
theorem orderly_of_addPieces {pieces : List Piece} (fine : scope.ElseLast)
    (keeps : ∀ tag name, .finish tag name ∈ pieces → compiler.Keeps context name)
    (passed : compiler.addPieces context .root pieces = .ok scope) : Orderly compiler.blocks pieces := by
  induction pieces using List.reverseRecOn generalizing scope with
  | nil =>
      intro before piece rest around whole
      exact absurd whole (by simp)
  | append_singleton pieces piece ih =>
      obtain ⟨middle, others, taken⟩ := addPieces_concat_eq_ok_iff.1 passed
      obtain ⟨around, nests, within⟩ := exists_nests_of_addPieces others
      have stands := stands_addPieces (show Scope.root.Stands [] from .nil) others
      have own tag name (same : piece = .finish tag name) : compiler.Keeps context name :=
        keeps tag name (by simp [same])
      obtain ⟨before, follows⟩ := elseLast_of_addPiece fine within stands own taken
      have earlier := ih before
        (fun tag name member => keeps tag name (List.mem_append_left _ member)) others
      exact (orderly_snoc_iff nests).2 ⟨earlier, follows⟩

theorem elseLast_finish_iff {nodes : Template} (closed : scope.finish = .ok nodes) :
    Template.ElseLast nodes ↔ scope.ElseLast := by
  obtain ⟨isRoot, rfl⟩ := Scope.finish_eq_ok_iff.1 closed
  constructor
  · intro all
    refine ⟨fun root member node reaches => all node ⟨root, List.mem_reverse.2 member, reaches⟩, ?_⟩
    simp [isRoot]
  · rintro ⟨current, -⟩ node ⟨root, member, reaches⟩
    exact current root (List.mem_reverse.1 member) node reaches

/-- A text that is accepted has its else parts last exactly if they follow no else. -/
theorem elseLast_compileString_iff {source : String} {nodes : Template} {pieces : List Piece}
    (read : compiler.textPieces source = .ok pieces)
    (accepted : compiler.compileString context source = .ok nodes) :
    Template.ElseLast nodes ↔ Orderly compiler.blocks pieces := by
  rw [compileString_eq read] at accepted
  obtain ⟨scope, passed, closed⟩ := bind_eq_ok_iff.1 accepted
  have inline {piece : Piece} (member : piece ∈ pieces) :=
    text_or_expression_of_mem_textPieces read member
  rw [elseLast_finish_iff closed]
  constructor
  · intro fine
    refine orderly_of_addPieces fine (fun tag name member => ?_) passed
    rcases inline member with ⟨_, same⟩ | ⟨_, same⟩ <;> cases same
  · intro orderly
    refine elseLast_addPieces orderly (fun piece member => ?_) passed
    rcases inline member with ⟨_, rfl⟩ | ⟨_, rfl⟩ <;> trivial

/-- In all attribute values of a source, no else follows another one. -/
def OrderlyValues (compiler : Compiler) (source : String) : Prop :=
  ∀ tag name written, .startTag tag name written ∈ Markup.events source →
    ∀ key value, (key, some value) ∈ written → ∀ pieces,
      compiler.textPieces (unescapeEntities value) = .ok pieces → Orderly compiler.blocks pieces

theorem holds_of_orderlyValues {source : String} {pieces : List Piece}
    (orderly : compiler.OrderlyValues source) (read : compiler.markupPieces context source = .ok pieces) :
    ∀ piece ∈ pieces, piece.Holds (Node.Everywhere Node.ElseLast) := by
  apply holds_of_mem_markupPieces _ read
  intro tag name written occurs key value member content accepted root among node reaches
  obtain ⟨inner, text⟩ := textPieces_of_compileString accepted
  have fine := (elseLast_compileString_iff text accepted).2
    (orderly tag name written occurs key value member inner text)
  exact fine node ⟨root, among, reaches⟩

/-- A template has an else only as the last branch of a conditional, at any depth, exactly if
in its text no else follows another one of the same conditional. With markup, none follows
another one in the content or in an attribute value; and if no element stands for a view, this
is needed of the content. -/
theorem elseLast_of_compile (compiler : Compiler) (context : ViewContext) (source : String)
    (nodes : Template) :
    (compiler.compileString context source = .ok nodes →
      ∃ pieces, compiler.textPieces source = .ok pieces ∧
        (Template.ElseLast nodes ↔ Orderly compiler.blocks pieces)) ∧
    (compiler.compileMarkup context source = .ok nodes →
      ∃ pieces, compiler.markupPieces context source = .ok pieces ∧
        (Orderly compiler.blocks pieces → compiler.OrderlyValues source → Template.ElseLast nodes) ∧
        ((∀ tag name, .finish tag name ∈ pieces → compiler.Keeps context name) →
          Template.ElseLast nodes → Orderly compiler.blocks pieces)) := by
  constructor
  · intro accepted
    obtain ⟨pieces, read⟩ := textPieces_of_compileString accepted
    exact ⟨pieces, read, elseLast_compileString_iff read accepted⟩
  · intro accepted
    obtain ⟨pieces, read⟩ := markupPieces_of_compileMarkup accepted
    rw [compileMarkup_eq read] at accepted
    obtain ⟨scope, passed, closed⟩ := bind_eq_ok_iff.1 accepted
    refine ⟨pieces, read, fun orderly values => ?_, fun keeps fine => ?_⟩
    · exact (elseLast_finish_iff closed).2
        (elseLast_addPieces orderly (holds_of_orderlyValues values read) passed)
    · exact orderly_of_addPieces ((elseLast_finish_iff closed).1 fine) keeps passed

/-- A conditional with two branches. -/
def choiceNodes : Template :=
  [.conditional ⟨[⟨.ofName "a", { Marks.plain "if a" with keyword := some .ifTrue }⟩, .bareElse],
    [[.text "x"], [.text "y"]]⟩]

theorem elseLast_choiceNodes : Template.ElseLast choiceNodes := by
  rintro node ⟨root, member, reaches⟩
  obtain rfl := List.mem_singleton.1 member
  refine Node.everywhere_iff.2 ⟨?_, fun child part => ?_⟩ node reaches
  · rintro guard (_ | ⟨_, ⟨⟩⟩)
    rintro ⟨-, isElse⟩
    cases isElse
  · obtain ⟨content, among, here⟩ := Node.part_conditional_iff.1 part
    fin_cases among
    all_goals
      obtain rfl := List.mem_singleton.1 here
      exact Node.everywhere_iff.2 ⟨trivial, nofun⟩

set_option maxRecDepth 20000 in
theorem elseLast_of_compile_choiceNodes :
    Compiler.standard.compileString .detached "{{if a}}x{{else}}y{{/}}" = .ok choiceNodes ∧
      Compiler.standard.compileMarkup .detached "{{if a}}x{{else}}y{{/}}" = .ok choiceNodes ∧
      (∃ pieces, Compiler.standard.textPieces "{{if a}}x{{else}}y{{/}}" = .ok pieces ∧
        Orderly .builtins pieces) ∧
      ∃ pieces, Compiler.standard.markupPieces .detached "{{if a}}x{{else}}y{{/}}" = .ok pieces ∧
        ((∀ tag name, .finish tag name ∈ pieces → Compiler.standard.Keeps .detached name) →
          Orderly .builtins pieces) := by
  have text : Compiler.standard.compileString .detached "{{if a}}x{{else}}y{{/}}" = .ok choiceNodes := by
    cbv
  have markup :
      Compiler.standard.compileMarkup .detached "{{if a}}x{{else}}y{{/}}" = .ok choiceNodes := by
    cbv
  have both := elseLast_of_compile .standard .detached "{{if a}}x{{else}}y{{/}}" choiceNodes
  obtain ⟨pieces, read, iff⟩ := both.1 text
  obtain ⟨inMarkup, reads, -, needed⟩ := both.2 markup
  exact ⟨text, markup, ⟨pieces, read, iff.1 elseLast_choiceNodes⟩, inMarkup, reads,
    fun keeps => needed keeps elseLast_choiceNodes⟩

/-- A conditional with two else parts. -/
def twoElseNodes : Template :=
  [.conditional ⟨
    [⟨.ofName "a", { Marks.plain "if a" with keyword := some .ifTrue }⟩, .bareElse, .bareElse],
    [[.text "A"], [.text "B"], [.text "C"]]⟩]

set_option maxRecDepth 20000 in
theorem not_elseLast_twoElseNodes :
    Compiler.standard.compileString .detached "{{if a}}A{{else}}B{{else}}C{{/if}}" = .ok twoElseNodes ∧
      ¬ Template.ElseLast twoElseNodes := by
  refine ⟨by cbv, fun fine => ?_⟩
  have here : Node.ElseLast _ := fine _ ⟨_, List.mem_cons_self, .refl⟩
  exact here .bareElse (by simp) ⟨rfl, rfl⟩

end Compiler

end Stencil
