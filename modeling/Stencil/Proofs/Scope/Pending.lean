import Stencil.Proofs.Built
import Stencil.Proofs.Derivation.Acceptance

/-! Which elements and blocks the open scopes stand for.

Every scope but the current one waits for the content of its newest node, which is
what opened the scope inside it. That content is empty until then, so that the nodes
which close or continue it take the place of nothing.
-/

set_option autoImplicit false

namespace Stencil

/-- What opens a scope. -/
inductive Opening where
  | element (name : String) (attributes : Dict Attribute)
  | block (opener : Expression)

/-- What is open after a piece, from what is open before it. -/
def Piece.openings (pending : List Opening) : Piece → List Opening
  | .start name attributes => if Markup.isVoid name then pending else .element name attributes :: pending
  | .finish _ _ => pending.tail
  | .expression opener =>
      match opener.marks.keyword with
      | some keyword =>
          if opener.marks.isEnd then pending.tail
          else if keyword.continues then pending
          else .block opener :: pending
      | none => pending
  | .text _ | .comment _ => pending

namespace Node

/-- What a node was opened by. -/
def opening? : Node → Option Opening
  | .element parent => some (.element parent.tag parent.attributes)
  | node => node.opener?.map .block

/-- The content of a node that is still to come. -/
def openContent? : Node → Option (List Node)
  | .element parent => if parent.isVoid then none else some parent.content
  | .conditional branches => branches.contents.getLast?
  | .each _ content otherwise => some (otherwise.getD content)
  | .block _ content => some content
  | _ => none

variable {node : Node} {content : List Node}

theorem isVoid_of_openContent? {parent : Element}
    (isOpen : (Node.element parent).openContent? = some content) :
    parent.isVoid = false ∧ parent.content = content := by
  cases isVoid : parent.isVoid with
  | true => simp [openContent?, isVoid] at isOpen
  | false => exact ⟨rfl, by simpa [openContent?, isVoid] using isOpen⟩

theorem exists_concat_of_openContent? {branches : Branches}
    (isOpen : (Node.conditional branches).openContent? = some content) :
    ∃ front, branches.contents = front ++ [content] :=
  List.getLast?_eq_some_iff.1 isOpen

/-- The parts of a node are those of another one and some more nodes. -/
def Gains (node : Node) (nodes : List Node) (whole : Node) : Prop :=
  ∀ child, whole.Part child ↔ node.Part child ∨ child ∈ nodes

theorem part_conditional_iff {branches : Branches} {child : Node} :
    (Node.conditional branches).Part child ↔ ∃ content ∈ branches.contents, child ∈ content := by
  constructor
  · rintro (_ | _ | ⟨among, member⟩)
    exact ⟨_, among, member⟩
  · rintro ⟨content, among, member⟩
    exact .branch among member

theorem part_each_iff {opener : Expression} {otherwise : Option (List Node)} {child : Node} :
    (Node.each opener content otherwise).Part child ↔
      child ∈ content ∨ ∃ other, otherwise = some other ∧ child ∈ other := by
  constructor
  · rintro (_ | _ | _ | member | member)
    · exact .inl member
    · exact .inr ⟨_, rfl, member⟩
  · rintro (member | ⟨other, rfl, member⟩)
    · exact .body member
    · exact .otherwise member

/-- Filling a node that waits for its content loses no part of it. -/
theorem gains_fill (isOpen : node.openContent? = some []) (filling : List Node) :
    node.Gains filling (node.fill filling) := by
  intro child
  cases node with
  | element parent =>
      obtain ⟨isVoid, empty⟩ := isVoid_of_openContent? isOpen
      simp only [fill, isVoid, Bool.false_eq_true, if_false]
      constructor
      · rintro (member | ⟨entry, member⟩)
        · exact .inr member
        · exact .inl (.attributes entry member)
      · rintro ((member | ⟨entry, member⟩) | member)
        · exact absurd member (by simp [empty])
        · exact .attributes entry member
        · exact .content member
  | conditional branches =>
      obtain ⟨front, contents⟩ := exists_concat_of_openContent? isOpen
      simp [fill, Branches.fill, part_conditional_iff, contents, or_and_right, exists_or]
  | each opener body otherwise =>
      cases otherwise with
      | none =>
          obtain rfl : body = [] := by simpa [openContent?] using isOpen
          simp [fill, part_each_iff]
      | some other =>
          obtain rfl : other = [] := by simpa [openContent?] using isOpen
          simp [fill, part_each_iff]
  | block opener body =>
      obtain rfl : body = [] := by simpa [openContent?] using isOpen
      constructor
      · intro part
        cases part with
        | block member => exact .inr member
      · rintro (part | member)
        · cases part with
          | block member => exact absurd member List.not_mem_nil
        · exact .block member
  | text _ | dynamic _ | comment _ | view _ _ | dynamicView _ _ => cases isOpen

end Node

/-- In a scope that is not the current one, the newest node is what was opened, and
its content is still to come. -/
def Opening.Pending (opening : Opening) (nodes : List Node) : Prop :=
  ∃ node before, nodes = node :: before ∧ node.opening? = some opening ∧ node.openContent? = some []

/-- The node that takes the content of the current scope, before the other nodes of the
scope around it. -/
def Scope.Collects (scope : Scope) (whole : Node) (before : List Node) (outer : List (List Node)) :
    Prop :=
  ∃ node, scope.outer = (node :: before) :: outer ∧ node.Gains scope.current whole

/-- The scopes are those of what is open. -/
def Scope.Stands (scope : Scope) (pending : List Opening) : Prop :=
  List.Forall₂ Opening.Pending pending scope.outer

namespace Scope

variable {keyword : Keyword} {expression : Expression} {scope after : Scope} {pending : List Opening}

theorem pending_blockNode (opener : Expression) (kind : BlockKind) (before : List Node) :
    (Opening.block opener).Pending (blockNode opener kind :: before) := by
  cases kind
  all_goals exact ⟨_, before, rfl, rfl, rfl⟩

/-- The newest node around the current scope waits for its content. -/
theorem Stands.waits {node : Node} {before : List Node} {outer : List (List Node)}
    (stands : scope.Stands pending) (around : scope.outer = (node :: before) :: outer) :
    node.openContent? = some [] ∧ ∃ opening rest, pending = opening :: rest ∧
      node.opening? = some opening ∧ List.Forall₂ Opening.Pending rest outer := by
  unfold Stands at stands
  rw [around] at stands
  cases stands with
  | @cons opening _ rest _ waits others =>
      obtain ⟨_, _, same, opens, isOpen⟩ := waits
      obtain ⟨rfl, rfl⟩ := List.cons.inj same
      exact ⟨isOpen, opening, rest, rfl, opens, others⟩

theorem Stands.closeBlock (stands : scope.Stands pending)
    (passed : scope.closeBlock keyword expression = .ok after) :
    after.Stands pending.tail ∧
      ∃ whole before outer, scope.Collects whole before outer ∧ after = ⟨whole :: before, outer⟩ := by
  obtain ⟨node, before, outer, _, around, _, _, rfl⟩ := closeBlock_eq_ok_iff.1 passed
  obtain ⟨isOpen, opening, rest, rfl, _, others⟩ := stands.waits around
  have gains := Node.gains_fill isOpen scope.current.reverse
  exact ⟨others, _, before, outer, ⟨node, around, by simpa [Node.Gains] using gains⟩, rfl⟩

theorem Stands.continueBlock (stands : scope.Stands pending)
    (passed : scope.continueBlock keyword expression = .ok after) :
    after.Stands pending ∧
      ∃ whole before outer, scope.Collects whole before outer ∧
        after = ⟨[], (whole :: before) :: outer⟩ := by
  rcases continueBlock_eq_ok_iff.1 passed with
    ⟨branches, before, outer, around, rfl⟩ | ⟨opener, body, before, outer, around, _, rfl⟩
  · obtain ⟨isOpen, opening, rest, rfl, opens, others⟩ := stands.waits around
    obtain ⟨front, contents⟩ := Node.exists_concat_of_openContent? isOpen
    have opened : (Node.conditional ((branches.fill scope.current.reverse).add expression)).opening? =
        some opening := by
      obtain ⟨_ | ⟨guard, guards⟩, _⟩ := branches
      · cases opens
      · exact opens
    refine ⟨.cons ⟨_, before, rfl, opened, ?_⟩ others, _, before, outer, ⟨_, around, ?_⟩, rfl⟩
    · simp [Node.openContent?, Branches.add]
    · intro child
      simp [Node.part_conditional_iff, Branches.add, Branches.fill, contents, or_and_right, exists_or]
  · obtain ⟨isOpen, opening, rest, rfl, opens, others⟩ := stands.waits around
    obtain rfl : body = [] := by simpa [Node.openContent?] using isOpen
    refine ⟨.cons ⟨_, before, rfl, opens, rfl⟩ others, _, before, outer, ⟨_, around, ?_⟩, rfl⟩
    intro child
    simp [Node.part_each_iff]

end Scope

namespace Compiler

variable {compiler : Compiler} {context : ViewContext} {scope after : Scope} {pending : List Opening}

theorem stands_closeElement {tag name : String} (stands : scope.Stands pending)
    (passed : compiler.closeElement context scope tag name = .ok after) :
    after.Stands pending.tail ∧
      ∃ element before outer node, scope.Collects (.element element) before outer ∧
        compiler.closed context element = .ok node ∧ after = ⟨node :: before, outer⟩ := by
  obtain ⟨element, before, outer, node, around, _, closed, rfl⟩ := closeElement_eq_ok_iff.1 passed
  obtain ⟨isOpen, opening, rest, rfl, _, others⟩ := stands.waits around
  obtain ⟨isVoid, _⟩ := Node.isVoid_of_openContent? isOpen
  have gains := Node.gains_fill isOpen scope.current.reverse
  refine ⟨others, _, before, outer, node, ⟨_, around, ?_⟩, closed, rfl⟩
  simpa [Node.Gains, Node.fill, isVoid] using gains

/-- The step: every piece keeps the scopes those of what is open. -/
theorem stands_addPiece {piece : Piece} (stands : scope.Stands pending)
    (taken : compiler.addPiece context scope piece = .ok after) :
    after.Stands (piece.openings pending) := by
  cases taken_of_addPiece taken with
  | text | comment => exact stands
  | void isVoid =>
      simp only [Piece.openings, isVoid, if_true]
      exact stands
  | start isOpen =>
      simp only [Piece.openings, isOpen]
      exact .cons ⟨_, scope.current, rfl, rfl, rfl⟩ stands
  | finish closed => exact (stands_closeElement stands closed).1
  | value isValue =>
      simp only [Piece.openings, isValue.1]
      exact stands
  | view unkeyed =>
      simp only [Piece.openings, unkeyed]
      exact stands
  | opens opens =>
      obtain ⟨keyword, here, isOpen, fresh, rfl⟩ := opens.keyword
      simp only [Piece.openings, here, isOpen, fresh]
      exact .cons (Scope.pending_blockNode _ _ scope.current) stands
  | continues isOpen here goesOn passed =>
      simp only [Piece.openings, here, isOpen, goesOn]
      exact (stands.continueBlock passed).1
  | ends ended here passed =>
      simp only [Piece.openings, here, ended, if_true]
      exact (stands.closeBlock passed).1

/-- The run, from the root on. -/
theorem stands_addPieces {pieces : List Piece} (stands : scope.Stands pending)
    (passed : compiler.addPieces context scope pieces = .ok after) :
    after.Stands (pieces.foldl Piece.openings pending) := by
  induction pieces generalizing scope pending with
  | nil =>
      obtain rfl := Except.ok.inj passed
      exact stands
  | cons piece rest ih =>
      rw [addPieces_cons] at passed
      obtain ⟨middle, taken, others⟩ := bind_eq_ok_iff.1 passed
      exact ih (stands_addPiece stands taken) others

/-- Whatever closes or continues the current scope adds its nodes to what is there. -/
structure AddsContent (compiler : Compiler) (context : ViewContext) (scope : Scope) : Prop where
  closeBlock : ∀ keyword expression after, scope.closeBlock keyword expression = .ok after →
    ∃ whole before outer, scope.Collects whole before outer ∧ after = ⟨whole :: before, outer⟩
  continueBlock : ∀ keyword expression after, scope.continueBlock keyword expression = .ok after →
    ∃ whole before outer, scope.Collects whole before outer ∧
      after = ⟨[], (whole :: before) :: outer⟩
  -- A view may then take the place of the element.
  closeElement : ∀ tag name after, compiler.closeElement context scope tag name = .ok after →
    ∃ element before outer node, scope.Collects (.element element) before outer ∧
      compiler.closed context element = .ok node ∧ after = ⟨node :: before, outer⟩

/-- After any events that are all taken, in whatever order, the open scopes are those of
what the events opened and did not end, and no content is overwritten. -/
theorem stands_addEvents {events : List Event}
    (taken : events.foldlM (compiler.addEvent context) Scope.root = .ok scope) :
    (∃ pieces, gather (compiler.eventPieces context) events = .ok pieces ∧
      scope.Stands (pieces.foldl Piece.openings [])) ∧ compiler.AddsContent context scope := by
  obtain ⟨pieces, read⟩ := addEvent_through.gather.reads taken
  have passed : compiler.addPieces context .root pieces = .ok scope :=
    (addEvent_through.gather.run read Scope.root).symm.trans taken
  have fresh : Scope.root.Stands [] := .nil
  have stands := stands_addPieces fresh passed
  exact ⟨⟨pieces, read, stands⟩, fun _ _ _ passed => (stands.closeBlock passed).2,
    fun _ _ _ passed => (stands.continueBlock passed).2,
    fun _ _ _ passed => (stands_closeElement stands passed).2⟩

/-- An element around a loop in its else part, with one more element open there. -/
def openEvents : List Event :=
  [.startTag "<p>" "p" [], .text "{{each a}}x{{else}}", .startTag "<b>" "b" [], .text "y"]

def openPieces : List Piece :=
  [.start "p" .empty, .expression .eachA, .text "x", .expression .bareElse, .start "b" .empty, .text "y"]

def openScope : Scope :=
  ⟨[.text "y"], [[.element ⟨"b", .empty, [], false⟩], [.each .eachA [.text "x"] (some [])],
    [.element ⟨"p", .empty, [], false⟩]]⟩

set_option maxRecDepth 20000 in
theorem stands_addEvents_openScope :
    openEvents.foldlM (Compiler.standard.addEvent .detached) Scope.root = .ok openScope ∧
      (∃ pieces, gather (Compiler.standard.eventPieces .detached) openEvents = .ok pieces ∧
        openScope.Stands (pieces.foldl Piece.openings [])) ∧
      Compiler.standard.AddsContent .detached openScope := by
  have opened : Fragment.split (unescapeEntities "{{each a}}x{{else}}") =
      ⟨[.delimited "each a", .literal "x", .delimited "else"], none⟩ := by
    cbv
  have plain : Fragment.split (unescapeEntities "y") = ⟨[.literal "y"], none⟩ := by cbv
  have read : gather (Compiler.standard.eventPieces .detached) openEvents = .ok openPieces := by
    simp only [openEvents, gather, eventPieces, textPieces, opened, plain, fragmentPieces_eachA,
      fragmentPieces_else]
    rfl
  have taken : openEvents.foldlM (Compiler.standard.addEvent .detached) Scope.root = .ok openScope := by
    rw [addEvent_through.gather.run read]
    rfl
  exact ⟨taken, stands_addEvents taken⟩

end Compiler

end Stencil
