import Stencil.Proofs.Derivation.Acceptance

/-! What is open around a piece, and which pieces can stand there.

Elements and blocks nest, and a block knows whether its else has come. Pieces move from
one nesting to the next, and the open scopes are those of the nesting. An ending or an
else that cannot stand where it comes decides how a text fails; blocks that are left open
decide it otherwise.
-/

set_option autoImplicit false

namespace Stencil

instance (expression : Expression) : Decidable expression.IsElse :=
  inferInstanceAs (Decidable (_ ∧ _))

/-- What is open: an element, or a block, in an else part or not. -/
inductive Enclosure where
  | element (name : String)
  | block (opener : Expression) (kind : BlockKind) (inElse : Bool)

/-- How a piece changes what is open around it, the innermost first. -/
inductive Piece.Moves (blocks : BlockMap) : Piece → List Enclosure → List Enclosure → Prop where
  | text {data : String} {around : List Enclosure} : Moves blocks (.text data) around around
  | comment {data : String} {around : List Enclosure} : Moves blocks (.comment data) around around
  | value {expression : Expression} {around : List Enclosure} :
      expression.marks.keyword = none → Moves blocks (.expression expression) around around
  | void {name : String} {attributes : Dict Attribute} {around : List Enclosure} :
      Markup.isVoid name = true → Moves blocks (.start name attributes) around around
  | start {name : String} {attributes : Dict Attribute} {around : List Enclosure} :
      Markup.isVoid name = false →
      Moves blocks (.start name attributes) around (.element name :: around)
  | finish {tag name : String} {around : List Enclosure} :
      Moves blocks (.finish tag name) (.element name :: around) around
  | opens {expression : Expression} {kind : BlockKind} {around : List Enclosure} :
      expression.Opens blocks kind →
      Moves blocks (.expression expression) around (.block expression kind false :: around)
  -- A conditional goes on from any of its parts, a loop only from its body.
  | branch {opener expression : Expression} {inElse : Bool} {around : List Enclosure} :
      expression.Continues → Moves blocks (.expression expression)
        (.block opener .conditional inElse :: around)
        (.block opener .conditional (decide expression.IsElse) :: around)
  | otherwise {opener expression : Expression} {around : List Enclosure} :
      expression.IsElse → Moves blocks (.expression expression)
        (.block opener .each false :: around) (.block opener .each true :: around)
  | closes {opener expression : Expression} {kind : BlockKind} {inElse : Bool}
      {around : List Enclosure} :
      expression.Ends → opener.Closes expression →
      Moves blocks (.expression expression) (.block opener kind inElse :: around) around

/-- Blocks are all that a text can leave open. -/
def Enclosure.IsBlock : Enclosure → Prop
  | .element _ => False
  | .block _ _ _ => True

/-- The pieces can stand one after another, and leave open what is listed. -/
inductive Nests (blocks : BlockMap) : List Piece → List Enclosure → Prop where
  | nil : Nests blocks [] []
  | snoc {pieces : List Piece} {piece : Piece} {around after : List Enclosure} :
      Nests blocks pieces around → piece.Moves blocks around after →
      Nests blocks (pieces ++ [piece]) after

namespace Expression

/-- An ending where no block is open, or the innermost one does not close by it. -/
def EndsNothing (ending : Expression) (around : List Enclosure) : Prop :=
  ending.Ends ∧ ∀ opener kind inElse rest, around = .block opener kind inElse :: rest →
    ¬ opener.Closes ending

/-- An else where no block is open, or the innermost one does not go on with it: that one has
no parts, or it is a loop which has had its else or is given a test. -/
def ContinuesNothing (expression : Expression) (around : List Enclosure) : Prop :=
  expression.Continues ∧ ∀ opener kind inElse rest, around = .block opener kind inElse :: rest →
    kind = .generic ∨ kind = .each ∧ (inElse = true ∨ ¬ expression.IsElse)

end Expression

/-- The node that an enclosure collects its content in. -/
inductive Enclosure.Of (blocks : BlockMap) : Enclosure → Node → Prop where
  | element {parent : Element} : Of blocks (.element parent.tag) (.element parent)
  | conditional {opener last : Expression} {front : List Expression} {branches : Branches} :
      opener.Opens blocks .conditional → branches.guards.head? = some opener →
      branches.guards = front ++ [last] →
      Of blocks (.block opener .conditional (decide last.IsElse)) (.conditional branches)
  | each {opener : Expression} {content : List Node} {otherwise : Option (List Node)} :
      opener.Opens blocks .each →
      Of blocks (.block opener .each otherwise.isSome) (.each opener content otherwise)
  | block {opener : Expression} {content : List Node} :
      opener.Opens blocks .generic →
      Of blocks (.block opener .generic false) (.block opener content)

/-- In a scope that is not the current one, the newest node is what is open. -/
def Enclosure.Stands (blocks : BlockMap) (enclosure : Enclosure) (nodes : List Node) : Prop :=
  ∃ node before, nodes = node :: before ∧ enclosure.Of blocks node

/-- The open scopes are those of a nesting. -/
def Scope.Within (blocks : BlockMap) (scope : Scope) (around : List Enclosure) : Prop :=
  List.Forall₂ (Enclosure.Stands blocks) around scope.outer

namespace Enclosure.Of

variable {blocks : BlockMap} {node : Node}

theorem opens {opener : Expression} {kind : BlockKind} {inElse : Bool}
    (shows : Enclosure.Of blocks (.block opener kind inElse) node) :
    opener.Opens blocks kind ∧ node.opener? = some opener := by
  cases shows with
  | conditional opens head _ => exact ⟨opens, head⟩
  | each opens => exact ⟨opens, rfl⟩
  | block opens => exact ⟨opens, rfl⟩

theorem exists_block {enclosure : Enclosure} {opener : Expression} (shows : enclosure.Of blocks node)
    (opened : node.opener? = some opener) :
    ∃ kind inElse, enclosure = .block opener kind inElse := by
  cases shows with
  | element => cases opened
  | conditional _ head _ =>
      cases head.symm.trans opened
      exact ⟨_, _, rfl⟩
  | each | block =>
      cases opened
      exact ⟨_, _, rfl⟩

theorem blockNode {expression : Expression} {kind : BlockKind} (opens : expression.Opens blocks kind) :
    Enclosure.Of blocks (.block expression kind false) (Scope.blockNode expression kind) := by
  cases kind with
  | conditional =>
      -- What opens a block is no else.
      have ⟨keyword, here, _, ⟨notElse, _⟩, _⟩ := opens
      have other : ¬ expression.IsElse := by
        rintro ⟨-, isElse⟩
        cases here.symm.trans isElse
        exact notElse rfl
      have shows := @conditional blocks expression expression [] (.single expression) opens rfl rfl
      rwa [decide_eq_false other] at shows
  | each => exact @each blocks expression [] none opens
  | generic => exact .block opens

/-- The parts of a conditional before the newest one do not tell whether it is in its else. -/
theorem branch {opener : Expression} {inElse : Bool} {branches : Branches}
    (shows : Enclosure.Of blocks (.block opener .conditional inElse) (.conditional branches))
    (content : List Node) (expression : Expression) :
    Enclosure.Of blocks (.block opener .conditional (decide expression.IsElse))
      (.conditional ((branches.fill content).add expression)) := by
  cases shows with
  | conditional opens head _ =>
      refine .conditional opens ?_ rfl
      simp [Branches.guards_add, Branches.guards_fill, List.head?_append, head]

end Enclosure.Of

namespace Piece.Moves

variable {blocks : BlockMap} {piece : Piece} {around first second : List Enclosure}

/-- What a piece leaves open is settled by what is open before it. -/
theorem unique (one : piece.Moves blocks around first) (other : piece.Moves blocks around second) :
    first = second := by
  cases one <;> cases other
  all_goals grind [Expression.Opens, Expression.Continues, Expression.IsElse, Expression.Ends,
    BlockMap.assigns_iff]

end Piece.Moves

namespace Expression

variable {blocks : BlockMap} {expression : Expression} {around after : List Enclosure}

theorem EndsNothing.not_moves (nothing : expression.EndsNothing around) :
    ¬ (Piece.expression expression).Moves blocks around after := by
  obtain ⟨⟨ends, keyword, here⟩, stays⟩ := nothing
  intro moves
  cases moves with
  | value keyless => cases keyless.symm.trans here
  | opens opens =>
      obtain ⟨_, -, isOpen, -⟩ := opens
      cases isOpen.symm.trans ends
  | branch continues => cases continues.1.symm.trans ends
  | otherwise isElse => cases isElse.1.symm.trans ends
  | closes _ closes => exact stays _ _ _ _ rfl closes

theorem ContinuesNothing.not_moves (nothing : expression.ContinuesNothing around) :
    ¬ (Piece.expression expression).Moves blocks around after := by
  obtain ⟨continues, stays⟩ := nothing
  obtain ⟨keyword, here, goesOn⟩ := continues.keyword
  intro moves
  cases moves with
  | value keyless => cases keyless.symm.trans here
  | opens opens =>
      obtain ⟨_, keyed, -, fresh, -⟩ := opens.keyword
      cases keyed.symm.trans here
      cases fresh.symm.trans goesOn
  | branch => simpa using stays _ _ _ _ rfl
  | otherwise isElse => simpa [isElse] using stays _ _ _ _ rfl
  | closes ends => cases continues.1.symm.trans ends.1

end Expression

/-- A piece of a text that refers to no view. -/
inductive Piece.Inline : Piece → Prop where
  | text {data : String} : Inline (.text data)
  | expression {expression : Expression} :
      expression.marks.isView = false → Inline (.expression expression)

/-- Such a piece can stand where it comes, unless it is an ending or an else that cannot. -/
theorem Piece.Inline.moves_or_nothing {piece : Piece} (isInline : piece.Inline) (blocks : BlockMap)
    (around : List Enclosure) :
    (∃ after, piece.Moves blocks around after) ∨ ∃ expression, piece = .expression expression ∧
      (expression.EndsNothing around ∨ expression.ContinuesNothing around) := by
  cases isInline with
  | text => exact .inl ⟨around, .text⟩
  | @expression expression noView =>
      by_cases moves : ∃ after, (Piece.expression expression).Moves blocks around after
      · exact .inl moves
      refine .inr ⟨expression, rfl, ?_⟩
      rcases Expression.isValue_or_isBlock blocks noView with
        isValue | ⟨kind, opens⟩ | continues | ends
      · exact absurd ⟨around, .value isValue.1⟩ moves
      · exact absurd ⟨_, .opens opens⟩ moves
      · refine .inr ⟨continues, ?_⟩
        rintro opener kind inElse rest rfl
        cases kind with
        | generic => exact .inl rfl
        | conditional => exact absurd ⟨_, .branch continues⟩ moves
        | each =>
            refine .inr ⟨rfl, ?_⟩
            by_contra bare
            simp only [not_or, not_not, Bool.not_eq_true] at bare
            obtain ⟨rfl, isElse⟩ := bare
            exact moves ⟨_, .otherwise isElse⟩
      · refine .inl ⟨ends, ?_⟩
        rintro opener kind inElse rest rfl closes
        exact moves ⟨_, .closes ends closes⟩

namespace Nests

variable {blocks : BlockMap} {pieces : List Piece} {piece : Piece} {first second after : List Enclosure}

theorem snoc_iff : Nests blocks (pieces ++ [piece]) after ↔
    ∃ around, Nests blocks pieces around ∧ piece.Moves blocks around after := by
  constructor
  · generalize whole : pieces ++ [piece] = taken
    rintro (_ | ⟨nests, moves⟩)
    · exact absurd whole (by simp)
    · obtain ⟨rfl, same⟩ := List.append_inj' whole rfl
      obtain rfl := List.singleton_inj.1 same
      exact ⟨_, nests, moves⟩
  · rintro ⟨around, nests, moves⟩
    exact .snoc nests moves

theorem unique (one : Nests blocks pieces first) (other : Nests blocks pieces second) :
    first = second := by
  induction one generalizing second with
  | nil =>
      generalize whole : [] = taken at other
      cases other with
      | nil => rfl
      | snoc => exact absurd whole (by simp)
  | snoc _ moves ih =>
      obtain ⟨around, nests, others⟩ := snoc_iff.1 other
      obtain rfl := ih nests
      exact moves.unique others

theorem isBlock (areInline : ∀ piece ∈ pieces, piece.Inline) (nests : Nests blocks pieces after) :
    ∀ enclosure ∈ after, enclosure.IsBlock := by
  induction nests with
  | nil => simp
  | @snoc pieces piece _ _ _ moves ih =>
      have earlier := ih fun other member => areInline other (List.mem_append_left _ member)
      have isInline : piece.Inline := areInline piece (by simp)
      cases moves with
      | start | finish => cases isInline
      | text | comment | value | void => exact earlier
      | opens => simpa [Enclosure.IsBlock] using earlier
      | branch | otherwise | closes => simp_all [Enclosure.IsBlock]

/-- Pieces of a text can all stand one after another, or there is a first one that cannot. -/
theorem exists_or_stops (blocks : BlockMap) (areInline : ∀ piece ∈ pieces, piece.Inline) :
    (∃ around, Nests blocks pieces around) ∨
      ∃ before expression rest around, pieces = before ++ .expression expression :: rest ∧
        Nests blocks before around ∧
        (expression.EndsNothing around ∨ expression.ContinuesNothing around) := by
  induction pieces using List.reverseRecOn with
  | nil => exact .inl ⟨[], .nil⟩
  | append_singleton pieces piece ih =>
      rcases ih fun other member => areInline other (List.mem_append_left _ member) with
        ⟨around, nests⟩ | ⟨before, expression, rest, around, rfl, nests, nothing⟩
      · rcases (areInline piece (by simp)).moves_or_nothing blocks around with
          ⟨after, moves⟩ | ⟨expression, rfl, nothing⟩
        · exact .inl ⟨after, .snoc nests moves⟩
        · exact .inr ⟨pieces, expression, [], around, rfl, nests, nothing⟩
      · exact .inr ⟨before, expression, rest ++ [piece], around, by simp, nests, nothing⟩

end Nests

namespace Scope

/-- A block refuses an ending in one way only. -/
theorem failure_of_closeBlock {scope : Scope} {keyword : Keyword} {expression : Expression}
    {failure : Failure} (refused : scope.closeBlock keyword expression = .error failure) :
    failure = .of (.closedBlock expression.marks.source) := by
  simp only [closeBlock] at refused
  grind

theorem failure_of_continueBlock {scope : Scope} {keyword : Keyword} {expression : Expression}
    {failure : Failure} (refused : scope.continueBlock keyword expression = .error failure) :
    failure = .of (.strayElse expression.marks.source) := by
  unfold continueBlock at refused
  grind

end Scope

namespace Scope.Within

variable {blocks : BlockMap} {scope : Scope} {around : List Enclosure}

theorem exists_node {enclosure : Enclosure} (within : scope.Within blocks (enclosure :: around)) :
    ∃ node before outer, scope.outer = (node :: before) :: outer ∧ enclosure.Of blocks node ∧
      List.Forall₂ (Enclosure.Stands blocks) around outer := by
  obtain ⟨nodes, outer, ⟨node, before, rfl, shows⟩, others, same⟩ := List.forall₂_cons_left_iff.1 within
  exact ⟨node, before, outer, same, shows, others⟩

theorem exists_enclosure {node : Node} {before : List Node} {outer : List (List Node)}
    (within : scope.Within blocks around) (same : scope.outer = (node :: before) :: outer) :
    ∃ enclosure rest, around = enclosure :: rest ∧ enclosure.Of blocks node ∧
      List.Forall₂ (Enclosure.Stands blocks) rest outer := by
  unfold Within at within
  rw [same] at within
  obtain ⟨enclosure, rest, ⟨_, _, equal, shows⟩, others, rfl⟩ := List.forall₂_cons_right_iff.1 within
  obtain ⟨rfl, rfl⟩ := List.cons.inj equal
  exact ⟨enclosure, rest, rfl, shows, others⟩

theorem depth_eq (within : scope.Within blocks around) : scope.depth = around.length :=
  (List.Forall₂.length_eq within).symm

end Scope.Within

namespace Compiler

variable {compiler : Compiler} {context : ViewContext} {scope next : Scope} {piece : Piece}
  {around after : List Enclosure}

/-- A piece that can stand where it comes is taken. -/
theorem exists_addPiece_of_moves (context : ViewContext)
    (moves : piece.Moves compiler.blocks around after) (isInline : piece.Inline)
    (within : scope.Within compiler.blocks around) :
    ∃ next, compiler.addPiece context scope piece = .ok next ∧ next.Within compiler.blocks after := by
  obtain ⟨current, outside⟩ := scope
  cases moves with
  | text => exact ⟨_, rfl, within⟩
  | value keyless =>
      cases isInline with
      | expression noView => exact ⟨_, addPiece_value ⟨keyless, noView⟩, within⟩
  | opens opens => exact ⟨_, addPiece_opens opens, .cons ⟨_, _, rfl, .blockNode opens⟩ within⟩
  | branch continues =>
      obtain ⟨_, before, outer, rfl, shows, others⟩ := within.exists_node
      obtain ⟨keyword, here, goesOn⟩ := continues.keyword
      cases shows with
      | conditional opens head ends =>
          refine ⟨_, (addPiece_continues continues.1 here goesOn).trans
            (Scope.continueBlock_eq_ok_iff.2 (.inl ⟨_, before, outer, rfl, rfl⟩)), ?_⟩
          exact .cons ⟨_, before, rfl, .branch (.conditional opens head ends) current.reverse _⟩ others
  | otherwise isElse =>
      obtain ⟨_, before, outer, rfl, shows, others⟩ := within.exists_node
      generalize fresh : false = inElse at shows
      cases shows with
      | @each _ content otherwise opens =>
          obtain rfl : otherwise = none := by simpa using fresh.symm
          refine ⟨_, (addPiece_continues isElse.1 isElse.2 rfl).trans
            (Scope.continueBlock_eq_ok_iff.2 (.inr ⟨_, content, before, outer, rfl, rfl, rfl⟩)), ?_⟩
          exact .cons ⟨_, before, rfl, @Enclosure.Of.each _ _ _ (some []) opens⟩ others
  | closes ends closes =>
      obtain ⟨node, before, outer, rfl, shows, others⟩ := within.exists_node
      obtain ⟨opens, opened⟩ := shows.opens
      obtain ⟨keyword, here⟩ := ends.2
      obtain ⟨openKeyword, keyed, -⟩ := opens
      refine ⟨_, (addPiece_ends ends.1 here).trans (Scope.closeBlock_eq_ok_iff.2
        ⟨node, before, outer, _, rfl, opened, ⟨openKeyword, keyed, ?_⟩, rfl⟩), others⟩
      simpa [here, keyed] using closes.2
  | comment | void | start | finish => cases isInline

/-- An ending that is taken closes the block that it stands in. -/
theorem exists_moves_of_closeBlock {keyword : Keyword} {ending : Expression}
    (within : scope.Within compiler.blocks around) (ended : ending.marks.isEnd = true)
    (here : ending.marks.keyword = some keyword) (taken : scope.closeBlock keyword ending = .ok next) :
    ∃ after, (Piece.expression ending).Moves compiler.blocks around after ∧
      next.Within compiler.blocks after := by
  obtain ⟨current, outside⟩ := scope
  obtain ⟨node, before, outer, opener, rfl, opened, ⟨openKeyword, keyed, fits⟩, rfl⟩ :=
    Scope.closeBlock_eq_ok_iff.1 taken
  obtain ⟨_, rest, rfl, shows, others⟩ := within.exists_enclosure rfl
  obtain ⟨kind, inElse, rfl⟩ := shows.exists_block opened
  refine ⟨rest, .closes ⟨ended, keyword, here⟩ ⟨ended, ?_⟩, others⟩
  simpa [here, keyed] using fits

/-- An else that is taken goes on with a conditional, or with a loop that has none yet. -/
theorem exists_moves_of_continueBlock {keyword : Keyword} {expression : Expression}
    (within : scope.Within compiler.blocks around) (ended : expression.marks.isEnd = false)
    (here : expression.marks.keyword = some keyword) (goesOn : keyword.continues = true)
    (taken : scope.continueBlock keyword expression = .ok next) :
    ∃ after, (Piece.expression expression).Moves compiler.blocks around after ∧
      next.Within compiler.blocks after := by
  obtain ⟨current, outside⟩ := scope
  rcases Scope.continueBlock_eq_ok_iff.1 taken with ⟨branches, before, outer, rfl, rfl⟩ |
    ⟨opener, body, before, outer, rfl, rfl, rfl⟩
  · obtain ⟨_, rest, rfl, shows, others⟩ := within.exists_enclosure rfl
    cases shows with
    | conditional opens head ends =>
        exact ⟨_, .branch (.of_keyword ended here goesOn), .cons ⟨_, before, rfl,
          .branch (.conditional opens head ends) current.reverse expression⟩ others⟩
  · obtain ⟨_, rest, rfl, shows, others⟩ := within.exists_enclosure rfl
    cases shows with
    | each opens =>
        exact ⟨_, .otherwise ⟨ended, here⟩,
          .cons ⟨_, before, rfl, @Enclosure.Of.each _ _ _ (some []) opens⟩ others⟩

/-- A piece that is taken can stand where it comes. -/
theorem exists_moves_of_addPiece (within : scope.Within compiler.blocks around)
    (taken : compiler.addPiece context scope piece = .ok next) :
    ∃ after, piece.Moves compiler.blocks around after ∧ next.Within compiler.blocks after := by
  cases taken_of_addPiece taken with
  | text => exact ⟨around, .text, within⟩
  | comment => exact ⟨around, .comment, within⟩
  | void isVoid => exact ⟨around, .void isVoid, within⟩
  | @start name attributes isOpen =>
      exact ⟨.element name :: around, .start isOpen,
        .cons ⟨_, _, rfl, @Enclosure.Of.element _ ⟨name, attributes, [], false⟩⟩ within⟩
  | finish closed =>
      obtain ⟨current, outside⟩ := scope
      obtain ⟨element, before, outer, node, rfl, rfl, -, rfl⟩ := closeElement_eq_ok_iff.1 closed
      obtain ⟨_, rest, rfl, shows, others⟩ := within.exists_enclosure rfl
      cases shows with
      | element => exact ⟨rest, .finish, others⟩
  | value isValue => exact ⟨around, .value isValue.1, within⟩
  | view unkeyed => exact ⟨around, .value unkeyed, within⟩
  | opens opens => exact ⟨_, .opens opens, .cons ⟨_, _, rfl, .blockNode opens⟩ within⟩
  | continues isOpen here goesOn passed =>
      exact exists_moves_of_continueBlock within isOpen here goesOn passed
  | ends ended here passed => exact exists_moves_of_closeBlock within ended here passed

/-- An ending that closes nothing stops the run. -/
theorem addPiece_endsNothing {ending : Expression} (nothing : ending.EndsNothing around)
    (within : scope.Within compiler.blocks around) :
    compiler.addPiece context scope (.expression ending) =
      .error (.of (.closedBlock ending.marks.source)) := by
  obtain ⟨keyword, here⟩ := nothing.1.2
  cases run : compiler.addPiece context scope (.expression ending) with
  | ok next =>
      obtain ⟨after, moves, -⟩ := exists_moves_of_addPiece within run
      exact absurd moves nothing.not_moves
  | error failure =>
      rw [addPiece_ends nothing.1.1 here] at run
      rw [Scope.failure_of_closeBlock run]

/-- So does an else that nothing goes on with. -/
theorem addPiece_continuesNothing {expression : Expression}
    (nothing : expression.ContinuesNothing around) (within : scope.Within compiler.blocks around) :
    compiler.addPiece context scope (.expression expression) =
      .error (.of (.strayElse expression.marks.source)) := by
  obtain ⟨keyword, here, goesOn⟩ := nothing.1.keyword
  cases run : compiler.addPiece context scope (.expression expression) with
  | ok next =>
      obtain ⟨after, moves, -⟩ := exists_moves_of_addPiece within run
      exact absurd moves nothing.not_moves
  | error failure =>
      rw [addPiece_continues nothing.1.1 here goesOn] at run
      rw [Scope.failure_of_continueBlock run]

/-- The run over pieces that can all stand where they come. -/
theorem exists_addPieces_of_nests (context : ViewContext) {pieces : List Piece}
    (areInline : ∀ piece ∈ pieces, piece.Inline) (nests : Nests compiler.blocks pieces around) :
    ∃ scope, compiler.addPieces context .root pieces = .ok scope ∧
      scope.Within compiler.blocks around := by
  induction nests with
  | nil => exact ⟨.root, rfl, .nil⟩
  | @snoc pieces piece _ _ _ moves ih =>
      obtain ⟨scope, passed, within⟩ := ih fun other member =>
        areInline other (List.mem_append_left _ member)
      obtain ⟨next, taken, stands⟩ :=
        exists_addPiece_of_moves context moves (areInline piece (by simp)) within
      refine ⟨next, ?_, stands⟩
      rw [addPieces_append_of_ok passed, addPieces_cons_of_ok taken]
      rfl

/-- A run that is not stopped is one over such pieces. -/
theorem exists_nests_of_addPieces {pieces : List Piece}
    (passed : compiler.addPieces context .root pieces = .ok scope) :
    ∃ around, Nests compiler.blocks pieces around ∧ scope.Within compiler.blocks around := by
  induction pieces using List.reverseRecOn generalizing scope with
  | nil =>
      cases passed
      exact ⟨[], .nil, .nil⟩
  | append_singleton pieces piece ih =>
      obtain ⟨middle, others, taken⟩ := addPieces_concat_eq_ok_iff.1 passed
      obtain ⟨around, nests, within⟩ := ih others
      obtain ⟨after, moves, stands⟩ := exists_moves_of_addPiece within taken
      exact ⟨after, .snoc nests moves, stands⟩

/-- A piece that stops the run after pieces that can all stand. -/
theorem compileString_eq_error {source : String} {before rest : List Piece} {failure : Failure}
    (read : compiler.textPieces source = .ok (before ++ piece :: rest))
    (passed : compiler.addPieces context .root before = .ok scope)
    (stopped : compiler.addPiece context scope piece = .error failure) :
    compiler.compileString context source = .error failure := by
  rw [compileString_eq read, addPieces_append_of_ok passed, addPieces_cons, stopped]
  rfl

/-- How the pieces of a text decide what it compiles to. -/
structure Decides (compiler : Compiler) (context : ViewContext) (source : String)
    (pieces : List Piece) : Prop where
  endsNothing : ∀ before ending rest around, pieces = before ++ .expression ending :: rest →
    Nests compiler.blocks before around → ending.EndsNothing around →
    compiler.compileString context source = .error (.of (.closedBlock ending.marks.source))
  continuesNothing : ∀ before expression rest around,
    pieces = before ++ .expression expression :: rest →
    Nests compiler.blocks before around → expression.ContinuesNothing around →
    compiler.compileString context source = .error (.of (.strayElse expression.marks.source))
  leavesOpen : ∀ around, Nests compiler.blocks pieces around → around ≠ [] →
    ∃ failure, compiler.compileString context source = .error failure ∧
      failure.cause = .openScopes around.length ∧
      failure.message = toString around.length ++ " element or block scope(s) left unclosed"
  closed : Nests compiler.blocks pieces [] →
    ∃ nodes, compiler.compileString context source = .ok nodes
  -- One of these is the case.
  exhausts : (∃ around, Nests compiler.blocks pieces around ∧ ∀ enclosure ∈ around, enclosure.IsBlock) ∨
    ∃ before expression rest around, pieces = before ++ .expression expression :: rest ∧
      Nests compiler.blocks before around ∧
      (expression.EndsNothing around ∨ expression.ContinuesNothing around)

/-- A text whose pieces all read, and none of which refers to a view, compiles as the first
piece that cannot stand where it comes says, and else as what is left open says. -/
theorem decides_compileString (compiler : Compiler) (context : ViewContext) {source : String}
    {pieces : List Piece} (read : compiler.textPieces source = .ok pieces)
    (noView : ∀ expression, .expression expression ∈ pieces → expression.marks.isView = false) :
    compiler.Decides context source pieces := by
  have areInline : ∀ piece ∈ pieces, piece.Inline := by
    intro piece member
    rcases text_or_expression_of_mem_textPieces read member with ⟨data, rfl⟩ | ⟨expression, rfl⟩
    · exact .text
    · exact .expression (noView expression member)
  have runs {before : List Piece} {around : List Enclosure} (among : before ⊆ pieces)
      (nests : Nests compiler.blocks before around) :=
    exists_addPieces_of_nests context (fun piece member => areInline piece (among member)) nests
  constructor
  case endsNothing =>
    rintro before ending rest around rfl nests nothing
    obtain ⟨scope, passed, within⟩ := runs (List.subset_append_left _ _) nests
    exact compileString_eq_error read passed (addPiece_endsNothing nothing within)
  case continuesNothing =>
    rintro before expression rest around rfl nests nothing
    obtain ⟨scope, passed, within⟩ := runs (List.subset_append_left _ _) nests
    exact compileString_eq_error read passed (addPiece_continuesNothing nothing within)
  case leavesOpen =>
    intro around nests isOpen
    obtain ⟨scope, passed, within⟩ := runs (List.Subset.refl _) nests
    have deep : scope.outer ≠ [] := by
      intro empty
      have length : scope.depth = around.length := within.depth_eq
      rw [Scope.depth, empty] at length
      exact isOpen (List.length_eq_zero_iff.1 length.symm)
    refine ⟨.of (.openScopes around.length), ?_, rfl, ?_⟩
    · rw [compileString_eq read, passed, ← within.depth_eq]
      simp [bind, Except.bind, Scope.finish, deep]
    · exact String.append_empty
  case closed =>
    intro nests
    obtain ⟨scope, passed, within⟩ := runs (List.Subset.refl _) nests
    have empty : scope.outer = [] := List.forall₂_nil_left_iff.1 within
    rw [compileString_eq read, passed]
    simp [bind, Except.bind, Scope.finish, empty]
  case exhausts =>
    rcases Nests.exists_or_stops compiler.blocks areInline with ⟨around, nests⟩ | stops
    · exact .inl ⟨around, nests, nests.isBlock areInline⟩
    · exact .inr stops

/-- An else with a test. -/
def elseIfB : Expression :=
  ⟨.ofName "b", { Marks.plain "else if b" with keyword := some .orElseIf }⟩

set_option maxRecDepth 20000 in
theorem fragmentPieces_elseIfB :
    Compiler.standard.fragmentPieces (.delimited "else if b") = .ok [.expression elseIfB] := by
  apply fragmentPieces_delimited <;> cbv

/-- The pieces of a conditional that is left open in its else. -/
def choicePieces : List Piece :=
  [.expression .ifB, .text "x", .expression .bareElse, .text "y"]

/-- The pieces of a loop with an else and then an else with a test, around a conditional. -/
def twoElsePieces : List Piece :=
  .expression .eachA :: choicePieces ++ [.expression .endIf, .expression .bareElse, .text "z"] ++
    .expression elseIfB :: [.text "w", .expression .bareEnd]

theorem nests_choicePieces {before : List Piece} {around : List Enclosure}
    (nests : Nests .builtins before around) :
    Nests .builtins (before ++ choicePieces) (.block .ifB .conditional true :: around) := by
  have body : Nests .builtins (before ++ [.expression .ifB] ++ [.text "x"])
      (.block .ifB .conditional false :: around) :=
    .snoc (.snoc nests (.opens Expression.ifB_opens)) .text
  have taken : Nests .builtins
      (before ++ [.expression .ifB] ++ [.text "x"] ++ [.expression .bareElse] ++ [.text "y"])
      (.block .ifB .conditional true :: around) :=
    .snoc (.snoc body (.branch Expression.bareElse_isElse.continues)) .text
  simpa [choicePieces] using taken

/-- The conditional goes on with its else, and so does the loop with the first one. -/
theorem nests_before_elseIfB :
    Nests .builtins
      (.expression .eachA :: choicePieces ++ [.expression .endIf, .expression .bareElse, .text "z"])
      [.block .eachA .each true] := by
  have loop : Nests .builtins [.expression .eachA] [.block .eachA .each false] :=
    .snoc .nil (.opens Expression.eachA_opens)
  have closed := (nests_choicePieces loop).snoc
    (.closes ⟨rfl, .ifTrue, rfl⟩ Expression.endIf_closes)
  exact (closed.snoc (.otherwise Expression.bareElse_isElse)).snoc .text

theorem isView_of_mem_twoElsePieces {expression : Expression}
    (member : .expression expression ∈ twoElsePieces) : expression.marks.isView = false := by
  simp only [twoElsePieces, choicePieces, List.cons_append, List.nil_append, List.mem_cons,
    Piece.expression.injEq, List.not_mem_nil, or_false, reduceCtorEq, false_or] at member
  rcases member with rfl | rfl | rfl | rfl | rfl | rfl | rfl <;> rfl

set_option maxRecDepth 20000 in
theorem textPieces_twoElse : Compiler.standard.textPieces
    "{{each a}}{{if b}}x{{else}}y{{/if}}{{else}}z{{else if b}}w{{/}}" = .ok twoElsePieces := by
  have split : Fragment.split "{{each a}}{{if b}}x{{else}}y{{/if}}{{else}}z{{else if b}}w{{/}}" =
      ⟨[.delimited "each a", .delimited "if b", .literal "x", .delimited "else", .literal "y",
        .delimited "/if", .delimited "else", .literal "z", .delimited "else if b", .literal "w",
        .delimited "/"], none⟩ := by
    cbv
  rw [textPieces_eq_ok_iff, split]
  refine ⟨rfl, ?_⟩
  simp only [gather, fragmentPieces_eachA, fragmentPieces_ifB, fragmentPieces_endIf,
    fragmentPieces_elseIfB, fragmentPieces_else, fragmentPieces_slash]
  rfl

set_option maxRecDepth 20000 in
theorem textPieces_choice :
    Compiler.standard.textPieces "{{if b}}x{{else}}y" = .ok choicePieces := by
  have split : Fragment.split "{{if b}}x{{else}}y" =
      ⟨[.delimited "if b", .literal "x", .delimited "else", .literal "y"], none⟩ := by
    cbv
  rw [textPieces_eq_ok_iff, split]
  refine ⟨rfl, ?_⟩
  simp only [gather, fragmentPieces_ifB, fragmentPieces_else]
  rfl

/-- The else with a test is refused, and not one of the two before it; a conditional that is left
open in its else is counted. -/
theorem decides_compileString_twoElse :
    Compiler.standard.textPieces "{{each a}}{{if b}}x{{else}}y{{/if}}{{else}}z{{else if b}}w{{/}}" =
        .ok twoElsePieces ∧
      (∀ expression, .expression expression ∈ twoElsePieces → expression.marks.isView = false) ∧
      Compiler.standard.compileString .detached
          "{{each a}}{{if b}}x{{else}}y{{/if}}{{else}}z{{else if b}}w{{/}}" =
        .error (.of (.strayElse "else if b")) ∧
      Compiler.standard.textPieces "{{if b}}x{{else}}y" = .ok choicePieces ∧
      (∀ expression, .expression expression ∈ choicePieces → expression.marks.isView = false) ∧
      ∃ failure, Compiler.standard.compileString .detached "{{if b}}x{{else}}y" = .error failure ∧
        failure.cause = .openScopes 1 ∧
        failure.message = "1 element or block scope(s) left unclosed" := by
  have noView : ∀ expression, .expression expression ∈ twoElsePieces →
      expression.marks.isView = false := fun _ => isView_of_mem_twoElsePieces
  have among : ∀ expression, .expression expression ∈ choicePieces →
      expression.marks.isView = false := by
    intro expression member
    exact noView expression (by simp [twoElsePieces, member])
  have stray := decides_compileString .standard .detached textPieces_twoElse noView
  have left := decides_compileString .standard .detached textPieces_choice among
  refine ⟨textPieces_twoElse, noView, ?_, textPieces_choice, among, ?_⟩
  · refine stray.continuesNothing _ elseIfB _ _ rfl nests_before_elseIfB ⟨⟨rfl, .inr rfl⟩, ?_⟩
    rintro opener kind inElse rest same
    obtain ⟨⟨rfl, rfl, rfl⟩, -⟩ := by simpa using same
    exact .inr ⟨rfl, .inl rfl⟩
  · obtain ⟨failure, failed, cause, message⟩ :=
      left.leavesOpen _ (nests_choicePieces .nil) (by simp)
    exact ⟨failure, failed, cause, message.trans (by decide)⟩

end Compiler

end Stencil
