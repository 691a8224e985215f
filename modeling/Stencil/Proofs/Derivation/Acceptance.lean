import Mathlib
import Stencil.Proofs.Derivation.Soundness
import Stencil.Proofs.Marks

/-! A source is accepted when its pieces derive nodes, and these are its template. -/

set_option autoImplicit false

namespace Stencil

variable {compiler : Compiler} {context : ViewContext}

section

variable {pieces : List Piece} {scope after : Scope}

/-- The end tag of an element closes what its start tag opened. -/
theorem Holds.closeElement {tag name : String} (holds : Holds compiler.blocks pieces scope)
    (plain : ∀ piece ∈ pieces, compiler.Plain context piece)
    (taken : compiler.closeElement context scope tag name = .ok after) :
    Holds compiler.blocks (pieces ++ [.finish tag name]) after := by
  obtain ⟨current, around⟩ := scope
  obtain ⟨element, before, outer, node, rfl, named, closed, rfl⟩ :=
    Compiler.closeElement_eq_ok_iff.1 taken
  -- The start tag of the element was taken, so the element stands for itself.
  obtain ⟨below, opening, inside, same, -, begins, -⟩ := holds.leave
  obtain ⟨first, attributes, -, rfl, rfl⟩ := begins.of_element
  have keeps : compiler.Keeps context first :=
    plain (.start first attributes) (by simp [same])
  rw [keeps _ rfl] at closed
  cases closed
  refine holds.closed fun {opening inside} begins derived => ?_
  obtain ⟨_, _, isOpen, rfl, equal⟩ := begins.of_element
  cases equal
  subst named
  simpa using Derives.element isOpen derived .nil

/-- An else goes on with the block that is open. -/
theorem Holds.continueBlock {keyword : Keyword} {expression : Expression}
    (holds : Holds compiler.blocks pieces scope) (isOpen : expression.marks.isEnd = false)
    (here : expression.marks.keyword = some keyword) (goesOn : keyword.continues = true)
    (taken : scope.continueBlock keyword expression = .ok after) :
    Holds compiler.blocks (pieces ++ [.expression expression]) after := by
  obtain ⟨current, around⟩ := scope
  rcases Scope.continueBlock_eq_ok_iff.1 taken with ⟨branches, before, outer, rfl, rfl⟩ |
    ⟨opener, body, before, outer, rfl, rfl, rfl⟩
  · have continues := Expression.Continues.of_keyword isOpen here goesOn
    exact holds.continued fun begins derived => .branch begins derived continues
  · exact holds.continued fun begins derived => .otherwise begins derived ⟨isOpen, here⟩

/-- An ending closes the block that is open. -/
theorem Holds.closeBlock {keyword : Keyword} {ending : Expression}
    (holds : Holds compiler.blocks pieces scope) (ended : ending.marks.isEnd = true)
    (here : ending.marks.keyword = some keyword)
    (taken : scope.closeBlock keyword ending = .ok after) :
    Holds compiler.blocks (pieces ++ [.expression ending]) after := by
  obtain ⟨current, around⟩ := scope
  obtain ⟨node, before, outer, opener, rfl, opened, ⟨named, keyed, fits⟩, rfl⟩ :=
    Scope.closeBlock_eq_ok_iff.1 taken
  have closes : opener.Closes ending := by
    refine ⟨ended, ?_⟩
    rw [here, keyed]
    exact fits.imp (congrArg some) (congrArg some)
  exact holds.closed fun begins derived => begins.close derived opened closes

/-- Taking one piece keeps the open scopes true to the pieces taken. -/
theorem Holds.addPiece {piece : Piece} (holds : Holds compiler.blocks pieces scope)
    (plain : ∀ other ∈ pieces ++ [piece], compiler.Plain context other)
    (taken : compiler.addPiece context scope piece = .ok after) :
    Holds compiler.blocks (pieces ++ [piece]) after := by
  obtain ⟨earlier, own⟩ := List.forall_mem_append.1 plain
  cases Compiler.taken_of_addPiece taken with
  | text => exact holds.extend (.text .nil)
  | comment => exact holds.extend (.comment .nil)
  | void isVoid => exact holds.extend (.void isVoid .nil)
  | start isOpen => exact holds.enter (.element isOpen)
  | finish closed => exact holds.closeElement earlier closed
  | value isValue => exact holds.extend (.value isValue .nil)
  | view _ isView => exact absurd (own _ List.mem_cons_self) (by simp [Compiler.Plain, isView])
  | @opens _ kind opens =>
      cases kind with
      | conditional => exact holds.enter (.conditional opens)
      | each => exact holds.enter (.each opens)
      | generic => exact holds.enter (.block opens)
  | continues isOpen here goesOn passed => exact holds.continueBlock isOpen here goesOn passed
  | ends ended here passed => exact holds.closeBlock ended here passed

end

/-- So does taking many. -/
theorem Holds.addPieces {taken pieces : List Piece} {scope after : Scope}
    (holds : Holds compiler.blocks taken scope)
    (plain : ∀ piece ∈ taken ++ pieces, compiler.Plain context piece)
    (passed : compiler.addPieces context scope pieces = .ok after) :
    Holds compiler.blocks (taken ++ pieces) after := by
  induction pieces generalizing taken scope with
  | nil =>
      cases passed
      simpa using holds
  | cons piece rest ih =>
      rw [Compiler.addPieces_cons] at passed
      obtain ⟨next, first, others⟩ := bind_eq_ok_iff.1 passed
      -- The piece joins the pieces that were taken.
      rw [← List.singleton_append, ← List.append_assoc] at plain ⊢
      exact ih (holds.addPiece (fun other member => plain other (List.mem_append_left _ member)) first)
        plain others

/-- Pieces are accepted from the root exactly as they derive nodes. -/
theorem Compiler.addPieces_finish_eq_ok_iff {pieces : List Piece} {nodes : List Node}
    (plain : ∀ piece ∈ pieces, compiler.Plain context piece) :
    compiler.addPieces context .root pieces >>= Scope.finish = .ok nodes ↔
      Derives compiler.blocks pieces nodes := by
  constructor
  · intro accepted
    obtain ⟨scope, passed, finished⟩ := bind_eq_ok_iff.1 accepted
    have holds : Holds compiler.blocks pieces scope :=
      Holds.addPieces (.root .nil) plain passed
    obtain ⟨closed, rfl⟩ := Scope.finish_eq_ok_iff.1 finished
    -- With no scope around, the pieces derive what the root has collected.
    cases holds with
    | root derived => simpa using derived
    | inner => cases closed
  · intro derived
    rw [Scope.root, derived.addPieces [] [] plain]
    simp [bind, Except.bind, Scope.finish]

/-- The pieces of a text are plain if none of them refers to a view. -/
theorem Compiler.plain_of_textPieces {source : String} {pieces : List Piece}
    (read : compiler.textPieces source = .ok pieces)
    (noView : ∀ expression, .expression expression ∈ pieces → expression.marks.isView = false) :
    ∀ piece ∈ pieces, compiler.Plain context piece := by
  intro piece member
  rcases Compiler.text_or_expression_of_mem_textPieces read member with
    ⟨data, rfl⟩ | ⟨expression, rfl⟩
  · trivial
  · exact noView expression member

/-- A text whose pieces all read, and none of which refers to a view, compiles
exactly as the block grammar derives its pieces: into the nodes they derive, and
into none if they derive none. -/
theorem Compiler.compileString_eq_ok_iff_derives (compiler : Compiler) (context : ViewContext)
    {source : String} {pieces : List Piece} (read : compiler.textPieces source = .ok pieces)
    (noView : ∀ expression, .expression expression ∈ pieces → expression.marks.isView = false)
    (nodes : Template) :
    compiler.compileString context source = .ok nodes ↔ Derives compiler.blocks pieces nodes := by
  rw [Compiler.compileString_eq read]
  exact Compiler.addPieces_finish_eq_ok_iff (Compiler.plain_of_textPieces read noView)

def Expression.valueA : Expression :=
  ⟨.ofName "a", .plain "a"⟩

/-- The opener of a loop through `a`. -/
def Expression.eachA : Expression :=
  ⟨.ofName "a", { Marks.plain "each a" with keyword := some .each }⟩

/-- The opener of a conditional on `b`. -/
def Expression.ifB : Expression :=
  ⟨.ofName "b", { Marks.plain "if b" with keyword := some .ifTrue }⟩

/-- The ending of a conditional that names its keyword. -/
def Expression.endIf : Expression :=
  ⟨.empty, { Marks.plain "/if" with keyword := some .ifTrue, isEnd := true }⟩

theorem Expression.eachA_opens : Expression.eachA.Opens .builtins .each :=
  ⟨.each, rfl, rfl, by decide, .listed rfl⟩

theorem Expression.ifB_opens : Expression.ifB.Opens .builtins .conditional :=
  ⟨.ifTrue, rfl, rfl, by decide, .listed rfl⟩

theorem Expression.bareElse_isElse : Expression.bareElse.IsElse :=
  ⟨rfl, rfl⟩

theorem Expression.endIf_closes : Expression.ifB.Closes .endIf :=
  ⟨rfl, .inr rfl⟩

theorem Expression.bareEnd_closes (opener : Expression) : opener.Closes .bareEnd :=
  ⟨rfl, .inl rfl⟩

/-- The pieces of a loop with an else part, around a conditional with one. -/
def loopPieces : List Piece :=
  [.expression .eachA, .expression .ifB, .text "x", .expression .bareElse, .text "y",
    .expression .endIf, .expression .bareElse, .text "z", .expression .bareEnd]

def loopNodes : Template :=
  [.each .eachA [.conditional ⟨[.ifB, .bareElse], [[.text "x"], [.text "y"]]⟩] (some [.text "z"])]

theorem loopPieces_derives : Derives .builtins loopPieces loopNodes := by
  have branches : DerivesBranches .builtins [.expression .bareElse, .text "y"]
      [⟨.bareElse, [.text "y"]⟩] :=
    .cons Expression.bareElse_isElse.continues (.text .nil) .nil
  have inside : Derives .builtins
      [.expression .ifB, .text "x", .expression .bareElse, .text "y", .expression .endIf]
      [.conditional ⟨[.ifB, .bareElse], [[.text "x"], [.text "y"]]⟩] :=
    .conditional Expression.ifB_opens Expression.endIf_closes (.text .nil) branches .nil
  exact .each Expression.eachA_opens (Expression.bareEnd_closes _) inside
    (.some Expression.bareElse_isElse (.text .nil)) .nil

set_option maxRecDepth 20000 in
theorem Compiler.fragmentPieces_valueA :
    Compiler.standard.fragmentPieces (.delimited "a") = .ok [.expression .valueA] := by
  apply Compiler.fragmentPieces_delimited <;> cbv

set_option maxRecDepth 20000 in
theorem Compiler.fragmentPieces_eachA :
    Compiler.standard.fragmentPieces (.delimited "each a") = .ok [.expression .eachA] := by
  apply Compiler.fragmentPieces_delimited <;> cbv

set_option maxRecDepth 20000 in
theorem Compiler.fragmentPieces_ifB :
    Compiler.standard.fragmentPieces (.delimited "if b") = .ok [.expression .ifB] := by
  apply Compiler.fragmentPieces_delimited <;> cbv

set_option maxRecDepth 20000 in
theorem Compiler.fragmentPieces_endIf :
    Compiler.standard.fragmentPieces (.delimited "/if") = .ok [.expression .endIf] := by
  apply Compiler.fragmentPieces_delimited <;> cbv

set_option maxRecDepth 20000 in
theorem Compiler.compileString_loop :
    Compiler.standard.textPieces "{{each a}}{{if b}}x{{else}}y{{/if}}{{else}}z{{/}}" =
        .ok loopPieces ∧
      (∀ expression, .expression expression ∈ loopPieces → expression.marks.isView = false) ∧
      Derives .builtins loopPieces loopNodes ∧
      Compiler.standard.compileString .detached
        "{{each a}}{{if b}}x{{else}}y{{/if}}{{else}}z{{/}}" = .ok loopNodes := by
  have split : Fragment.split "{{each a}}{{if b}}x{{else}}y{{/if}}{{else}}z{{/}}" =
      ⟨[.delimited "each a", .delimited "if b", .literal "x", .delimited "else", .literal "y",
        .delimited "/if", .delimited "else", .literal "z", .delimited "/"], none⟩ := by
    cbv
  have read : Compiler.standard.textPieces "{{each a}}{{if b}}x{{else}}y{{/if}}{{else}}z{{/}}" =
      .ok loopPieces := by
    rw [Compiler.textPieces_eq_ok_iff, split]
    refine ⟨rfl, ?_⟩
    simp only [gather, Compiler.fragmentPieces_eachA, Compiler.fragmentPieces_ifB,
      Compiler.fragmentPieces_endIf, Compiler.fragmentPieces_else, Compiler.fragmentPieces_slash]
    rfl
  have noView : ∀ expression, .expression expression ∈ loopPieces →
      expression.marks.isView = false := by
    intro expression member
    simp only [loopPieces, List.mem_cons, Piece.expression.injEq, List.not_mem_nil, or_false,
      reduceCtorEq, false_or] at member
    rcases member with rfl | rfl | rfl | rfl | rfl | rfl <;> rfl
  have derives := Compiler.compileString_eq_ok_iff_derives .standard .detached read noView loopNodes
  exact ⟨read, noView, loopPieces_derives, derives.2 loopPieces_derives⟩

end Stencil
