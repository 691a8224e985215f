import Stencil.Proofs.Gather
import Stencil.Template.Compile

/-! What a template is built from: tags, texts, comments and expressions, in order.

The pieces of a source do not depend on the scopes that are open. A source
compiles as its pieces are taken one by one, as long as all of them read.
-/

set_option autoImplicit false

namespace Stencil

/-- One thing that a source adds to the tree or does to its open scopes. The
attributes of a start tag are compiled already; the events keep them as they are
written, and what the compiled ones are of these is said of the walk. -/
inductive Piece where
  | start (name : String) (attributes : Dict Attribute)
  | finish (tag name : String)
  | text (data : String)
  | expression (expression : Expression)
  | comment (data : String)

namespace Compiler

variable (compiler : Compiler) (context : ViewContext)

def fragmentPieces : Fragment → Except Failure (List Piece)
  | .literal text => .ok [.text text]
  | .delimited content =>
      if content.toList.all Text.isBlank then .ok []
      else do
        let expression ← compiler.expression content
        pure [.expression expression]

/-- The pieces of a text, if it splits and all its expressions parse. -/
def textPieces (text : String) : Except Failure (List Piece) :=
  match (Fragment.split text).fault with
  -- The fragments before a fault make no pieces, since the text is rejected.
  | some cause => .error (.of cause)
  | none => gather compiler.fragmentPieces (Fragment.split text).items

/-- A declaration is put out as it is written. -/
def declaration (tag : String) : Expression :=
  ⟨.literal (.string tag), { Marks.plain tag with unescaped := true }⟩

/-- The pieces of an event. Comments that are not kept and end tags of void
elements have none. -/
def eventPieces : Event → Except Failure (List Piece)
  | .startTag _ name written => do
      let attributes ← compiler.attributes context written
      pure [.start name attributes]
  | .endTag tag name => if Markup.isVoid name then .ok [] else .ok [.finish tag name]
  | .text data => compiler.textPieces (unescapeEntities data)
  | .comment tag data =>
      if compiler.conditionalComments && Markup.isConditional tag then .ok [.comment data] else .ok []
  | .other tag => .ok [.expression (declaration tag)]

/-- The pieces of a source with markup. -/
def markupPieces (source : String) : Except Failure (List Piece) :=
  gather (compiler.eventPieces context) (Markup.events source)

/-- What a piece does to the open scopes. -/
def addPiece (scope : Scope) : Piece → Except Failure Scope
  | .start name attributes =>
      let opened := scope.append (.element ⟨name, attributes, [], Markup.isVoid name⟩)
      .ok (if Markup.isVoid name then opened else opened.enter)
  | .finish tag name => compiler.closeElement context scope tag name
  | .text data => .ok (scope.append (.text data))
  | .expression expression => compiler.addExpression context scope expression
  | .comment data => .ok (scope.append (.comment data))

/-- The scopes after some pieces. -/
def addPieces (scope : Scope) (pieces : List Piece) : Except Failure Scope :=
  pieces.foldlM (compiler.addPiece context) scope

variable {compiler} {context}

@[simp] theorem addPieces_nil (scope : Scope) : compiler.addPieces context scope [] = .ok scope := rfl

theorem addPieces_cons (scope : Scope) (piece : Piece) (rest : List Piece) :
    compiler.addPieces context scope (piece :: rest) =
      compiler.addPiece context scope piece >>= fun next => compiler.addPieces context next rest :=
  List.foldlM_cons

theorem addPieces_append (scope : Scope) (first second : List Piece) :
    compiler.addPieces context scope (first ++ second) =
      compiler.addPieces context scope first >>= fun next => compiler.addPieces context next second :=
  List.foldlM_append

theorem addPieces_cons_of_ok {scope next : Scope} {piece : Piece}
    (taken : compiler.addPiece context scope piece = .ok next) (rest : List Piece) :
    compiler.addPieces context scope (piece :: rest) = compiler.addPieces context next rest := by
  rw [addPieces_cons, taken]
  rfl

theorem addPieces_append_of_ok {scope next : Scope} {first : List Piece}
    (taken : compiler.addPieces context scope first = .ok next) (second : List Piece) :
    compiler.addPieces context scope (first ++ second) = compiler.addPieces context next second := by
  rw [addPieces_append, taken]
  rfl

theorem addPieces_concat_eq_ok_iff {scope after : Scope} {pieces : List Piece} {piece : Piece} :
    compiler.addPieces context scope (pieces ++ [piece]) = .ok after ↔
      ∃ middle, compiler.addPieces context scope pieces = .ok middle ∧
        compiler.addPiece context middle piece = .ok after := by
  rw [addPieces_append, bind_eq_ok_iff]
  refine exists_congr fun middle => and_congr_right fun _ => ?_
  have single : compiler.addPieces context middle [piece] = compiler.addPiece context middle piece :=
    bind_pure (compiler.addPiece context middle piece)
  rw [single]

theorem fragmentPieces_delimited {content : String} {expression : Expression}
    (marked : content.toList.all Text.isBlank = false)
    (parsed : compiler.expression content = .ok expression) :
    compiler.fragmentPieces (.delimited content) = .ok [.expression expression] := by
  simp only [fragmentPieces, marked, parsed]
  rfl

theorem addFragment_eq (scope : Scope) (fragment : Fragment) :
    compiler.addFragment context scope fragment =
      compiler.fragmentPieces fragment >>= compiler.addPieces context scope := by
  cases fragment with
  | literal text => rfl
  | delimited content =>
      simp only [addFragment, fragmentPieces]
      split
      · rfl
      · cases compiler.expression content with
        | error failure => rfl
        | ok expression =>
            change compiler.addExpression context scope expression =
              compiler.addPieces context scope [.expression expression]
            rw [addPieces_cons]
            exact (bind_pure (compiler.addExpression context scope expression)).symm

theorem addFragment_through :
    Through (compiler.addFragment context) compiler.fragmentPieces (compiler.addPiece context) where
  run := by
    intro fragment parts found scope
    rw [addFragment_eq, found]
    rfl
  reads := by
    intro scope fragment after passed
    rw [addFragment_eq] at passed
    obtain ⟨parts, found, _⟩ := bind_eq_ok_iff.1 passed
    exact ⟨parts, found⟩

theorem textPieces_eq_ok_iff {text : String} {pieces : List Piece} :
    compiler.textPieces text = .ok pieces ↔
      (Fragment.split text).fault = none ∧
        gather compiler.fragmentPieces (Fragment.split text).items = .ok pieces := by
  unfold textPieces
  split
  · rename_i cause fault
    simp [fault]
  · rename_i whole
    simp [whole]

theorem addText_through :
    Through (compiler.addText context) compiler.textPieces (compiler.addPiece context) where
  run := by
    intro text parts found scope
    obtain ⟨whole, gathered⟩ := textPieces_eq_ok_iff.1 found
    simp only [addText, whole]
    rw [addFragment_through.gather.run gathered]
    exact bind_pure _
  reads := by
    intro scope text after passed
    obtain ⟨middle, split, ended⟩ := bind_eq_ok_iff.1 passed
    -- All fragments were taken, and then the fault was looked at.
    obtain ⟨parts, found⟩ := addFragment_through.gather.reads split
    cases fault : (Fragment.split text).fault with
    | some cause => simp [fault] at ended
    | none => exact ⟨parts, textPieces_eq_ok_iff.2 ⟨fault, found⟩⟩

theorem addEvent_through :
    Through (compiler.addEvent context) (compiler.eventPieces context) (compiler.addPiece context) where
  run := by
    intro event parts found scope
    cases event with
    | startTag tag name written =>
        obtain ⟨attributes, compiled, same⟩ := bind_eq_ok_iff.1 found
        obtain rfl := Except.ok.inj same
        simp only [addEvent, compiled]
        rfl
    | endTag tag name =>
        simp only [eventPieces, addEvent] at found ⊢
        split
        · rename_i isVoid
          obtain rfl := Except.ok.inj ((if_pos isVoid).symm.trans found)
          rfl
        · rename_i isOpen
          obtain rfl := Except.ok.inj ((if_neg isOpen).symm.trans found)
          exact (bind_pure _).symm
    | text data => exact addText_through.run found scope
    | comment tag data =>
        simp only [eventPieces, addEvent] at found ⊢
        split
        · rename_i kept
          obtain rfl := Except.ok.inj ((if_pos kept).symm.trans found)
          rfl
        · rename_i dropped
          obtain rfl := Except.ok.inj ((if_neg dropped).symm.trans found)
          rfl
    | other tag =>
        obtain rfl := Except.ok.inj found
        rfl
  reads := by
    intro scope event after passed
    -- Only attributes and texts may not read, and these were taken.
    cases event with
    | startTag tag name written =>
        obtain ⟨attributes, compiled, _⟩ := bind_eq_ok_iff.1 passed
        exact ⟨[.start name attributes], by simp only [eventPieces, compiled]; rfl⟩
    | endTag tag name =>
        simp only [eventPieces]
        split <;> exact ⟨_, rfl⟩
    | text data => exact addText_through.reads passed
    | comment tag data =>
        simp only [eventPieces]
        split <;> exact ⟨_, rfl⟩
    | other tag => exact ⟨_, rfl⟩

/-- A piece of a text without markup is a text, or an expression that was read. -/
theorem text_or_read_of_mem_textPieces {text : String} {pieces : List Piece} {piece : Piece}
    (read : compiler.textPieces text = .ok pieces) (member : piece ∈ pieces) :
    (∃ data, piece = .text data) ∨
      ∃ content expression, compiler.expression content = .ok expression ∧
        piece = .expression expression := by
  obtain ⟨fragment, -, own, here, among⟩ :=
    exists_item_of_mem_gather (textPieces_eq_ok_iff.1 read).2 member
  cases fragment with
  | literal data =>
      obtain rfl := Except.ok.inj here
      exact Or.inl ⟨data, List.mem_singleton.1 among⟩
  | delimited content =>
      simp only [fragmentPieces] at here
      split at here
      · obtain rfl := Except.ok.inj here
        exact absurd among List.not_mem_nil
      · obtain ⟨expression, parsed, same⟩ := bind_eq_ok_iff.1 here
        obtain rfl := Except.ok.inj same
        exact Or.inr ⟨content, expression, parsed, List.mem_singleton.1 among⟩

theorem text_or_expression_of_mem_textPieces {text : String} {pieces : List Piece} {piece : Piece}
    (read : compiler.textPieces text = .ok pieces) (member : piece ∈ pieces) :
    (∃ data, piece = .text data) ∨ ∃ expression, piece = .expression expression :=
  (text_or_read_of_mem_textPieces read member).imp_right
    fun ⟨_, expression, _, same⟩ => ⟨expression, same⟩

/-- The pieces that an event may have. -/
inductive Brings (compiler : Compiler) (context : ViewContext) : Event → Piece → Prop where
  | start {tag name : String} {written : List (String × Option String)} {attributes : Dict Attribute}
      (compiled : compiler.attributes context written = .ok attributes) :
      Brings compiler context (.startTag tag name written) (.start name attributes)
  | finish {tag name : String} : Brings compiler context (.endTag tag name) (.finish tag name)
  | text {data : String} {pieces : List Piece} {piece : Piece}
      (read : compiler.textPieces (unescapeEntities data) = .ok pieces) (among : piece ∈ pieces) :
      Brings compiler context (.text data) piece
  | comment {tag data : String} : Brings compiler context (.comment tag data) (.comment data)
  | other {tag : String} : Brings compiler context (.other tag) (.expression (declaration tag))

theorem brings_of_mem_eventPieces {event : Event} {pieces : List Piece} {piece : Piece}
    (read : compiler.eventPieces context event = .ok pieces) (member : piece ∈ pieces) :
    compiler.Brings context event piece := by
  cases event with
  | startTag tag name written =>
      obtain ⟨attributes, compiled, same⟩ := bind_eq_ok_iff.1 read
      obtain rfl := Except.ok.inj same
      obtain rfl := List.mem_singleton.1 member
      exact .start compiled
  | endTag tag name =>
      simp only [eventPieces] at read
      split at read
      · obtain rfl := Except.ok.inj read
        exact absurd member List.not_mem_nil
      · obtain rfl := Except.ok.inj read
        obtain rfl := List.mem_singleton.1 member
        exact .finish
  | text data => exact .text read member
  | comment tag data =>
      simp only [eventPieces] at read
      split at read
      · obtain rfl := Except.ok.inj read
        obtain rfl := List.mem_singleton.1 member
        exact .comment
      · obtain rfl := Except.ok.inj read
        exact absurd member List.not_mem_nil
  | other tag =>
      obtain rfl := Except.ok.inj read
      obtain rfl := List.mem_singleton.1 member
      exact .other

/-- Every piece of a source with markup comes from an event. -/
theorem exists_brings_of_mem_markupPieces {source : String} {pieces : List Piece} {piece : Piece}
    (read : compiler.markupPieces context source = .ok pieces) (member : piece ∈ pieces) :
    ∃ event ∈ Markup.events source, compiler.Brings context event piece := by
  obtain ⟨event, occurs, own, here, among⟩ := exists_item_of_mem_gather read member
  exact ⟨event, occurs, brings_of_mem_eventPieces here among⟩

/-- A text compiles as its pieces are added from the root and the scopes are
closed after them. -/
theorem compileString_eq {source : String} {pieces : List Piece}
    (read : compiler.textPieces source = .ok pieces) :
    compiler.compileString context source =
      compiler.addPieces context .root pieces >>= Scope.finish := by
  unfold compileString
  rw [addText_through.run read]
  rfl

theorem compileMarkup_eq {source : String} {pieces : List Piece}
    (read : compiler.markupPieces context source = .ok pieces) :
    compiler.compileMarkup context source =
      compiler.addPieces context .root pieces >>= Scope.finish := by
  unfold compileMarkup
  rw [Markup.feed, addEvent_through.gather.run read]
  rfl

theorem textPieces_of_compileString {source : String} {nodes : Template}
    (accepted : compiler.compileString context source = .ok nodes) :
    ∃ pieces, compiler.textPieces source = .ok pieces := by
  obtain ⟨scope, passed, _⟩ := bind_eq_ok_iff.1 accepted
  exact addText_through.reads passed

theorem markupPieces_of_compileMarkup {source : String} {nodes : Template}
    (accepted : compiler.compileMarkup context source = .ok nodes) :
    ∃ pieces, compiler.markupPieces context source = .ok pieces := by
  obtain ⟨scope, passed, _⟩ := bind_eq_ok_iff.1 accepted
  exact addEvent_through.gather.reads passed

end Compiler

end Stencil
