import Stencil.Proofs.Derivation

/-! What each kind of piece does to the open scopes, and when it is taken. -/

set_option autoImplicit false

namespace Stencil

namespace Branches

variable {content : List Node}

@[simp] theorem guards_fill (content : List Node) (branches : Branches) :
    (branches.fill content).guards = branches.guards := rfl

@[simp] theorem guards_add (guard : Expression) (branches : Branches) :
    (branches.add guard).guards = branches.guards ++ [guard] := rfl

@[simp] theorem fillLast_concat (content last : List Node) (front : List (List Node)) :
    fillLast content (front ++ [last]) = front ++ [content] := by
  induction front with
  | nil => rfl
  | cons first rest ih =>
      -- Which content is the last one shows only two contents on.
      cases rest with
      | nil => rfl
      | cons second rest => exact congrArg (first :: ·) ih

@[simp] theorem length_fillLast (content : List Node) (contents : List (List Node)) :
    (fillLast content contents).length = contents.length := by
  rcases List.eq_nil_or_concat contents with rfl | ⟨front, last, rfl⟩
  · rfl
  · simp [fillLast_concat]

theorem mem_fillLast {inside : List Node} {contents : List (List Node)}
    (member : inside ∈ fillLast content contents) : inside ∈ contents ∨ inside = content := by
  rcases List.eq_nil_or_concat contents with rfl | ⟨front, last, rfl⟩
  · cases member
  · rw [List.concat_eq_append, fillLast_concat] at member
    rcases List.mem_append.1 member with old | new
    · exact .inl (by simp [old])
    · exact .inr (List.mem_singleton.1 new)

theorem single_eq_ofList (guard : Expression) : single guard = ofList [⟨guard, []⟩] := rfl

@[simp] theorem fill_ofList_concat (content : List Node) (front : List Branch) (last : Branch) :
    (ofList (front ++ [last])).fill content = ofList (front ++ [{ last with content := content }]) := by
  simp [ofList, fill]

@[simp] theorem add_ofList (guard : Expression) (branches : List Branch) :
    (ofList branches).add guard = ofList (branches ++ [⟨guard, []⟩]) := by
  simp [ofList, add]

end Branches

namespace Scope

variable {keyword : Keyword} {expression : Expression} {current : List Node}
  {around : List (List Node)} {after : Scope}

theorem leave?_eq_some_iff {content : List Node} {left : Scope} :
    leave? ⟨current, around⟩ = some (content, left) ↔
      content = current.reverse ∧ around = left.current :: left.outer := by
  cases around with
  | nil => simp [leave?]
  | cons newest others =>
      obtain ⟨inner, outer⟩ := left
      simp [leave?, eq_comm]

/-- A conditional goes on with any branch, and a loop without an else part with
a bare else. -/
theorem continueBlock_eq_ok_iff :
    continueBlock ⟨current, around⟩ keyword expression = .ok after ↔
      (∃ branches before outer, around = (.conditional branches :: before) :: outer ∧
        after = ⟨[], (.conditional ((branches.fill current.reverse).add expression) :: before) ::
          outer⟩) ∨
      (∃ opener body before outer, around = (.each opener body none :: before) :: outer ∧
        keyword = .orElse ∧
        after = ⟨[], (.each opener current.reverse (some []) :: before) :: outer⟩) := by
  constructor
  · intro passed
    unfold continueBlock at passed
    split at passed
    · rename_i content branches before outer left
      obtain ⟨rfl, rfl⟩ := leave?_eq_some_iff.1 left
      exact Or.inl ⟨branches, before, outer, rfl, (Except.ok.inj passed).symm⟩
    · rename_i content opener body before outer left
      obtain ⟨rfl, rfl⟩ := leave?_eq_some_iff.1 left
      split at passed
      · rename_i bare
        exact Or.inr ⟨opener, body, before, outer, rfl, bare, (Except.ok.inj passed).symm⟩
      · exact absurd passed (by simp)
    · exact absurd passed (by simp)
  · rintro (⟨branches, before, outer, rfl, rfl⟩ | ⟨opener, body, before, outer, rfl, rfl, rfl⟩)
    · rfl
    · rfl

/-- A block closes by an ending without a keyword or with the keyword of its opener. -/
theorem closeBlock_eq_ok_iff :
    closeBlock ⟨current, around⟩ keyword expression = .ok after ↔
      ∃ node before outer opener, around = (node :: before) :: outer ∧ node.opener? = some opener ∧
        (∃ opened, opener.marks.keyword = some opened ∧ (keyword = .close ∨ keyword = opened)) ∧
        after = ⟨node.fill current.reverse :: before, outer⟩ := by
  constructor
  · intro passed
    simp only [closeBlock] at passed
    split at passed
    · rename_i content node before outer left
      obtain ⟨rfl, rfl⟩ := leave?_eq_some_iff.1 left
      split at passed
      · rename_i opened found
        obtain ⟨opener, opens, here⟩ := Option.bind_eq_some_iff.1 found
        split at passed
        · rename_i fits
          exact ⟨node, before, outer, opener, rfl, opens, ⟨opened, here, by simpa using fits⟩,
            (Except.ok.inj passed).symm⟩
        · exact absurd passed (by simp)
      · exact absurd passed (by simp)
    · exact absurd passed (by simp)
  · rintro ⟨node, before, outer, opener, rfl, opens, ⟨opened, here, fits⟩, rfl⟩
    have found : node.opener?.bind (·.marks.keyword) = some opened := by rw [opens]; exact here
    have named : (keyword = .close || keyword = opened) = true := by simpa using fits
    simp [closeBlock, leave?, found, named]

/-- A template is what the root has collected, with no scope in it open. -/
theorem finish_eq_ok_iff {scope : Scope} {nodes : Template} :
    scope.finish = .ok nodes ↔ scope.outer = [] ∧ nodes = scope.current.reverse := by
  unfold finish
  split
  · rename_i closed
    rw [Except.ok.injEq, and_iff_right (List.isEmpty_iff.1 closed), eq_comm]
  · rename_i isOpen
    simp [mt List.isEmpty_iff.2 isOpen]

end Scope

namespace Compiler

variable {compiler : Compiler} {context : ViewContext}

/-- Elements of a name stand for themselves and not for a view. -/
def Keeps (compiler : Compiler) (context : ViewContext) (name : String) : Prop :=
  ∀ element : Element, element.tag = name → compiler.closed context element = .ok (.element element)

/-- A piece that makes no reference to a view. -/
def Plain (compiler : Compiler) (context : ViewContext) : Piece → Prop
  | .start name _ => compiler.Keeps context name
  | .expression expression => expression.marks.isView = false
  | _ => True

theorem keeps_of_element?_eq_none {name : String} (notView : name ≠ "view")
    (unknown : context.lookup.element? name = none) : compiler.Keeps context name := by
  intro element same
  subst same
  simp only [closed, if_neg notView, unknown]
  split <;> rfl

theorem closeElement_eq_ok_iff {current : List Node} {around : List (List Node)} {tag name : String}
    {after : Scope} :
    compiler.closeElement context ⟨current, around⟩ tag name = .ok after ↔
      ∃ element before outer node, around = (.element element :: before) :: outer ∧
        element.tag = name ∧
        compiler.closed context { element with content := current.reverse } = .ok node ∧
        after = ⟨node :: before, outer⟩ := by
  constructor
  · intro passed
    unfold closeElement at passed
    split at passed
    · rename_i content element before outer left
      obtain ⟨rfl, rfl⟩ := Scope.leave?_eq_some_iff.1 left
      split at passed
      -- The name fits, and then a view may take the place of the element.
      · rename_i named
        obtain ⟨node, closed, same⟩ := bind_eq_ok_iff.1 passed
        exact ⟨element, before, outer, node, rfl, named, closed, (Except.ok.inj same).symm⟩
      · exact absurd passed (by simp)
    · exact absurd passed (by simp)
  · rintro ⟨element, before, outer, node, rfl, named, closed, rfl⟩
    simp only [closeElement, Scope.leave?, if_pos named, closed]
    rfl

variable {scope : Scope} {expression : Expression}

theorem addPiece_start {name : String} {attributes : Dict Attribute}
    (isOpen : Markup.isVoid name = false) :
    compiler.addPiece context scope (.start name attributes) =
      .ok ⟨[], (.element ⟨name, attributes, [], false⟩ :: scope.current) :: scope.outer⟩ := by
  simp [addPiece, isOpen, Scope.append, Scope.enter]

theorem addPiece_void {name : String} {attributes : Dict Attribute}
    (isVoid : Markup.isVoid name = true) :
    compiler.addPiece context scope (.start name attributes) =
      .ok (scope.append (.element ⟨name, attributes, [], true⟩)) := by
  simp [addPiece, isVoid]

theorem addPiece_finish {tag name : String} {attributes : Dict Attribute} {content before : List Node}
    {outer : List (List Node)} (keeps : compiler.Keeps context name) :
    compiler.addPiece context
        ⟨content.reverse, (.element ⟨name, attributes, [], false⟩ :: before) :: outer⟩
        (.finish tag name) =
      .ok ⟨.element ⟨name, attributes, content, false⟩ :: before, outer⟩ := by
  have closed := keeps ⟨name, attributes, content, false⟩ rfl
  rw [addPiece, closeElement_eq_ok_iff]
  exact ⟨_, before, outer, _, rfl, rfl, by simpa using closed, rfl⟩

theorem addPiece_value (isValue : expression.IsValue) :
    compiler.addPiece context scope (.expression expression) =
      .ok (scope.append (.dynamic expression)) := by
  simp [addPiece, addExpression, isValue.1, isValue.2]

theorem addPiece_opens {kind : BlockKind} (opens : expression.Opens compiler.blocks kind) :
    compiler.addPiece context scope (.expression expression) =
      .ok ⟨[], (Scope.blockNode expression kind :: scope.current) :: scope.outer⟩ := by
  obtain ⟨keyword, here, isOpen, fresh, rfl⟩ := opens.keyword
  simp [addPiece, addExpression, here, Scope.addBlock, isOpen, fresh, Scope.openBlock, Scope.append,
    Scope.enter]

theorem addPiece_continues {keyword : Keyword} (isOpen : expression.marks.isEnd = false)
    (here : expression.marks.keyword = some keyword) (goesOn : keyword.continues = true) :
    compiler.addPiece context scope (.expression expression) =
      scope.continueBlock keyword expression := by
  simp [addPiece, addExpression, here, Scope.addBlock, isOpen, goesOn]

theorem addPiece_ends {keyword : Keyword} (ends : expression.marks.isEnd = true)
    (here : expression.marks.keyword = some keyword) :
    compiler.addPiece context scope (.expression expression) =
      scope.closeBlock keyword expression := by
  simp [addPiece, addExpression, here, Scope.addBlock, ends]

/-- What taking a piece does to the open scopes: a node is added, opened, gone on with or closed. -/
inductive Taken (compiler : Compiler) (context : ViewContext) (scope : Scope) : Piece → Scope → Prop where
  | text {data : String} : Taken compiler context scope (.text data) (scope.append (.text data))
  | comment {data : String} :
      Taken compiler context scope (.comment data) (scope.append (.comment data))
  | void {name : String} {attributes : Dict Attribute} (isVoid : Markup.isVoid name = true) :
      Taken compiler context scope (.start name attributes)
        (scope.append (.element ⟨name, attributes, [], true⟩))
  | start {name : String} {attributes : Dict Attribute} (isOpen : Markup.isVoid name = false) :
      Taken compiler context scope (.start name attributes)
        (scope.append (.element ⟨name, attributes, [], false⟩)).enter
  | finish {tag name : String} {after : Scope}
      (closed : compiler.closeElement context scope tag name = .ok after) :
      Taken compiler context scope (.finish tag name) after
  | value {expression : Expression} (isValue : expression.IsValue) :
      Taken compiler context scope (.expression expression) (scope.append (.dynamic expression))
  | view {expression : Expression} {node : Node} (unkeyed : expression.marks.keyword = none)
      (isView : expression.marks.isView = true)
      (made : context.viewExpression expression = .ok node) :
      Taken compiler context scope (.expression expression) (scope.append node)
  | opens {expression : Expression} {kind : BlockKind} (opens : expression.Opens compiler.blocks kind) :
      Taken compiler context scope (.expression expression)
        (scope.append (Scope.blockNode expression kind)).enter
  | continues {expression : Expression} {keyword : Keyword} {after : Scope}
      (isOpen : expression.marks.isEnd = false) (here : expression.marks.keyword = some keyword)
      (goesOn : keyword.continues = true)
      (passed : scope.continueBlock keyword expression = .ok after) :
      Taken compiler context scope (.expression expression) after
  | ends {expression : Expression} {keyword : Keyword} {after : Scope}
      (ended : expression.marks.isEnd = true) (here : expression.marks.keyword = some keyword)
      (passed : scope.closeBlock keyword expression = .ok after) :
      Taken compiler context scope (.expression expression) after

theorem taken_of_addExpression {after : Scope}
    (passed : compiler.addPiece context scope (.expression expression) = .ok after) :
    compiler.Taken context scope (.expression expression) after := by
  cases here : expression.marks.keyword with
  | none =>
      cases isView : expression.marks.isView with
      | true =>
          simp only [addPiece, addExpression, here, isView, if_true] at passed
          obtain ⟨node, made, same⟩ := bind_eq_ok_iff.1 passed
          cases same
          exact .view here isView made
      | false =>
          rw [addPiece_value ⟨here, isView⟩] at passed
          cases passed
          exact .value ⟨here, isView⟩
  | some keyword =>
      cases ended : expression.marks.isEnd with
      | true =>
          rw [addPiece_ends ended here] at passed
          exact .ends ended here passed
      | false =>
          cases goesOn : keyword.continues with
          | true =>
              rw [addPiece_continues ended here goesOn] at passed
              exact .continues ended here goesOn passed
          | false =>
              have opens := Expression.opens_of_keyword compiler.blocks here ended goesOn
              rw [addPiece_opens opens] at passed
              cases passed
              exact .opens opens

theorem taken_of_addPiece {piece : Piece} {after : Scope}
    (passed : compiler.addPiece context scope piece = .ok after) :
    compiler.Taken context scope piece after := by
  cases piece with
  | text data | comment data =>
      cases passed
      constructor
  | start name attributes =>
      cases kind : Markup.isVoid name with
      | true =>
          rw [addPiece_void kind] at passed
          cases passed
          exact .void kind
      | false =>
          rw [addPiece_start kind] at passed
          cases passed
          exact .start kind
  | finish tag name => exact .finish passed
  | expression expression => exact taken_of_addExpression passed

end Compiler

end Stencil
