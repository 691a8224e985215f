import Stencil.Proofs.Piece

/-! The grammar of templates.

A list of pieces derives a list of nodes when it is that list written out: texts,
comments and values one piece each, elements between their tags, and blocks
between an opener and an ending. What an expression may do in a block is read
off its keyword.
-/

set_option autoImplicit false

namespace Stencil

/-- The kind of block that a keyword opens: the one that the map has under the text of the
keyword, and a block with one content where it has none. -/
inductive BlockMap.Assigns (blocks : BlockMap) (keyword : Keyword) : BlockKind → Prop where
  | listed {kind : BlockKind} : blocks.find? keyword.text = some kind → Assigns blocks keyword kind
  | absent : blocks.find? keyword.text = none → Assigns blocks keyword .generic

theorem BlockMap.assigns_iff {blocks : BlockMap} {keyword : Keyword} {kind : BlockKind} :
    blocks.Assigns keyword kind ↔ blocks.kind keyword = kind := by
  constructor
  · rintro (found | missing)
    · simp [BlockMap.kind, found]
    · simp [BlockMap.kind, missing]
  · rintro rfl
    cases found : blocks.find? keyword.text with
    | some kind => simpa [BlockMap.kind, found] using Assigns.listed found
    | none => simpa [BlockMap.kind, found] using Assigns.absent found

theorem Keyword.continues_eq_false_iff {keyword : Keyword} :
    keyword.continues = false ↔ keyword ≠ .orElse ∧ keyword ≠ .orElseIf := by
  cases keyword <;> simp [Keyword.continues]

namespace Expression

/-- Neither a block keyword nor a reference to a view. -/
def IsValue (expression : Expression) : Prop :=
  expression.marks.keyword = none ∧ expression.marks.isView = false

/-- The expression opens a block of a kind. -/
def Opens (blocks : BlockMap) (kind : BlockKind) (expression : Expression) : Prop :=
  ∃ keyword, expression.marks.keyword = some keyword ∧ expression.marks.isEnd = false ∧
    (keyword ≠ .orElse ∧ keyword ≠ .orElseIf) ∧ blocks.Assigns keyword kind

def IsElse (expression : Expression) : Prop :=
  expression.marks.isEnd = false ∧ expression.marks.keyword = some .orElse

/-- An else, or an else with a test. -/
def Continues (expression : Expression) : Prop :=
  expression.marks.isEnd = false ∧
    (expression.marks.keyword = some .orElse ∨ expression.marks.keyword = some .orElseIf)

def Ends (expression : Expression) : Prop :=
  expression.marks.isEnd = true ∧ ∃ keyword, expression.marks.keyword = some keyword

/-- The ending names the keyword of the opener, or none. -/
def Closes (opener ending : Expression) : Prop :=
  ending.marks.isEnd = true ∧
    (ending.marks.keyword = some .close ∨ ending.marks.keyword = opener.marks.keyword)

/-- The else that stands alone. -/
def bareElse : Expression :=
  ⟨.empty, { Marks.plain "else" with keyword := some .orElse }⟩

/-- The ending that closes any block. -/
def bareEnd : Expression :=
  ⟨.empty, { Marks.plain "/" with keyword := some .close, isEnd := true }⟩

theorem opens_of_keyword (blocks : BlockMap) {expression : Expression} {keyword : Keyword}
    (here : expression.marks.keyword = some keyword) (isOpen : expression.marks.isEnd = false)
    (fresh : keyword.continues = false) : expression.Opens blocks (blocks.kind keyword) :=
  ⟨keyword, here, isOpen, Keyword.continues_eq_false_iff.1 fresh, BlockMap.assigns_iff.2 rfl⟩

theorem Opens.keyword {blocks : BlockMap} {kind : BlockKind} {expression : Expression}
    (opens : expression.Opens blocks kind) :
    ∃ keyword, expression.marks.keyword = some keyword ∧ expression.marks.isEnd = false ∧
      keyword.continues = false ∧ blocks.kind keyword = kind := by
  obtain ⟨keyword, here, isOpen, fresh, assigns⟩ := opens
  exact ⟨keyword, here, isOpen, Keyword.continues_eq_false_iff.2 fresh, BlockMap.assigns_iff.1 assigns⟩

theorem IsElse.continues {expression : Expression} (isElse : expression.IsElse) :
    expression.Continues :=
  ⟨isElse.1, Or.inl isElse.2⟩

theorem Continues.keyword {expression : Expression} (continues : expression.Continues) :
    ∃ keyword, expression.marks.keyword = some keyword ∧ keyword.continues = true := by
  rcases continues.2 with isElse | isElseIf
  · exact ⟨.orElse, isElse, rfl⟩
  · exact ⟨.orElseIf, isElseIf, rfl⟩

theorem Continues.of_keyword {expression : Expression} {keyword : Keyword}
    (isOpen : expression.marks.isEnd = false) (here : expression.marks.keyword = some keyword)
    (goesOn : keyword.continues = true) : expression.Continues := by
  refine ⟨isOpen, ?_⟩
  rw [here]
  cases keyword with
  | orElse => exact .inl rfl
  | orElseIf => exact .inr rfl
  | _ => cases goesOn

/-- An expression without a reference to a view is a value, or opens, continues
or ends a block. -/
theorem isValue_or_isBlock (blocks : BlockMap) {expression : Expression}
    (noView : expression.marks.isView = false) :
    expression.IsValue ∨ (∃ kind, expression.Opens blocks kind) ∨ expression.Continues ∨
      expression.Ends := by
  -- A keyword after a slash ends a block, even one that would continue it.
  cases here : expression.marks.keyword with
  | none => exact Or.inl ⟨here, noView⟩
  | some keyword =>
      cases ended : expression.marks.isEnd with
      | true => exact Or.inr (Or.inr (Or.inr ⟨ended, keyword, here⟩))
      | false =>
          cases goesOn : keyword.continues with
          | false => exact Or.inr (Or.inl ⟨_, opens_of_keyword blocks here ended goesOn⟩)
          | true => exact Or.inr (Or.inr (Or.inl (.of_keyword ended here goesOn)))

end Expression

mutual
/-- The pieces of a list of nodes. -/
inductive Derives (blocks : BlockMap) : List Piece → List Node → Prop where
  | nil : Derives blocks [] []
  | text {data : String} {rest : List Piece} {nodes : List Node} :
      Derives blocks rest nodes → Derives blocks (.text data :: rest) (.text data :: nodes)
  | comment {data : String} {rest : List Piece} {nodes : List Node} :
      Derives blocks rest nodes → Derives blocks (.comment data :: rest) (.comment data :: nodes)
  | value {expression : Expression} {rest : List Piece} {nodes : List Node} :
      expression.IsValue → Derives blocks rest nodes →
      Derives blocks (.expression expression :: rest) (.dynamic expression :: nodes)
  | void {name : String} {attributes : Dict Attribute} {rest : List Piece} {nodes : List Node} :
      Markup.isVoid name = true → Derives blocks rest nodes →
      Derives blocks (.start name attributes :: rest) (.element ⟨name, attributes, [], true⟩ :: nodes)
  -- The end tag names the element, however it is spelled.
  | element {tag name : String} {attributes : Dict Attribute} {inside rest : List Piece}
      {content nodes : List Node} :
      Markup.isVoid name = false → Derives blocks inside content → Derives blocks rest nodes →
      Derives blocks (.start name attributes :: (inside ++ .finish tag name :: rest))
        (.element ⟨name, attributes, content, false⟩ :: nodes)
  -- The parts after the first one stand between the content and the ending.
  | conditional {opener ending : Expression} {inside more rest : List Piece}
      {content nodes : List Node} {branches : List Branch} :
      opener.Opens blocks .conditional → opener.Closes ending → Derives blocks inside content →
      DerivesBranches blocks more branches → Derives blocks rest nodes →
      Derives blocks (.expression opener :: (inside ++ (more ++ .expression ending :: rest)))
        (.conditional (.ofList (⟨opener, content⟩ :: branches)) :: nodes)
  | each {opener ending : Expression} {inside more rest : List Piece} {content nodes : List Node}
      {otherwise : Option (List Node)} :
      opener.Opens blocks .each → opener.Closes ending → Derives blocks inside content →
      DerivesElse blocks more otherwise → Derives blocks rest nodes →
      Derives blocks (.expression opener :: (inside ++ (more ++ .expression ending :: rest)))
        (.each opener content otherwise :: nodes)
  | block {opener ending : Expression} {inside rest : List Piece} {content nodes : List Node} :
      opener.Opens blocks .generic → opener.Closes ending → Derives blocks inside content →
      Derives blocks rest nodes →
      Derives blocks (.expression opener :: (inside ++ .expression ending :: rest))
        (.block opener content :: nodes)

/-- The pieces of the branches of a conditional after the first one. -/
inductive DerivesBranches (blocks : BlockMap) : List Piece → List Branch → Prop where
  | nil : DerivesBranches blocks [] []
  | cons {guard : Expression} {inside more : List Piece} {content : List Node}
      {branches : List Branch} :
      guard.Continues → Derives blocks inside content → DerivesBranches blocks more branches →
      DerivesBranches blocks (.expression guard :: (inside ++ more)) (⟨guard, content⟩ :: branches)

/-- The pieces of the else part of a loop, which may be missing. -/
inductive DerivesElse (blocks : BlockMap) : List Piece → Option (List Node) → Prop where
  | none : DerivesElse blocks [] none
  | some {expression : Expression} {inside : List Piece} {content : List Node} :
      expression.IsElse → Derives blocks inside content →
      DerivesElse blocks (.expression expression :: inside) (some content)
end

variable {blocks : BlockMap}

theorem Derives.append {first second : List Piece} {left right : List Node} :
    Derives blocks first left → Derives blocks second right →
      Derives blocks (first ++ second) (left ++ right)
  | .nil, others => others
  | .text rest, others => .text (rest.append others)
  | .comment rest, others => .comment (rest.append others)
  | .value isValue rest, others => .value isValue (rest.append others)
  | .void isVoid rest, others => .void isVoid (rest.append others)
  | .element isOpen inside rest, others => by
      simpa only [List.cons_append, List.append_assoc] using
        Derives.element isOpen inside (rest.append others)
  | .conditional opens closes inside more rest, others => by
      simpa only [List.cons_append, List.append_assoc] using
        Derives.conditional opens closes inside more (rest.append others)
  | .each opens closes inside more rest, others => by
      simpa only [List.cons_append, List.append_assoc] using
        Derives.each opens closes inside more (rest.append others)
  | .block opens closes inside rest, others => by
      simpa only [List.cons_append, List.append_assoc] using
        Derives.block opens closes inside (rest.append others)

/-- Branches are added at the end, as they come. -/
theorem DerivesBranches.snoc {guard : Expression} {inside : List Piece} {content : List Node}
    (continues : guard.Continues) (derived : Derives blocks inside content) {more : List Piece}
    {branches : List Branch} : DerivesBranches blocks more branches →
      DerivesBranches blocks (more ++ .expression guard :: inside) (branches ++ [⟨guard, content⟩])
  | .nil => by
      simpa only [List.nil_append, List.append_nil] using
        DerivesBranches.cons continues derived .nil
  | .cons goesOn first others => by
      simpa only [List.cons_append, List.append_assoc] using
        DerivesBranches.cons goesOn first (others.snoc continues derived)

end Stencil
