import Stencil.Expr.Grammar

/-! The grammar of expressions, as rules.

Each rule says which tokens stand for which tree. The rules for conditionals and for
unary operators use each other, and are given by how deep they nest; all others are
built from these two. Nothing is said of the order in which tokens are looked at.
-/

set_option autoImplicit false

namespace Stencil

/-- Binary operators by level, from the loosest to the tightest. -/
def Punct.levels : List (List Punct) :=
  [[.or], [.and], [.equal, .notEqual, .identical, .notIdentical], [.less, .greater, .atMost, .atLeast],
   [.plus, .minus], [.times, .divide, .modulo]]

namespace Grammar

/-- Which tokens stand for what. -/
abbrev Rule (α : Type) := List Token → α → Prop

variable {α : Type}

/-- One item or more, with commas between them. -/
inductive Separated (item : Rule α) : Rule (List α) where
  | one {tokens : List Token} {value : α} : item tokens value → Separated item tokens [value]
  | cons {first others : List Token} {value : α} {values : List α} :
      item first value → Separated item others values →
      Separated item (first ++ .punct .comma :: others) (value :: values)

/-- Any number of items, perhaps with a comma after the last one. -/
inductive Listed (item : Rule α) : Rule (List α) where
  | none : Listed item [] []
  | plain {tokens : List Token} {values : List α} :
      Separated item tokens values → Listed item tokens values
  | trailing {tokens : List Token} {values : List α} :
      Separated item tokens values → Listed item (tokens ++ [.punct .comma]) values

/-- One expression stands for itself, and more than one for a sequence. -/
inductive SequenceOf (conditional : Rule Expr) : Rule Expr where
  | one {tokens : List Token} {tree : Expr} :
      conditional tokens tree → SequenceOf conditional tokens tree
  | more {first others : List Token} {tree : Expr} {trees : List Expr} :
      conditional first tree → Separated conditional others trees →
      SequenceOf conditional (first ++ .punct .comma :: others) (.sequence (tree :: trees))

/-- Operands joined by operators of some levels, the loosest first. The right side of
an operator is of tighter levels only, so that operators of one level group to the left. -/
inductive BinaryOf (unary : Rule Expr) : List (List Punct) → Rule Expr where
  | operand {tokens : List Token} {tree : Expr} : unary tokens tree → BinaryOf unary [] tokens tree
  | tighter {operators : List Punct} {levels : List (List Punct)} {tokens : List Token} {tree : Expr} :
      BinaryOf unary levels tokens tree → BinaryOf unary (operators :: levels) tokens tree
  | join {operators : List Punct} {levels : List (List Punct)} {punct : Punct}
      {left right : List Token} {first second : Expr} :
      punct ∈ operators → BinaryOf unary (operators :: levels) left first →
      BinaryOf unary levels right second →
      BinaryOf unary (operators :: levels) (left ++ .punct punct :: right)
        (.operator punct.text [first, second])

/-- A test alone, or a test with two alternatives. -/
inductive TernaryOf (conditional unary : Rule Expr) : Rule Expr where
  | test {tokens : List Token} {tree : Expr} :
      BinaryOf unary Punct.levels tokens tree → TernaryOf conditional unary tokens tree
  | choice {test consequent alternate : List Token} {first second third : Expr} :
      BinaryOf unary Punct.levels test first → conditional consequent second →
      conditional alternate third →
      TernaryOf conditional unary
        (test ++ .punct .question :: (consequent ++ .punct .colon :: alternate))
        (.operator Operator.conditional [first, second, third])

/-- The tokens that can name a member of an object. -/
inductive KeyOf : Token → String → Prop where
  | identifier {name : String} : KeyOf (.identifier name) name
  | number {text : String} : KeyOf (.number text) text
  | string {quoted : String} : KeyOf (.string quoted) (Token.stringText quoted)

/-- A name with its value; an identifier alone names the value of that name. -/
inductive MemberOf (conditional : Rule Expr) : Rule (String × Expr) where
  | keyed {key : Token} {name : String} {tokens : List Token} {tree : Expr} :
      KeyOf key name → conditional tokens tree →
      MemberOf conditional (key :: .punct .colon :: tokens) (name, tree)
  | shorthand {name : String} : MemberOf conditional [.identifier name] (name, .ofName name)

/-- The token at the root of a path, and the segments that it makes itself. -/
inductive RootOf : Token → Root → List Segment → Prop where
  | name {name : String} : constant? name = none → name ≠ "this" →
      RootOf (.identifier name) .context [.name name]
  | this : RootOf (.identifier "this") .relative []
  | aliasName {name : String} : RootOf (.aliasName name) (.ofAlias name) []
  | attributeName {name : String} : RootOf (.attributeName name) (.ofAttribute name) []

/-- The tokens that can name a segment after a point. -/
inductive SegmentOf : Token → String → Prop where
  | identifier {name : String} : SegmentOf (.identifier name) name
  | number {text : String} : SegmentOf (.number text) text

/-- The segments of a path after its root. -/
inductive SegmentsOf (conditional : Rule Expr) : Rule (List Segment) where
  | nil : SegmentsOf conditional [] []
  | name {token : Token} {name : String} {rest : List Token} {segments : List Segment} :
      SegmentOf token name → SegmentsOf conditional rest segments →
      SegmentsOf conditional (.punct .dot :: token :: rest) (.name name :: segments)
  | index {inner rest : List Token} {tree : Expr} {segments : List Segment} :
      SequenceOf conditional inner tree → SegmentsOf conditional rest segments →
      SegmentsOf conditional (.punct .openBracket :: (inner ++ .punct .closeBracket :: rest))
        (.index tree :: segments)

/-- The literal of each name and value. -/
def literals (values : List (String × Value)) : List (String × Expr) :=
  values.map fun entry => (entry.1, .literal entry.2)

/-- Names and values in turn, as the operator of objects takes them. -/
def alternating (members : List (String × Expr)) : List Expr :=
  members.flatMap fun member => [.literal (.string member.1), member.2]

/-- An operand. Arrays and objects of literals are literals. -/
inductive OperandOf (conditional : Rule Expr) : Rule Expr where
  | number {text : String} {value : Value} : Value.ofNumber? text.toList = some value →
      OperandOf conditional [.number text] (.literal value)
  | string {quoted : String} :
      OperandOf conditional [.string quoted] (.literal (.string (Token.stringText quoted)))
  | constant {name : String} {value : Value} : constant? name = some value →
      OperandOf conditional [.identifier name] (.literal value)
  | group {inner : List Token} {tree : Expr} : SequenceOf conditional inner tree →
      OperandOf conditional (.punct .openParen :: (inner ++ [.punct .closeParen])) tree
  | literalArray {inner : List Token} {values : List Value} :
      Listed conditional inner (values.map .literal) →
      OperandOf conditional (.punct .openBracket :: (inner ++ [.punct .closeBracket]))
        (.literal (.array values))
  | array {inner : List Token} {items : List Expr} : Listed conditional inner items →
      (∃ item ∈ items, item.isLiteral = false) →
      OperandOf conditional (.punct .openBracket :: (inner ++ [.punct .closeBracket]))
        (.operator Operator.array items)
  | literalObject {inner : List Token} {values : List (String × Value)} :
      Listed (MemberOf conditional) inner (literals values) →
      OperandOf conditional (.punct .openBrace :: (inner ++ [.punct .closeBrace]))
        (.literal (.object (.ofEntries values)))
  | object {inner : List Token} {members : List (String × Expr)} :
      Listed (MemberOf conditional) inner members →
      (∃ member ∈ members, member.2.isLiteral = false) →
      OperandOf conditional (.punct .openBrace :: (inner ++ [.punct .closeBrace]))
        (.operator Operator.object (alternating members))
  | path {token : Token} {root : Root} {start segments : List Segment} {rest : List Token} :
      RootOf token root start → SegmentsOf conditional rest segments →
      OperandOf conditional (token :: rest) (.path ⟨root, start ++ segments⟩)
  | call {token : Token} {root : Root} {start segments : List Segment} {rest inner : List Token}
      {args : List Expr} :
      RootOf token root start → SegmentsOf conditional rest segments → Listed conditional inner args →
      OperandOf conditional (token :: (rest ++ .punct .openParen :: (inner ++ [.punct .closeParen])))
        (.call ⟨root, start ++ segments⟩ args)

/-- A number, and no other literal, has a sign. -/
def IsNumber (tree : Expr) : Prop :=
  (∃ n, tree = .literal (.int n)) ∨ ∃ x, tree = .literal (.float x)

/-- Any number of unary operators before an operand. A minus before a number makes it
the number of the other sign. -/
inductive PrefixedOf (conditional unary : Rule Expr) : Rule Expr where
  | operand {tokens : List Token} {tree : Expr} :
      OperandOf conditional tokens tree → PrefixedOf conditional unary tokens tree
  | negative {tokens : List Token} {value opposite : Value} :
      unary tokens (.literal value) → value.neg? = some opposite →
      PrefixedOf conditional unary (.punct .minus :: tokens) (.literal opposite)
  | operator {punct : Punct} {tokens : List Token} {tree : Expr} :
      punct ∈ Punct.unary → unary tokens tree → ¬ (punct = .minus ∧ IsNumber tree) →
      PrefixedOf conditional unary (.punct punct :: tokens) (.operator punct.text [tree])

/-- The rules that nest. -/
structure Nested where
  conditional : Rule Expr
  unary : Rule Expr

/-- The rules of what nests at most to some depth. -/
def nested : Nat → Nested
  | 0 => ⟨fun _ _ => False, fun _ _ => False⟩
  | depth + 1 =>
      let inner := nested depth
      ⟨TernaryOf inner.conditional inner.unary, PrefixedOf inner.conditional inner.unary⟩

/-- What is no binary operator stands at every level of these, -/
theorem BinaryOf.of_unary {unary : Rule Expr} {tokens : List Token} {tree : Expr}
    (derived : unary tokens tree) (levels : List (List Punct)) : BinaryOf unary levels tokens tree := by
  induction levels with
  | nil => exact .operand derived
  | cons _ _ ih => exact .tighter ih

/-- and wherever a conditional does. -/
theorem conditional_of_unary {depth : Nat} {tokens : List Token} {tree : Expr}
    (derived : (nested depth).unary tokens tree) : (nested (depth + 1)).conditional tokens tree :=
  .test (.of_unary derived _)

/-- The tokens derive a tree whose conditionals and unary operators nest at most to
some depth. -/
def DerivesWithin (depth : Nat) : Rule Expr :=
  SequenceOf (nested depth).conditional

/-- The tokens derive a tree. -/
def Derives (tokens : List Token) (tree : Expr) : Prop :=
  ∃ depth, DerivesWithin depth tokens tree

end Grammar

end Stencil
