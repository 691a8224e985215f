import Stencil.Proofs.Entries
import Stencil.Proofs.Grammar.Acceptance
import Stencil.Proofs.Reference.Agreement

/-! Objects as arguments of view expressions.

A parser folds an object of literals to one literal, where a repeated name keeps its first
place and its last value, and leaves all other objects as names and values in turn. The bag
is made of the members one by one in both cases. Nothing but an object is taken for it, with
or without round brackets.
-/

set_option autoImplicit false

namespace Stencil

namespace Bag

theorem ofMembers_eq (members : List (String × Expr)) :
    ofMembers members = (Dict.ofEntries members).map .ofMember :=
  Dict.foldl_insert_value ViewAttribute.ofMember .empty members

/-- Each name stands where it occurs first. -/
theorem keys_ofMembers (members : List (String × Expr)) :
    (ofMembers members).keys = (members.map (·.1)).eraseDups := by
  rw [ofMembers_eq, Dict.keys_map, Dict.ofEntries, Dict.keys_foldl_insert]
  simp [Dict.keysWith, Dict.keys, Dict.empty]

/-- Under each name stands its last value. -/
theorem find?_ofMembers (members : List (String × Expr)) (name : String) :
    (ofMembers members).find? name = (members.reverse.lookup name).map .ofMember := by
  rw [ofMembers_eq, Dict.find?_map, Dict.ofEntries, Dict.find?_foldl_insert, Dict.find?_empty,
    Option.or_none]

end Bag

namespace Expr

/-- Objects and sequences. -/
def IsCompound : Expr → Prop
  | .literal (.object _) | .sequence _ => True
  | .operator name _ => name = Operator.object
  | _ => False

end Expr

namespace Bag

theorem isCompound_of_ofExpr {source : String} {object : Expr} {bag : Bag}
    (taken : ofExpr source (some object) = .ok bag) : object.IsCompound := by
  cases object with
  | literal value =>
      cases value with
      | object => exact trivial
      | _ => cases taken
  | operator name args =>
      by_cases named : name = Operator.object
      · exact named
      · rw [ofExpr, if_neg named] at taken
        cases taken
  | _ => cases taken

end Bag

namespace Grammar

variable {depth : Nat} {tokens : List Token} {tree name object : Expr} {members : List (String × Expr)}

/-- What derives a tree within some depth derives it within any greater one. -/
theorem nested_mono {more : Nat} (fewer : depth ≤ more) (derived : (nested depth).conditional tokens tree) :
    (nested more).conditional tokens tree := by
  -- The parser with the greater limit finds the tree, and what it finds is derived within that limit.
  let source : Source := ⟨"", none⟩
  have reached := (level_complete (show source.fault = none from rfl) depth more).1 tokens tree [] derived
    (stops_nil _)
  have found := reached.resolve_right fun runsOut => by omega
  obtain ⟨_, found⟩ := outcome_eq_ok_iff.1 found
  obtain ⟨used, same, derived, -⟩ := (level_sound more).1 _ _ found
  simp only [List.append_nil] at same
  exact same ▸ derived

theorem not_isCompound_operator (punct : Punct) (args : List Expr) :
    ¬ (Expr.operator punct.text args).IsCompound := by
  cases punct <;> simp [Expr.IsCompound] <;> decide

theorem exists_eq_object {value : Value} (compound : (Expr.literal value).IsCompound) :
    ∃ entries, value = .object entries := by
  cases value with
  | object entries => exact ⟨entries, rfl⟩
  | _ => exact compound.elim

/-- No sign makes an object, and no single token does. -/
theorem not_isCompound_of_neg? {value opposite : Value} (negated : value.neg? = some opposite) :
    ¬ (Expr.literal opposite).IsCompound := by
  intro compound
  obtain ⟨entries, rfl⟩ := exists_eq_object compound
  cases value <;> simp [Value.neg?] at negated

theorem not_isCompound_of_constant? {word : String} {value : Value} (known : constant? word = some value) :
    ¬ (Expr.literal value).IsCompound := by
  rcases constant?_cases known with ⟨truth, rfl⟩ | rfl <;> exact id

theorem not_isCompound_of_ofNumber? {text : List Char} {value : Value}
    (read : Value.ofNumber? text = some value) : ¬ (Expr.literal value).IsCompound := by
  rcases ofNumber?_cases read with ⟨n, rfl, -⟩ | ⟨x, rfl, -⟩ <;> exact id

/-- No operator makes an object or a sequence, -/
theorem BinaryOf.unary_of_isCompound {unary : Rule Expr} {levels : List (List Punct)}
    (derived : BinaryOf unary levels tokens tree) (compound : tree.IsCompound) : unary tokens tree := by
  induction derived with
  | operand derived => exact derived
  | tighter _ ih => exact ih compound
  | join => exact absurd compound (not_isCompound_operator _ _)

/-- so that each of them is an operand. -/
theorem exists_operand_of_isCompound (derived : (nested depth).conditional tokens tree)
    (compound : tree.IsCompound) : ∃ inner < depth, OperandOf (nested inner).conditional tokens tree := by
  cases depth with
  | zero => exact derived.elim
  | succ depth =>
      cases derived with
      | choice => exact absurd compound (by simp [Expr.IsCompound]; decide)
      | test derived =>
          have prefixed := derived.unary_of_isCompound compound
          cases depth with
          | zero => exact prefixed.elim
          | succ depth =>
              cases prefixed with
              | operand derived => exact ⟨depth, by omega, derived⟩
              | negative _ negated => exact absurd compound (not_isCompound_of_neg? negated)
              | operator => exact absurd compound (not_isCompound_operator _ _)

/-- The tokens of an object and its members: these in braces, perhaps with round brackets around
the whole. -/
inductive ObjectOf : Rule (List (String × Expr)) where
  | braces {depth : Nat} {inner : List Token} {members : List (String × Expr)} :
      Listed (MemberOf (nested depth).conditional) inner members →
      ObjectOf (.punct .openBrace :: (inner ++ [.punct .closeBrace])) members
  | group {inner : List Token} {members : List (String × Expr)} : ObjectOf inner members →
      ObjectOf (.punct .openParen :: (inner ++ [.punct .closeParen])) members

/-- The tokens of a name and an object, perhaps with round brackets around both. -/
inductive ReferenceOf : List Token → Expr → List (String × Expr) → Prop where
  | plain {depth : Nat} {first others : List Token} {name : Expr} {members : List (String × Expr)} :
      (nested depth).conditional first name → ObjectOf others members →
      ReferenceOf (first ++ .punct .comma :: others) name members
  | group {inner : List Token} {name : Expr} {members : List (String × Expr)} :
      ReferenceOf inner name members →
      ReferenceOf (.punct .openParen :: (inner ++ [.punct .closeParen])) name members

theorem ObjectOf.exists_conditional (written : ObjectOf tokens members) :
    ∃ depth, (nested depth).conditional tokens (objectOf members) := by
  induction written with
  | @braces depth _ _ listed => exact ⟨depth + 2, conditional_of_unary (.operand (object_of_listed listed))⟩
  | group _ ih =>
      obtain ⟨depth, derived⟩ := ih
      exact ⟨depth + 2, conditional_of_unary (.operand (.group (.one derived)))⟩

theorem ReferenceOf.derives (written : ReferenceOf tokens name members) :
    Derives tokens (.sequence [name, objectOf members]) := by
  induction written with
  | @plain depth _ _ _ _ derived object =>
      obtain ⟨other, object⟩ := object.exists_conditional
      exact ⟨depth + other, .more (nested_mono (by omega) derived) (.one (nested_mono (by omega) object))⟩
  | group _ ih =>
      obtain ⟨depth, derived⟩ := ih
      exact ⟨depth + 2, .one (conditional_of_unary (.operand (.group derived)))⟩

/-- What is taken for an object is written as one. -/
theorem exists_objectOf {bag : Bag} {source : String} (taken : Bag.ofExpr source (some object) = .ok bag)
    (derived : (nested depth).conditional tokens object) :
    ∃ members, ObjectOf tokens members ∧ object = objectOf members := by
  have compound := Bag.isCompound_of_ofExpr taken
  -- Each pair of round brackets takes some of the depth, and braces end the induction.
  induction depth using Nat.strong_induction_on generalizing tokens with
  | _ depth ih =>
    obtain ⟨inner, fewer, operand⟩ := exists_operand_of_isCompound derived compound
    cases operand with
    | number read => exact absurd compound (not_isCompound_of_ofNumber? read)
    | constant known => exact absurd compound (not_isCompound_of_constant? known)
    | array => exact absurd compound (by simp [Expr.IsCompound]; decide)
    | group grouped =>
        cases grouped with
        | one derived =>
            obtain ⟨members, written, same⟩ := ih inner fewer derived
            exact ⟨members, .group written, same⟩
        | more => cases taken
    | @literalObject _ values listed =>
        exact ⟨literals values, .braces listed, (objectOf_literals values).symm⟩
    | @object _ members listed other =>
        exact ⟨members, .braces listed, (objectOf_eq_operator other).symm⟩
    | string | literalArray | path | call => exact compound.elim

/-- A sequence of a name and an object is written as these. -/
theorem exists_referenceOf {bag : Bag} {source : String} (taken : Bag.ofExpr source (some object) = .ok bag)
    (derived : DerivesWithin depth tokens (.sequence [name, object])) :
    ∃ members, ReferenceOf tokens name members ∧ object = objectOf members := by
  induction depth using Nat.strong_induction_on generalizing tokens with
  | _ depth ih =>
    cases derived with
    | more first others =>
        cases others with
        | one derived =>
            obtain ⟨members, written, same⟩ := exists_objectOf taken derived
            exact ⟨members, .plain first written, same⟩
        | cons _ none => cases none
    | one derived =>
        obtain ⟨inner, fewer, operand⟩ := exists_operand_of_isCompound derived trivial
        generalize made : Expr.sequence [name, object] = tree at operand
        cases operand with
        | group grouped =>
            obtain ⟨members, written, same⟩ := ih inner fewer (made ▸ grouped)
            exact ⟨members, .group written, same⟩
        | _ => cases made

end Grammar

namespace ViewContext

/-- The reference by a name, once the bag is known. -/
def referenceBy (context : ViewContext) (source : String) (name : Expr) (bag : Bag) : Except Failure Node :=
  match name with
  | .literal (.string known) => context.findView known >>= fun view => pure (.view view bag)
  | .path _ | .call _ _ | .operator _ _ => .ok (.dynamicView (.expression (.ofExpr name)) bag)
  | _ => .error (.of (.misplacedExpression source))

theorem viewExpression_of_ofExpr {name object : Expr} {bag : Bag} {marks : Marks}
    (taken : Bag.ofExpr marks.source (some object) = .ok bag) (context : ViewContext) :
    context.viewExpression ⟨.sequence [name, object], marks⟩ = context.referenceBy marks.source name bag := by
  simp only [viewExpression, taken, pure_bind]
  cases name with
  | literal value => cases value <;> rfl
  | _ => rfl

open Grammar (ReferenceOf objectOf literals alternating)

/-- The bag of a view expression is made of the members of its object one by one, whether the
parser folds the object or not: a repeated name keeps its first place and its last value. No
object is refused, and nothing else is taken for one. -/
theorem viewExpression_object {text : String} {tree : Expr} (parsed : Expr.parse text = .ok tree)
    (context : ViewContext) (marks : Marks) :
    (∀ name members, ReferenceOf (Token.readSource text).items name members →
      ∃ object, tree = .sequence [name, object] ∧
        ((∃ values, members = literals values ∧ object = .literal (.object (.ofEntries values))) ∨
          (∃ member ∈ members, member.2.isLiteral = false) ∧
            object = .operator Operator.object (alternating members)) ∧
        Bag.ofExpr marks.source (some object) = .ok (.ofMembers members) ∧
        context.viewExpression ⟨tree, marks⟩ = context.referenceBy marks.source name (.ofMembers members) ∧
        (Bag.ofMembers members).keys = (members.map (·.1)).eraseDups ∧
        ∀ key, (Bag.ofMembers members).find? key = (members.reverse.lookup key).map .ofMember) ∧
    ∀ name object bag, tree = .sequence [name, object] → Bag.ofExpr marks.source (some object) = .ok bag →
      ∃ members, ReferenceOf (Token.readSource text).items name members ∧ bag = .ofMembers members := by
  obtain ⟨-, derived⟩ := Expr.parse_eq_ok_iff.1 parsed
  constructor
  · intro name members written
    obtain rfl : tree = .sequence [name, objectOf members] :=
      Grammar.Derives.unique ⟨_, derived⟩ written.derives
    have taken := Bag.ofExpr_objectOf marks.source members
    refine ⟨objectOf members, rfl, ?_, taken, viewExpression_of_ofExpr taken context,
      Bag.keys_ofMembers members, Bag.find?_ofMembers members⟩
    rcases Grammar.eq_literals_or_exists (·.2) members with ⟨values, all⟩ | other
    · obtain ⟨entries, rfl⟩ := Grammar.exists_eq_literals all
      exact Or.inl ⟨entries, rfl, Grammar.objectOf_literals entries⟩
    · exact Or.inr ⟨other, Grammar.objectOf_eq_operator other⟩
  · rintro name object bag rfl taken
    obtain ⟨members, written, rfl⟩ := Grammar.exists_referenceOf taken derived
    rw [Bag.ofExpr_objectOf] at taken
    exact ⟨members, written, (Except.ok.inj taken).symm⟩

end ViewContext

namespace Reference

/-- A name that is written twice. -/
def repeatedSource : String :=
  "\"card\", \x7ba: 1, b: x, a: 2\x7d"

def repeatedMembers : List (String × Expr) :=
  [("a", .literal (.int 1)), ("b", .ofName "x"), ("a", .literal (.int 2))]

def repeatedTree : Expr :=
  .sequence [.literal (.string "card"), .operator Operator.object
    [.literal (.string "a"), .literal (.int 1), .literal (.string "b"), .ofName "x",
      .literal (.string "a"), .literal (.int 2)]]

def repeatedName : List Token :=
  [.string "\"card\""]

def keyed (key : String) (token : Token) : List Token :=
  [.identifier key, .punct .colon, token]

def repeatedInner : List Token :=
  keyed "a" (.number "1") ++ .punct .comma ::
    (keyed "b" (.identifier "x") ++ .punct .comma :: keyed "a" (.number "2"))

theorem items_repeated : (Token.readSource repeatedSource).items =
    repeatedName ++ .punct .comma :: .punct .openBrace :: (repeatedInner ++ [.punct .closeBrace]) := by
  cbv

open Grammar

theorem conditional_repeatedName :
    (nested 2).conditional repeatedName (.literal (.string "card")) := by
  have text : Token.stringText "\"card\"" = "card" := by cbv
  have operand : OperandOf (nested 0).conditional repeatedName _ := .string
  rw [text] at operand
  exact conditional_of_unary (.operand operand)

theorem listed_repeatedInner : Listed (MemberOf (nested 2).conditional) repeatedInner repeatedMembers := by
  have member (key : String) {token : Token} {tree : Expr} (derived : (nested 1).unary [token] tree) :
      MemberOf (nested 2).conditional (keyed key token) (key, tree) :=
    .keyed .identifier (conditional_of_unary derived)
  refine .plain (.cons (member "a" (.operand (.number rfl))) (.cons (member "b" ?_) (.one (member "a" ?_))))
  · exact .operand (.path (.name (by decide) (by decide)) .nil)
  · exact .operand (.number rfl)

theorem referenceOf_repeated : ReferenceOf (Token.readSource repeatedSource).items
    (.literal (.string "card")) repeatedMembers := by
  rw [items_repeated]
  exact .plain conditional_repeatedName (.braces listed_repeatedInner)

theorem parse_repeated : Expr.parse repeatedSource = .ok repeatedTree := by
  have object : (nested 4).conditional _ (objectOf repeatedMembers) :=
    conditional_of_unary (.operand (object_of_listed listed_repeatedInner))
  have whole : (Token.readSource repeatedSource).fault = none := by cbv
  refine Expr.parse_eq_ok_iff.2 ⟨whole, ?_⟩
  rw [items_repeated]
  exact .more (nested_mono (by decide) conditional_repeatedName) (.one (nested_mono (by decide) object))

end Reference

open Reference (card cardContext repeatedSource repeatedMembers repeatedTree referenceOf_repeated
  parse_repeated) in
theorem ViewContext.viewExpression_object_repeated :
    let x : Expression := .ofExpr (.ofName "x")
    Expr.parse repeatedSource = .ok repeatedTree ∧
      cardContext.viewExpression ⟨repeatedTree, .plain repeatedSource⟩ =
        .ok (.view card ⟨[("a", .literal (.int 2)), ("b", .ofExpression x)]⟩) := by
  obtain ⟨made, -⟩ := viewExpression_object parse_repeated cardContext (.plain repeatedSource)
  obtain ⟨_, -, -, -, referred, -⟩ := made _ _ referenceOf_repeated
  exact ⟨parse_repeated, referred⟩

end Stencil
