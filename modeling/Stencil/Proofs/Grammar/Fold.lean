import Stencil.Proofs.Grammar.Rules

/-! Literals that a parser makes of literals: arrays, objects, and negative numbers. -/

set_option autoImplicit false

namespace Stencil.Grammar

section

variable {α β : Type} {read : α → Option β}

theorem mapM_eq_some_of_forall {items : List α} {values : List β}
    (all : items.map read = values.map some) : items.mapM read = some values := by
  induction items generalizing values with
  | nil =>
      cases values with
      | nil => rfl
      | cons => simp at all
  | cons item rest ih =>
      cases values with
      | nil => simp at all
      | cons value values =>
          obtain ⟨here, later⟩ := List.cons.inj all
          rw [List.mapM_cons, here, ih later]
          rfl

theorem mapM_eq_none_of_mem {items : List α} {item : α} (member : item ∈ items)
    (absent : read item = none) : items.mapM read = none := by
  induction items with
  | nil => exact absurd member List.not_mem_nil
  | cons first rest ih =>
      rw [List.mapM_cons]
      rcases List.mem_cons.1 member with rfl | later
      · rw [absent]
        rfl
      · rw [ih later]
        cases read first <;> rfl

end

theorem literal?_eq_none {tree : Expr} (other : tree.isLiteral = false) : tree.literal? = none :=
  Option.isNone_iff_eq_none.1 (by simpa [Expr.isLiteral] using other)

theorem eq_literal_of_isLiteral {tree : Expr} (same : tree.isLiteral = true) :
    ∃ value, tree = .literal value := by
  cases tree with
  | literal value => exact ⟨value, rfl⟩
  | _ => cases same

theorem arrayOf_literals (values : List Value) :
    arrayOf (values.map .literal) = .literal (.array values) := by
  have all : (values.map Expr.literal).mapM Expr.literal? = some values :=
    mapM_eq_some_of_forall (by simp [Expr.literal?])
  simp only [arrayOf, all]

theorem arrayOf_eq_operator {items : List Expr} (other : ∃ item ∈ items, item.isLiteral = false) :
    arrayOf items = .operator Operator.array items := by
  obtain ⟨item, member, other⟩ := other
  simp only [arrayOf, mapM_eq_none_of_mem member (literal?_eq_none other)]

theorem objectOf_literals (values : List (String × Value)) :
    objectOf (literals values) = .literal (.object (.ofEntries values)) := by
  have all : (literals values).mapM (fun member => member.2.literal?.map (member.1, ·)) =
      some values :=
    mapM_eq_some_of_forall (by simp [literals, Expr.literal?])
  simp only [objectOf, all]

theorem objectOf_eq_operator {members : List (String × Expr)}
    (other : ∃ member ∈ members, member.2.isLiteral = false) :
    objectOf members = .operator Operator.object (alternating members) := by
  obtain ⟨member, among, other⟩ := other
  have none : members.mapM (fun member => member.2.literal?.map (member.1, ·)) = none :=
    mapM_eq_none_of_mem among (by simp [literal?_eq_none other])
  simp only [objectOf, none]
  rfl

/-- Items are literals all together, or one of them is not. -/
theorem eq_literals_or_exists {α : Type} (tree : α → Expr) (items : List α) :
    (∃ values : List Value, items.map tree = values.map .literal) ∨
      ∃ item ∈ items, (tree item).isLiteral = false := by
  induction items with
  | nil => exact Or.inl ⟨[], rfl⟩
  | cons item rest ih =>
      cases here : (tree item).isLiteral with
      | false => exact Or.inr ⟨item, List.mem_cons_self, here⟩
      | true =>
          rcases ih with ⟨values, all⟩ | ⟨other, member, differs⟩
          · obtain ⟨value, same⟩ := eq_literal_of_isLiteral here
            exact Or.inl ⟨value :: values, by simp [same, all]⟩
          · exact Or.inr ⟨other, List.mem_cons_of_mem item member, differs⟩

/-- Members whose values are literals. -/
theorem exists_eq_literals {members : List (String × Expr)} {values : List Value}
    (all : members.map (·.2) = values.map .literal) : ∃ entries, members = literals entries := by
  induction members generalizing values with
  | nil => exact ⟨[], rfl⟩
  | cons member rest ih =>
      cases values with
      | nil => cases all
      | cons value values =>
          obtain ⟨here, later⟩ := List.cons.inj all
          obtain ⟨entries, rfl⟩ := ih later
          refine ⟨(member.1, value) :: entries, ?_⟩
          change member :: literals entries = (member.1, .literal value) :: literals entries
          rw [← here]

/-- The integers that number tokens and signs can make. -/
def IsSigned (n : Int) : Prop :=
  -Value.greatestInt ≤ n ∧ n ≤ Value.greatestInt

theorem neg?_int {n : Int} (signed : IsSigned n) : (Value.int n).neg? = some (.int (-n)) := by
  have fits : Value.isInt (-n) = true := by
    simp only [IsSigned, Value.greatestInt] at signed
    have low : Value.leastInt ≤ -n := by simp only [Value.leastInt]; omega
    have high : -n ≤ Value.greatestInt := by simp only [Value.greatestInt]; omega
    simp [Value.isInt, low, high]
  simp [Value.neg?, fits]

/-- A number token is an integer without a sign, or a float. -/
theorem ofNumber?_cases {text : List Char} {value : Value} (read : Value.ofNumber? text = some value) :
    (∃ n, value = .int n ∧ 0 ≤ n ∧ n ≤ Value.greatestInt) ∨
      ∃ x, value = .float x ∧ Double.ofText? false text = some x := by
  simp only [Value.ofNumber?] at read
  split at read
  · rename_i fits
    cases read
    simp only [Bool.and_eq_true, decide_eq_true_eq] at fits
    exact .inl ⟨_, rfl, Int.natCast_nonneg _, fits.2⟩
  · obtain ⟨x, found, rfl⟩ := Option.map_eq_some_iff.1 read
    exact .inr ⟨x, rfl, found⟩

theorem isSigned_ofNumber? {text : List Char} {n : Int} (read : Value.ofNumber? text = some (.int n)) :
    IsSigned n := by
  rcases ofNumber?_cases read with ⟨m, same, low, high⟩ | ⟨x, same, -⟩
  · cases same
    simp only [IsSigned, Value.greatestInt] at high ⊢
    omega
  · cases same

theorem constant?_cases {name : String} {value : Value} (known : constant? name = some value) :
    (∃ truth, value = .bool truth) ∨ value = .null := by
  simp only [constant?] at known
  split at known
  · exact .inl ⟨true, (Option.some.inj known).symm⟩
  split at known
  · exact .inl ⟨false, (Option.some.inj known).symm⟩
  split at known
  · exact .inr (Option.some.inj known).symm
  · cases known

theorem unaryOf_minus {value opposite : Value} (negated : value.neg? = some opposite) :
    unaryOf .minus (.literal value) = .literal opposite := by
  simp [unaryOf, Expr.literal?, negated]

theorem unaryOf_eq_operator {punct : Punct} {tree : Expr}
    (other : ¬ (punct = .minus ∧ IsNumber tree)) : unaryOf punct tree = .operator punct.text [tree] := by
  unfold unaryOf
  split
  · rename_i value found
    split at found
    · rename_i minus
      refine absurd ⟨minus, ?_⟩ other
      cases tree with
      | literal value =>
          cases value with
          | int n => exact Or.inl ⟨n, rfl⟩
          | float x => exact Or.inr ⟨x, rfl⟩
          | _ => simp [Expr.literal?, Value.neg?] at found
      | _ => simp [Expr.literal?] at found
    · cases found
  · rfl

section

variable {conditional unary : Rule Expr}

/-- A literal is no operator, -/
theorem BinaryOf.unary_of_literal {levels : List (List Punct)} {tokens : List Token} {value : Value}
    (derived : BinaryOf unary levels tokens (.literal value)) : unary tokens (.literal value) := by
  induction levels with
  | nil => cases derived with | operand derived => exact derived
  | cons operators levels ih => cases derived with | tighter derived => exact ih derived

/-- and no sequence. -/
theorem SequenceOf.conditional_of_literal {tokens : List Token} {value : Value}
    (derived : SequenceOf conditional tokens (.literal value)) : conditional tokens (.literal value) := by
  cases derived with | one derived => exact derived

end

/-- All integers that are derived have an opposite. -/
theorem isSigned_of_nested {depth : Nat} {tokens : List Token} {n : Int} :
    ((nested depth).conditional tokens (.literal (.int n)) → IsSigned n) ∧
      ((nested depth).unary tokens (.literal (.int n)) → IsSigned n) := by
  induction depth generalizing tokens n with
  | zero => exact ⟨False.elim, False.elim⟩
  | succ depth ih =>
      constructor
      · intro derived
        cases derived with | test derived => exact ih.2 derived.unary_of_literal
      · intro derived
        generalize made : Expr.literal (.int n) = tree at derived
        cases derived with
        | operand derived =>
            subst made
            generalize made : Expr.literal (.int n) = tree at derived
            cases derived with
            | number read =>
                cases made
                exact isSigned_ofNumber? read
            | constant known =>
                cases made
                rcases constant?_cases known with ⟨_, other⟩ | other <;> cases other
            | group derived =>
                subst made
                exact ih.1 derived.conditional_of_literal
            | _ => cases made
        | @negative tokens value opposite derived negated =>
            cases made
            cases value with
            | int m =>
                have signed : IsSigned m := ih.2 derived
                rw [neg?_int signed] at negated
                cases negated
                simp only [IsSigned] at signed ⊢
                omega
            | _ => simp [Value.neg?] at negated
        | operator => cases made

section

variable {conditional unary : Rule Expr}

/-- The items of an array, folded or not, make an operand. -/
theorem array_of_listed {inner : List Token} {items : List Expr} (listed : Listed conditional inner items) :
    OperandOf conditional (.punct .openBracket :: (inner ++ [.punct .closeBracket])) (arrayOf items) := by
  rcases eq_literals_or_exists id items with ⟨values, all⟩ | other
  · rw [List.map_id] at all
    subst all
    rw [arrayOf_literals]
    exact .literalArray listed
  · rw [arrayOf_eq_operator other]
    exact .array listed other

theorem object_of_listed {inner : List Token} {members : List (String × Expr)}
    (listed : Listed (MemberOf conditional) inner members) :
    OperandOf conditional (.punct .openBrace :: (inner ++ [.punct .closeBrace])) (objectOf members) := by
  rcases eq_literals_or_exists (·.2) members with ⟨values, all⟩ | other
  · obtain ⟨entries, rfl⟩ := exists_eq_literals all
    rw [objectOf_literals]
    exact .literalObject listed
  · rw [objectOf_eq_operator other]
    exact .object listed other

/-- An operator and its argument, folded or not. -/
theorem prefixed_unaryOf {punct : Punct} {tokens : List Token} {tree : Expr}
    (sign : punct ∈ Punct.unary) (derived : unary tokens tree)
    (signed : ∀ n, unary tokens (.literal (.int n)) → IsSigned n) :
    PrefixedOf conditional unary (.punct punct :: tokens) (unaryOf punct tree) := by
  by_cases folds : punct = .minus ∧ IsNumber tree
  · obtain ⟨rfl, ⟨n, rfl⟩ | ⟨x, rfl⟩⟩ := folds
    · have negated := neg?_int (signed n derived)
      rw [unaryOf_minus negated]
      exact .negative derived negated
    · rw [unaryOf_minus rfl]
      exact .negative derived rfl
  · rw [unaryOf_eq_operator folds]
    exact .operator sign derived folds

end

end Stencil.Grammar
