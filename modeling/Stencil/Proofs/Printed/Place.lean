import Stencil.Proofs.Grammar.Fold
import Stencil.Proofs.Printed.Readable

/-! Places for expressions, by rank.

The loosest place is that of a sequence, then come those of conditionals, of the operands
of each level of binary operators, and of an operand by itself. A tree that is not in
brackets is derived at its rank, and in all looser places.
-/

set_option autoImplicit false

namespace Stencil.Grammar

/-- The rule of a place, with some depth to nest. -/
def At (place depth : Nat) : Rule Expr :=
  match place with
  | 0 => DerivesWithin (depth + 1)
  | 1 => (nested (depth + 1)).conditional
  | level + 2 => BinaryOf (nested depth).unary (Punct.levels.drop level)

section

variable {place depth : Nat} {tokens : List Token} {tree : Expr}

theorem At.looser (derived : At (place + 1) depth tokens tree) : At place depth tokens tree := by
  match place with
  | 0 => exact .one derived
  | 1 => exact .test derived
  | level + 2 =>
      simp only [At] at derived ⊢
      by_cases more : level < Punct.levels.length
      · rw [List.drop_eq_getElem_cons more]
        exact .tighter derived
      · rw [List.drop_eq_nil_of_le (by omega)] at derived ⊢
        exact derived

theorem At.of_le {rank : Nat} (le : place ≤ rank) (derived : At rank depth tokens tree) :
    At place depth tokens tree := by
  induction rank, le using Nat.le_induction with
  | base => exact derived
  | succ rank _ ih => exact ih derived.looser

/-- The tightest place is that of an operand by itself. -/
theorem At.unary (derived : At operandRank depth tokens tree) : (nested depth).unary tokens tree := by
  cases derived with | operand derived => exact derived

/-- The rank of a binary operator is that of its level. -/
theorem rank_binary {level : Nat} {operators : List Punct} {punct : Punct}
    (here : Punct.levels[level]? = some operators) (member : punct ∈ operators) (left right : Expr) :
    (Expr.operator punct.text [left, right]).rank = level + 2 := by
  have small : level < Punct.levels.length := (List.getElem?_eq_some_iff.1 here).1
  have all : ∀ level < Punct.levels.length, ∀ operators ∈ Punct.levels[level]?, ∀ punct ∈ operators,
      Operator.rank punct.text 2 = level + 2 := by decide
  exact all level small operators here punct member

theorem rank_unary (punct : Punct) (arg : Expr) :
    (Expr.operator punct.text [arg]).rank = operandRank := by
  have all : ∀ punct ∈ Punct.all, Operator.rank punct.text 1 = operandRank := by decide
  exact all punct (Punct.mem_all punct)

theorem rank_conditional (test consequent alternate : Expr) :
    (Expr.operator Operator.conditional [test, consequent, alternate]).rank = 1 := rfl

/-- What is in brackets is an operand. -/
theorem rank_bracket {name : String} (bracket : name = Operator.array ∨ name = Operator.object)
    (args : List Expr) : (Expr.operator name args).rank = operandRank := by
  have other : name ≠ Operator.conditional ∧ Operator.level? name = none := by
    rcases bracket with rfl | rfl <;> decide
  simp only [Expr.rank, Operator.rank, other.1, other.2, if_false]
  split <;> rfl

/-- An operand that is not a group has the rank of operands. -/
theorem rank_of_operand {conditional : Rule Expr} (derived : OperandOf conditional tokens tree) :
    tokens.head? = some (.punct .openParen) ∨ tree.rank = operandRank := by
  cases derived with
  | group => exact Or.inl rfl
  | array => exact Or.inr (rank_bracket (Or.inl rfl) _)
  | object => exact Or.inr (rank_bracket (Or.inr rfl) _)
  | _ => exact Or.inr rfl

theorem rank_of_unary (derived : (nested depth).unary tokens tree) :
    tokens.head? = some (.punct .openParen) ∨ tree.rank = operandRank := by
  cases depth with
  | zero => exact derived.elim
  | succ depth =>
      cases derived with
      | operand derived => exact rank_of_operand derived
      | negative => exact Or.inr rfl
      | @operator punct tokens arg _ _ _ => exact Or.inr (rank_unary punct arg)

/-- A tree is derived at its rank, unless it is in brackets, and its place is no tighter. -/
theorem At.rank_or_group (least : place ≤ operandRank) (derived : At place depth tokens tree) :
    tokens.head? = some (.punct .openParen) ∨ place ≤ tree.rank ∧ At tree.rank depth tokens tree := by
  induction least using Nat.decreasingInduction with
  | self =>
      refine (rank_of_unary (At.unary derived)).imp_right fun rank => ?_
      rw [rank]
      exact ⟨le_refl _, derived⟩
  | of_succ place less ih =>
      have tighter (derived : At (place + 1) depth tokens tree) :=
        (ih derived).imp_right fun found => And.intro (Nat.le_of_succ_le found.1) found.2
      match place with
      | 0 =>
          cases derived with
          | one derived => exact tighter derived
          | more first others => exact Or.inr ⟨le_refl 0, .more first others⟩
      | 1 =>
          cases derived with
          | test derived => exact tighter derived
          | choice test consequent alternate =>
              exact Or.inr ⟨le_refl 1, .choice test consequent alternate⟩
      | level + 2 =>
          have small : level < Punct.levels.length := by
            change level < 6
            simp only [operandRank] at less
            omega
          have here : Punct.levels[level]? = some Punct.levels[level] := List.getElem?_eq_getElem small
          simp only [At] at derived
          rw [List.drop_eq_getElem_cons small] at derived
          cases derived with
          | tighter derived => exact tighter derived
          | join member left right =>
              right
              rw [rank_binary here member]
              refine ⟨le_refl _, ?_⟩
              simp only [At]
              rw [List.drop_eq_getElem_cons small]
              exact .join member left right

end

end Stencil.Grammar
