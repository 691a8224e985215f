import Mathlib
import Stencil.Expr.Grammar
import Stencil.Proofs.Token.Word

/-! Identifiers of ASCII letters, digits, underlines and dollar signs.

An identifier by itself is a lookup of its name, unless it is a literal or the scope.
-/

set_option autoImplicit false

namespace Stencil

theorem toNat_lt_of_isAlpha {c : Char} (alpha : c.isAlpha = true) : c.toNat < 0x80 := by
  simp only [Char.isAlpha, Char.isUpper, Char.isLower, Bool.or_eq_true, Bool.and_eq_true,
    decide_eq_true_eq] at alpha
  rcases alpha with ⟨-, high⟩ | ⟨-, high⟩
  · exact Nat.lt_of_le_of_lt high (by decide)
  · exact Nat.lt_of_le_of_lt high (by decide)

theorem toNat_lt_of_isAlphanum {c : Char} (kind : c.isAlphanum = true) : c.toNat < 0x80 := by
  rcases Bool.or_eq_true_iff.1 kind with alpha | digit
  · exact toNat_lt_of_isAlpha alpha
  · simp only [Char.isDigit, Bool.and_eq_true, decide_eq_true_eq] at digit
    exact Nat.lt_of_le_of_lt digit.2 (by decide)

/-- A letter, an underline or a dollar sign, and then also digits. -/
def IsIdentifier (name : String) : Prop :=
  ∃ first others, name.toList = first :: others ∧
    (first.isAlpha = true ∨ first = '_' ∨ first = '$') ∧
    ∀ c ∈ others, c.isAlphanum = true ∨ c = '_' ∨ c = '$'

instance (name : String) : Decidable (IsIdentifier name) :=
  match same : name.toList with
  | [] => isFalse fun ⟨_, _, other, _⟩ => List.cons_ne_nil _ _ (other.symm.trans same)
  | first :: others =>
      -- Otherwise all characters there are would be tried.
      haveI : Decidable (∀ c ∈ others, c.isAlphanum = true ∨ c = '_' ∨ c = '$') :=
        List.decidableBAll _ others
      decidable_of_iff ((first.isAlpha = true ∨ first = '_' ∨ first = '$') ∧
          ∀ c ∈ others, c.isAlphanum = true ∨ c = '_' ∨ c = '$')
        ⟨fun letters => ⟨first, others, same, letters⟩, fun ⟨_, _, other, letters⟩ => by
          cases same.symm.trans other
          exact letters⟩

namespace IsIdentifier

open Token (isName isNameStart isNameChar isNameChar_of_isNameStart isNameChar_of_isDigit)

variable {name : String}

theorem isName (identifier : IsIdentifier name) : isName name.toList = true := by
  obtain ⟨first, others, same, letter, letters⟩ := identifier
  have start {c : Char} (kind : c.isAlpha = true ∨ c = '_' ∨ c = '$') : isNameStart c = true := by
    rcases kind with alpha | rfl | rfl
    · simp [isNameStart, Text.isAlphabetic_of_isAlpha alpha (toNat_lt_of_isAlpha alpha)]
    · rfl
    · rfl
  rw [same, Token.isName, start letter, Bool.true_and, List.all_eq_true]
  intro c member
  rcases letters c member with alphanum | line
  · rcases Bool.or_eq_true_iff.1 alphanum with alpha | digit
    · exact isNameChar_of_isNameStart (start (.inl alpha))
    · exact isNameChar_of_isDigit digit
  · exact isNameChar_of_isNameStart (start (.inr line))

/-- No character of an identifier is a mark. -/
theorem not_mem (identifier : IsIdentifier name) {mark : Char} (isMark : isNameChar mark = false) :
    mark ∉ name.toList := by
  intro member
  have named := identifier.isName
  obtain ⟨first, others, same, _, _⟩ := identifier
  rw [same] at named member
  obtain ⟨start, all⟩ := Bool.and_eq_true_iff.1 named
  rcases List.mem_cons.1 member with rfl | later
  · exact absurd ((isNameChar_of_isNameStart start).symm.trans isMark) (by decide)
  · exact absurd ((List.all_eq_true.1 all mark later).symm.trans isMark) (by decide)

end IsIdentifier

/-- The identifiers that look nothing up: the literals, and the scope. -/
def reservedWords : List String :=
  ["true", "false", "null", "undefined", "this"]

theorem not_mem_reservedWords_iff {name : String} :
    name ∉ reservedWords ↔ Grammar.constant? name = none ∧ name ≠ "this" := by
  simp only [reservedWords, Grammar.constant?]
  grind

/-- An identifier that is looked up in the data at hand. -/
structure IsLookup (name : String) : Prop where
  identifier : IsIdentifier name
  unreserved : name ∉ reservedWords

instance (name : String) : Decidable (IsLookup name) :=
  decidable_of_iff (IsIdentifier name ∧ name ∉ reservedWords)
    ⟨fun ⟨identifier, unreserved⟩ => ⟨identifier, unreserved⟩,
      fun lookup => ⟨lookup.identifier, lookup.unreserved⟩⟩

end Stencil
