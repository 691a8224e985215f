import Stencil.Text.Search

/-! Punctuation of expressions. -/

set_option autoImplicit false

namespace Stencil

inductive Punct where
  | identical
  | notIdentical
  | equal
  | notEqual
  | atMost
  | atLeast
  | and
  | or
  | dot
  | openBracket
  | closeBracket
  | openParen
  | closeParen
  | openBrace
  | closeBrace
  | comma
  | colon
  | question
  | not
  | plus
  | minus
  | times
  | divide
  | modulo
  | less
  | greater
  deriving DecidableEq, Repr

namespace Punct

def symbol : Punct → List Char
  | .identical => ['=', '=', '=']
  | .notIdentical => ['!', '=', '=']
  | .equal => ['=', '=']
  | .notEqual => ['!', '=']
  | .atMost => ['<', '=']
  | .atLeast => ['>', '=']
  | .and => ['&', '&']
  | .or => ['|', '|']
  | .dot => ['.']
  | .openBracket => ['[']
  | .closeBracket => [']']
  | .openParen => ['(']
  | .closeParen => [')']
  | .openBrace => ['{']
  | .closeBrace => ['}']
  | .comma => [',']
  | .colon => [':']
  | .question => ['?']
  | .not => ['!']
  | .plus => ['+']
  | .minus => ['-']
  | .times => ['*']
  | .divide => ['/']
  | .modulo => ['%']
  | .less => ['<']
  | .greater => ['>']

def text (punct : Punct) : String :=
  String.ofList punct.symbol

/-- Longer symbols come before their beginnings, so that the first match is
the longest one. -/
def all : List Punct :=
  [.identical, .notIdentical, .equal, .notEqual, .atMost, .atLeast, .and, .or, .dot, .openBracket,
   .closeBracket, .openParen, .closeParen, .openBrace, .closeBrace, .comma, .colon, .question, .not,
   .plus, .minus, .times, .divide, .modulo, .less, .greater]

theorem mem_all (punct : Punct) : punct ∈ all := by
  cases punct <;> decide

/-- The longest symbol at the start of a text, and what follows it. -/
def read? (text : List Char) : Option (Punct × List Char) :=
  all.findSome? fun punct => (Text.strip? punct.symbol text).map (punct, ·)

theorem read?_append {text after : List Char} {punct : Punct}
    (found : read? text = some (punct, after)) : punct.symbol ++ after = text := by
  obtain ⟨other, _, matched⟩ := List.exists_of_findSome?_eq_some found
  obtain ⟨rest, stripped, same⟩ := Option.map_eq_some_iff.1 matched
  obtain ⟨rfl, rfl⟩ := Prod.mk.inj same
  exact Text.strip?_eq_some_iff.1 stripped

theorem symbol_ne_nil (punct : Punct) : punct.symbol ≠ [] := by
  cases punct <;> simp [symbol]

/-- How tightly a binary operator binds. -/
def precedence? : Punct → Option Nat
  | .or => some 1
  | .and => some 2
  | .equal | .notEqual | .identical | .notIdentical => some 3
  | .less | .greater | .atMost | .atLeast => some 4
  | .plus | .minus => some 5
  | .times | .divide | .modulo => some 6
  | _ => none

/-- Operators that stand before their only argument. -/
def unary : List Punct :=
  [.not, .minus, .plus]

end Punct

end Stencil
