import Stencil.Proofs.Grammar.Completeness
import Stencil.Proofs.Token.Lexing

/-! Texts that stand within a printed form, and their tokens.

A text is spelled by some tokens if it reads as these wherever it stands. A rule aligns
with a text if all that it derives from tokens at the start of the text takes the text
whole. Both pass from the items of a list to the list.
-/

set_option autoImplicit false

namespace Stencil.Printed

open Grammar Token

/-- What follows a part of a printed form. -/
def Closes (rest : List Char) : Prop :=
  ∀ c ∈ rest.head?, c ∈ [' ', ',', ')', ']', '}', ':']

theorem closes_nil : Closes [] :=
  fun _ none => by cases none

theorem closes_cons {c : Char} (mark : c ∈ [' ', ',', ')', ']', '}', ':']) (rest : List Char) :
    Closes (c :: rest) := by
  rintro d same
  cases same
  exact mark

/-- What closes a part goes on with no name, -/
theorem Closes.name {rest : List Char} (closes : Closes rest) : ∀ c ∈ rest.head?, isNameChar c = false := by
  intro c here
  have plain : [' ', ',', ')', ']', '}', ':'].all (!isNameChar ·) = true := by decide
  simpa using List.all_eq_true.1 plain c (closes c here)

/-- and with no number. -/
theorem Closes.numeral {rest : List Char} (closes : Closes rest) (numeral : Numeral) :
    EndsNumeral numeral rest where
  digit c here := by
    have plain : [' ', ',', ')', ']', '}', ':'].all (!Char.isDigit ·) = true := by decide
    simpa using List.all_eq_true.1 plain c (closes c here)
  mark c here := by
    rintro (rfl | rfl) <;> exact absurd (closes _ here) (by decide)
  point _ _ d after same := by
    subst same
    exact absurd (closes '.' rfl) (by decide)

/-- How a printed form begins: with no blank, and with no bracket of a group. -/
def Opens (text : List Char) : Prop :=
  ∃ c rest, text = c :: rest ∧ Text.isBlank c = false ∧ c ∉ ['(', '=']

theorem Opens.append {text : List Char} (opens : Opens text) (more : List Char) :
    Opens (text ++ more) := by
  obtain ⟨c, rest, rfl, dark⟩ := opens
  exact ⟨c, rest ++ more, rfl, dark⟩

theorem Opens.trimStart_eq {text : List Char} (opens : Opens text) : Text.trimStart text = text := by
  obtain ⟨c, rest, rfl, dark, -⟩ := opens
  rw [Text.trimStart, List.dropWhile_cons_of_neg (by simp [dark])]

/-- What opens a part does not go on with a symbol. -/
theorem Opens.symbol {text : List Char} (opens : Opens text) : ∀ c ∈ text.head?, c ≠ '=' := by
  obtain ⟨c, rest, rfl, -, other⟩ := opens
  rintro d same rfl
  cases same
  exact other (by decide)

theorem Opens.head_ne {text : List Char} (opens : Opens text) :
    (lex text).items.head? ≠ some (.punct .openParen) := by
  intro head
  obtain ⟨tokens, head⟩ := List.head?_eq_some_iff.1 head
  obtain ⟨first, others, after, start, found, -⟩ := exists_read_of_lex head
  rw [opens.trimStart_eq] at start
  obtain ⟨c, rest, rfl, dark, other⟩ := opens
  obtain ⟨rfl, rfl⟩ := List.cons.inj start
  have same : '(' = c := (List.cons.inj (read_append found)).1
  exact other (by simp [← same])

/-- An operator between blanks reads as itself. -/
theorem lex_spaced (punct : Punct) (rest : List Char) :
    lex (' ' :: (punct.symbol ++ ' ' :: rest)) = (lex rest).cons (.punct punct) := by
  have stop : ∀ c ∈ (' ' :: rest).head?, c ≠ '=' := by
    rintro c same
    cases same
    decide
  rw [lex_space, lex_punct fun _ => stop, lex_space]

theorem lex_question (rest : List Char) :
    lex (' ' :: '?' :: ' ' :: rest) = (lex rest).cons (.punct .question) :=
  lex_spaced .question rest

theorem lex_otherwise (rest : List Char) :
    lex (' ' :: ':' :: ' ' :: rest) = (lex rest).cons (.punct .colon) :=
  lex_spaced .colon rest

/-- A colon stands right after a key. -/
theorem lex_colon (rest : List Char) : lex (':' :: ' ' :: rest) = (lex rest).cons (.punct .colon) := by
  rw [← lex_otherwise rest, lex_space]

/-- Wherever a text stands, it reads as some tokens. -/
def Spelled (text : List Char) (tokens : List Token) : Prop :=
  ∀ rest, Closes rest → lex (text ++ rest) = (lex rest).prepend tokens

/-- What a rule derives at the start of a text takes the text whole, and then something
holds of it. -/
def Aligned (marks : List Punct) (rule : List Token → Prop) (text : List Char) (holds : Prop) : Prop :=
  ∀ tokens after rest, Closes rest → Stops marks after →
    (lex (text ++ rest)).items = tokens ++ after → rule tokens →
    holds ∧ lex (text ++ rest) = (lex rest).prepend tokens

theorem stops_none (after : List Token) : Stops [] after :=
  fun _ member => absurd member List.not_mem_nil

@[simp] theorem prepend_nil (reading : Reading Token SyntaxError) : reading.prepend [] = reading := rfl

theorem prepend_cons (token : Token) (tokens : List Token) (reading : Reading Token SyntaxError) :
    reading.prepend (token :: tokens) = (reading.prepend tokens).cons token := rfl

theorem prepend_append (first second : List Token) (reading : Reading Token SyntaxError) :
    reading.prepend (first ++ second) = (reading.prepend second).prepend first := by
  simp [Reading.prepend]

/-- The first token is one of the tokens at the start, if there are any. -/
theorem items_cons {reading : Reading Token SyntaxError} {token other : Token}
    {tokens after : List Token} (same : (reading.cons token).items = other :: tokens ++ after) :
    token = other ∧ reading.items = tokens ++ after :=
  List.cons.inj same

/-- What stands between the items of a list. -/
inductive IsSeparator : List Char → Prop where
  | narrow : IsSeparator [',']
  | wide : IsSeparator [',', ' ']

theorem IsSeparator.closes {separator : List Char} (isSeparator : IsSeparator separator)
    (rest : List Char) : Closes (separator ++ rest) := by
  cases isSeparator <;> exact closes_cons (by decide) _

theorem IsSeparator.lex_append {separator : List Char} (isSeparator : IsSeparator separator)
    (rest : List Char) : lex (separator ++ rest) = (lex rest).cons (.punct .comma) := by
  cases isSeparator with
  | narrow => exact lex_mark .comma (by decide) rest
  | wide => exact (lex_mark .comma (by decide) (' ' :: rest)).trans (by rw [lex_space])

section

variable {α : Type} {item : Rule α} {text : α → List Char} {separator : List Char}

theorem exists_separated (isSeparator : IsSeparator separator) {values : List α} (some : values ≠ [])
    (each : ∀ value ∈ values, ∃ tokens, Spelled (text value) tokens ∧ item tokens value) :
    ∃ tokens, Spelled (separator.intercalate (values.map text)) tokens ∧
      Separated item tokens values := by
  induction values with
  | nil => exact absurd rfl some
  | cons value values ih =>
      obtain ⟨⟨first, spelled, derived⟩, each⟩ := List.forall_mem_cons.1 each
      cases values with
      | nil => exact ⟨first, by simpa using spelled, .one derived⟩
      | cons next values =>
          obtain ⟨others, more, separated⟩ := ih (List.cons_ne_nil _ _) each
          refine ⟨first ++ .punct .comma :: others, ?_, .cons derived separated⟩
          intro rest closes
          rw [List.map_cons, List.map_cons, List.intercalate_cons_cons, ← List.map_cons,
            List.append_assoc, List.append_assoc, spelled _ (isSeparator.closes _),
            isSeparator.lex_append, more rest closes, prepend_append, prepend_cons]

theorem aligned_separated (isSeparator : IsSeparator separator) {marks : List Punct}
    (comma : .comma ∉ marks) {values : List α} {holds : α → Prop}
    (each : ∀ value ∈ values, Aligned marks (item · value) (text value) (holds value)) :
    Aligned marks (Separated item · values) (separator.intercalate (values.map text))
      (∀ value ∈ values, holds value) := by
  intro tokens after rest closes stops same derived
  induction derived with
  | @one tokens value derived =>
      rw [List.map_singleton, List.intercalate_singleton] at same ⊢
      obtain ⟨here, whole⟩ := each value List.mem_cons_self tokens after rest closes stops same derived
      exact ⟨List.forall_mem_singleton.2 here, whole⟩
  | @cons first others value values derived separated ih =>
      obtain ⟨next, values, rfl⟩ : ∃ next rest, values = next :: rest := by
        cases separated <;> exact ⟨_, _, rfl⟩
      rw [List.map_cons, List.map_cons, List.intercalate_cons_cons, ← List.map_cons,
        List.append_assoc, List.append_assoc] at same ⊢
      rw [List.append_assoc] at same
      obtain ⟨here, whole⟩ := each value List.mem_cons_self first _ _ (isSeparator.closes _)
        (stops_cons comma _) same derived
      rw [whole, isSeparator.lex_append] at same ⊢
      have later := List.append_cancel_left same
      rw [List.cons_append] at later
      obtain ⟨all, more⟩ := ih (fun value member => each value (List.mem_cons_of_mem _ member))
        (List.cons.inj later).2
      refine ⟨List.forall_mem_cons.2 ⟨here, all⟩, ?_⟩
      rw [more, prepend_append, prepend_cons]

/-- The brackets around a list. -/
inductive IsBracket : Punct → Punct → Prop where
  | bracket : IsBracket .openBracket .closeBracket
  | brace : IsBracket .openBrace .closeBrace
  | paren : IsBracket .openParen .closeParen

variable {left right : Punct}

theorem IsBracket.lex_left (isBracket : IsBracket left right) (rest : List Char) :
    lex (left.symbol ++ rest) = (lex rest).cons (.punct left) := by
  cases isBracket <;> exact lex_mark _ (by decide) rest

theorem IsBracket.lex_right (isBracket : IsBracket left right) (rest : List Char) :
    lex (right.symbol ++ rest) = (lex rest).cons (.punct right) := by
  cases isBracket <;> exact lex_mark _ (by decide) rest

theorem IsBracket.closes (isBracket : IsBracket left right) (rest : List Char) :
    Closes (right.symbol ++ rest) := by
  cases isBracket <;> exact closes_cons (by decide) _

theorem IsBracket.ne_comma (isBracket : IsBracket left right) : right ≠ .comma := by
  cases isBracket <;> decide

/-- The tokens of a list in brackets. -/
def Enclosed (left right : Punct) (rule : List Token → Prop) (tokens : List Token) : Prop :=
  ∃ inner, tokens = .punct left :: (inner ++ [.punct right]) ∧ rule inner

/-- The text of a list in brackets. -/
def enclosed (left right : Punct) (inner : List Char) : List Char :=
  left.symbol ++ (inner ++ right.symbol)

theorem IsBracket.lex_enclosed (isBracket : IsBracket left right) (inner rest : List Char) :
    lex (enclosed left right inner ++ rest) = (lex (inner ++ (right.symbol ++ rest))).cons (.punct left) := by
  rw [enclosed, List.append_assoc, List.append_assoc, isBracket.lex_left]

theorem Spelled.enclosed (isBracket : IsBracket left right) {inner : List Char} {tokens : List Token}
    (spelled : Spelled inner tokens) :
    Spelled (enclosed left right inner) (.punct left :: (tokens ++ [.punct right])) := by
  intro rest closes
  rw [isBracket.lex_enclosed, spelled _ (isBracket.closes rest), isBracket.lex_right, prepend_cons,
    prepend_append]
  rfl

theorem exists_listed (isBracket : IsBracket left right) (isSeparator : IsSeparator separator)
    {values : List α}
    (each : ∀ value ∈ values, ∃ tokens, Spelled (text value) tokens ∧ item tokens value) :
    ∃ tokens, Spelled (enclosed left right (separator.intercalate (values.map text))) tokens ∧
      Enclosed left right (Listed item · values) tokens := by
  cases values with
  | nil =>
      refine ⟨[.punct left, .punct right], ?_, [], rfl, .none⟩
      intro rest closes
      rw [isBracket.lex_enclosed, List.map_nil, List.intercalate_nil, List.nil_append, isBracket.lex_right]
      rfl
  | cons value values =>
      obtain ⟨inner, spelled, derived⟩ := exists_separated isSeparator (List.cons_ne_nil _ _) each
      exact ⟨_, spelled.enclosed isBracket, inner, rfl, .plain derived⟩

theorem aligned_listed (isBracket : IsBracket left right) (isSeparator : IsSeparator separator)
    {marks : List Punct} (comma : .comma ∉ marks) (other : right ∉ marks) {values : List α}
    {holds : α → Prop}
    (each : ∀ value ∈ values, Aligned marks (item · value) (text value) (holds value)) :
    Aligned [] (Enclosed left right (Listed item · values))
      (enclosed left right (separator.intercalate (values.map text)))
      (∀ value ∈ values, holds value) := by
  rintro _ after rest closes - same ⟨inner, rfl, listed⟩
  rw [isBracket.lex_enclosed] at same ⊢
  have same : (lex (separator.intercalate (values.map text) ++ (right.symbol ++ rest))).items =
      inner ++ .punct right :: after :=
    (List.cons.inj same).2.trans (List.append_assoc inner _ after)
  have separated := aligned_separated isSeparator comma each
  rw [prepend_cons, prepend_append]
  cases listed with
  | none =>
      rw [List.map_nil, List.intercalate_nil, List.nil_append, isBracket.lex_right] 
      exact ⟨fun _ member => absurd member List.not_mem_nil, rfl⟩
  | plain derived =>
      obtain ⟨all, whole⟩ := separated _ _ _ (isBracket.closes rest) (stops_cons other _) same derived
      rw [whole, isBracket.lex_right]
      exact ⟨all, rfl⟩
  | trailing derived =>
      rw [List.append_assoc] at same
      obtain ⟨-, whole⟩ := separated _ _ _ (isBracket.closes rest) (stops_cons comma _) same derived
      -- The printed form has the closing mark where the comma would be.
      rw [whole, isBracket.lex_right] at same
      have ends := List.append_cancel_left same
      exact absurd (Token.punct.inj (List.cons.inj ends).1) isBracket.ne_comma

end

end Stencil.Printed
