import Mathlib
import Stencil.Proofs.Grammar.Acceptance
import Stencil.Proofs.Marks
import Stencil.Proofs.Token.Blank
import Stencil.Proofs.Trim

/-! What an expression means after a block keyword.

After a keyword the last two words of a text are taken off as an alias if the first of them is
`as`, wherever they stand. The path before them is then no expression if all of the text is
one, since an expression before a name is none: the words were in a string, or in brackets.
-/

set_option autoImplicit false

namespace Stencil

/-- The words that open a block, or go on with one, in the standard map, and their keywords. -/
def BlockMap.words : List (String × Keyword) :=
  [("if", .ifTrue), ("unless", .ifFalse), ("each", .each), ("with", .scope), ("else if", .orElseIf)]

theorem BlockMap.openers_builtins : BlockMap.builtins.openers = BlockMap.words.map (·.1) := by
  decide

theorem BlockMap.named_of_mem_words {word : String} {keyword : Keyword}
    (opens : (word, keyword) ∈ BlockMap.words) : Keyword.Named word keyword := by
  have builtin : ∀ entry ∈ BlockMap.words, entry ∈ Keyword.builtins := by decide
  exact .builtin (builtin _ opens)

/-- Before a path, each of them is read as the keyword. -/
theorem Marks.firstWord?_words {word : String} {keyword : Keyword}
    (opens : (word, keyword) ∈ BlockMap.words) (rest : List Char) :
    Text.firstWord? BlockMap.builtins.openers (word.toList ++ ' ' :: rest) =
      some (word, Text.trimStart rest) := by
  rw [BlockMap.openers_builtins]
  simp only [BlockMap.words, List.mem_cons, Prod.mk.injEq, List.not_mem_nil, or_false] at opens
  rcases opens with ⟨rfl, -⟩ | ⟨rfl, -⟩ | ⟨rfl, -⟩ | ⟨rfl, -⟩ | ⟨rfl, -⟩
  all_goals simp [Text.firstWord?, BlockMap.words, Text.afterWord?, Text.strip?, Text.isBlank]

namespace Expr

variable {text : String} {tree : Expr}

theorem parse_trim (text : String) :
    parse (String.ofList (Text.trim text.toList)) = .ok tree ↔ parse text = .ok tree := by
  have same : Token.readSource (String.ofList (Text.trim text.toList)) = Token.readSource text := by
    rw [Token.readSource, Token.readSource, String.toList_ofList,
      Text.trim_of_trimmed (Text.trimmed_trim text.toList)]
  rw [parse_eq_ok_iff, parse_eq_ok_iff, same]

theorem trim_ne_nil_of_parse (parsed : parse text = .ok tree) : Text.trim text.toList ≠ [] := by
  intro none
  obtain ⟨-, derived⟩ := parse_eq_ok_iff.1 parsed
  apply derived.ne_nil
  rw [Token.readSource, none, Token.readAll]
  rfl

/-- A text that ends in an alias has the tokens of the path, and then the name `as`. -/
theorem readSource_of_namesAlias {path name : List Char}
    (names : Text.NamesAlias (Text.trim text.toList) path name)
    (clean : (Token.readSource (String.ofList path)).fault = none) :
    ∃ after : Reading Token SyntaxError, Token.readSource text =
      (after.cons (.identifier "as")).prepend (Token.readSource (String.ofList path)).items := by
  obtain ⟨gap, blanks, spelled, apart, between, areBlank⟩ := names.spelled
  obtain ⟨gapBlank, blanksBlank⟩ := List.forall_mem_append.1 areBlank
  have whole := Text.trimmed_trim text.toList
  have trimmed : Text.Trimmed path := by
    refine ⟨fun c head => whole.begins c ?_, names.path.2⟩
    rw [spelled, List.head?_append_of_ne_nil _ names.path.1]
    exact head
  have alone : Token.readSource (String.ofList path) = Token.readAll path := by
    rw [Token.readSource, String.toList_ofList, Text.trim_of_trimmed trimmed]
  rw [alone] at clean ⊢
  cases gap with
  | nil => exact absurd rfl apart
  | cons blank more =>
      obtain ⟨first, others⟩ := List.forall_mem_cons.1 gapBlank
      have skipped : Text.trimStart more = [] := List.dropWhile_eq_nil_iff.2 others
      have named : Token.lex ("as".toList ++ (blanks ++ name)) =
          (Token.lex (blanks ++ name)).cons (.identifier "as") := by
        refine Token.lex_identifier (by decide) fun c head => ?_
        rw [List.head?_append_of_ne_nil _ between] at head
        exact Token.isNameChar_of_isBlank (blanksBlank c (List.mem_of_mem_head? head))
      refine ⟨Token.lex (blanks ++ name), ?_⟩
      calc Token.readSource text
        _ = Token.lex (Text.trim text.toList) := by
            rw [Token.readSource, Token.lex, Text.trimStart_of_trimmed whole]
        _ = Token.lex (path ++ blank :: (more ++ ("as".toList ++ (blanks ++ name)))) := by
            rw [spelled]
            rfl
        _ = (Token.lex (more ++ ("as".toList ++ (blanks ++ name)))).prepend
            (Token.readAll path).items := Token.readAll_append_cons first trimmed.begins clean
        _ = _ := by rw [← Token.lex_trimStart_append, skipped, List.nil_append, named]

/-- What stands before an alias at the end of an expression is no expression: the name `as`
would come after a whole one. -/
theorem exists_error_of_namesAlias {path name : List Char} (parsed : parse text = .ok tree)
    (names : Text.NamesAlias (Text.trim text.toList) path name) :
    ∃ fault, parse (String.ofList path) = .error fault := by
  cases alone : parse (String.ofList path) with
  | error fault => exact ⟨fault, rfl⟩
  | ok short =>
      obtain ⟨clean, here⟩ := parse_eq_ok_iff.1 alone
      obtain ⟨-, there⟩ := parse_eq_ok_iff.1 parsed
      obtain ⟨after, tokens⟩ := readSource_of_namesAlias names clean
      rw [tokens] at there
      have stops : Grammar.Stops (.comma :: Grammar.conditionalMarks)
          (.identifier "as" :: after.items) := by
        intro punct member same
        cases same
      cases Grammar.Derives.eq_nil_of_append ⟨_, here⟩ stops ⟨_, there⟩

end Expr

namespace Marks

open BlockMap (words)

variable {rest path name : List Char} {word : String} {keyword : Keyword}

theorem read_words_of_eq_none (opens : (word, keyword) ∈ words)
    (trimmed : Text.Trimmed (word.toList ++ ' ' :: rest))
    (absent : Text.splitAlias? (Text.trimStart rest) = none) :
    read BlockMap.builtins.openers (word.toList ++ ' ' :: rest) =
      (opened keyword (String.ofList (word.toList ++ ' ' :: rest)), Text.trimStart rest) := by
  rw [← Keyword.ofText_of_named (BlockMap.named_of_mem_words opens)]
  exact read_of_opener trimmed (firstWord?_words opens rest) absent

theorem read_words_of_eq_some (opens : (word, keyword) ∈ words)
    (trimmed : Text.Trimmed (word.toList ++ ' ' :: rest))
    (found : Text.splitAlias? (Text.trimStart rest) = some (path, name)) :
    read BlockMap.builtins.openers (word.toList ++ ' ' :: rest) =
      ({ opened keyword (String.ofList (word.toList ++ ' ' :: rest)) with
        aliasName := some (String.ofList name) }, path) := by
  rw [← Keyword.ofText_of_named (BlockMap.named_of_mem_words opens)]
  exact read_of_alias trimmed (firstWord?_words opens rest) found

end Marks

namespace Expression

open BlockMap (words)

variable {word text : String} {keyword : Keyword} {tree : Expr}

theorem pathTree_of_ne_nil {path : List Char} (some : path ≠ []) :
    pathTree path = Expr.parse (String.ofList path) := by
  simp [pathTree, some]

/-- What stands after a word that opens a block is the trimmed text, after some blanks. -/
theorem exists_trim_eq (opens : (word, keyword) ∈ words) (some : Text.trim text.toList ≠ []) :
    ∃ rest, Text.trim (word ++ " " ++ text).toList = word.toList ++ ' ' :: rest ∧
      Text.trimStart rest = Text.trim text.toList := by
  obtain ⟨lead, trail, around, before, after⟩ := Text.exists_around text.toList
  have trimmed := Text.trimmed_trim text.toList
  have skipped : Text.trimStart (lead ++ Text.trim text.toList) = Text.trim text.toList :=
    Text.dropWhile_append_of_stop before trimmed.begins
  refine ⟨lead ++ Text.trim text.toList, ?_, skipped⟩
  have whole : Text.Trimmed (word.toList ++ ' ' :: (lead ++ Text.trim text.toList)) := by
    constructor
    · simp only [words, List.mem_cons, Prod.mk.injEq, List.not_mem_nil, or_false] at opens
      rcases opens with ⟨rfl, -⟩ | ⟨rfl, -⟩ | ⟨rfl, -⟩ | ⟨rfl, -⟩ | ⟨rfl, -⟩
      all_goals simp [Text.isBlank]
    · rw [← List.cons_append, ← List.append_assoc, List.getLast?_append_of_ne_nil _ some]
      exact trimmed.ends
  have spelled : (word ++ " " ++ text).toList =
      [] ++ ((word.toList ++ ' ' :: (lead ++ Text.trim text.toList)) ++ trail) := by
    conv_lhs => rw [String.toList_append, around]
    simp
  rw [spelled]
  exact Text.trim_around (by simp) after whole (by simp)

/-- A word that opens a block leaves the meaning of the expression after it as it is, unless
the expression itself ends in what reads as an alias, and then there is no expression at all. -/
theorem parse_words (opens : (word, keyword) ∈ words) (parsed : Expr.parse text = .ok tree) :
    ((∀ path name, ¬ Text.NamesAlias (Text.trim text.toList) path name) →
      Expression.parse BlockMap.builtins.openers (word ++ " " ++ text) =
        .ok ⟨tree, Marks.opened keyword (trimmed (word ++ " " ++ text))⟩) ∧
    ∀ path name, Text.NamesAlias (Text.trim text.toList) path name →
      ∃ fault, Expr.parse (String.ofList path) = .error fault ∧
        Expression.parse BlockMap.builtins.openers (word ++ " " ++ text) =
          .error ((Failure.of (.syntaxError fault)).within
            (.expression (trimmed (word ++ " " ++ text)))) := by
  have filled := Expr.trim_ne_nil_of_parse parsed
  obtain ⟨rest, spelled, after⟩ := exists_trim_eq opens filled
  have source : String.ofList (word.toList ++ ' ' :: rest) = trimmed (word ++ " " ++ text) := by
    rw [trimmed, spelled]
  have whole : Text.Trimmed (word.toList ++ ' ' :: rest) := spelled ▸ Text.trimmed_trim _
  constructor
  · intro none
    have absent : Text.splitAlias? (Text.trimStart rest) = Option.none := by
      rw [after, Option.eq_none_iff_forall_not_mem]
      rintro ⟨path, name⟩ found
      exact none path name (Text.namesAlias_of_splitAlias? found)
    rw [parse_eq_ok_iff, spelled, Marks.read_words_of_eq_none opens whole absent, source, after]
    exact ⟨_, rfl, (pathTree_of_ne_nil filled).trans ((Expr.parse_trim text).2 parsed)⟩
  · intro path name names
    obtain ⟨fault, refused⟩ := Expr.exists_error_of_namesAlias parsed names
    refine ⟨fault, refused, ?_⟩
    have found : Text.splitAlias? (Text.trimStart rest) = some (path, name) := by
      rw [after]
      exact Text.splitAlias?_of_namesAlias names
    simp only [parse, spelled, Marks.read_words_of_eq_some opens whole found, source,
      pathTree_of_ne_nil names.path.1, refused]
    rfl

set_option maxRecDepth 20000 in
theorem parse_words_sum :
    ("else if", .orElseIf) ∈ words ∧
      Expr.parse "a + 'as'" = .ok (.operator "+" [.ofName "a", .literal (.string "as")]) ∧
      Expression.parse BlockMap.builtins.openers ("else if" ++ " " ++ "a + 'as'") =
        .ok ⟨.operator "+" [.ofName "a", .literal (.string "as")],
          Marks.opened .orElseIf "else if a + 'as'"⟩ := by
  have opens : ("else if", .orElseIf) ∈ words := by decide
  have parsed : Expr.parse "a + 'as'" =
      .ok (.operator "+" [.ofName "a", .literal (.string "as")]) := by cbv
  refine ⟨opens, parsed, (parse_words opens parsed).1 fun path name names => ?_⟩
  have found := Text.splitAlias?_of_namesAlias names
  have absent : Text.splitAlias? (Text.trim "a + 'as'".toList) = none := by decide
  cases absent.symm.trans found

set_option maxRecDepth 20000 in
/-- A string that ends in what reads as an alias is cut in two. -/
theorem parse_if_quoted :
    Expr.parse "\"a as b\"" = .ok (.literal (.string "a as b")) ∧
      Expression.parse BlockMap.builtins.openers ("if" ++ " " ++ "\"a as b\"") =
        .error ((Failure.of (.syntaxError ⟨.unterminatedString, "\"a"⟩)).within
          (.expression "if \"a as b\"")) :=
  ⟨by cbv, by cbv⟩

end Expression

end Stencil
