import Stencil.Proofs.Token.Quoted
import Stencil.Proofs.Token.Spacing

/-! Texts between quotes of either kind.

With a backslash before every backslash and every quote in it, a text stays between its
quotes whatever follows them, and it is what the string stands for.
-/

set_option autoImplicit false

namespace Stencil.Token

open Text (isBlank trim trimStart dropWhile_append_of_stop)

/-- A character of a text between quotes. -/
def guarded (mark c : Char) : List Char :=
  if c = '\\' ∨ c = mark then ['\\', c] else [c]

/-- A text between two quotes, with a backslash before what would end it. -/
def enclosed (mark : Char) (text : String) : String :=
  String.ofList (mark :: (text.toList.flatMap (guarded mark) ++ [mark]))

/-- A guarded character leaves the reading where it was, between two escapes. -/
theorem readQuoted_guarded (mark c : Char) (rest : List Char) :
    readQuoted mark false (guarded mark c ++ rest) =
      (readQuoted mark false rest).map fun (body, after) => (guarded mark c ++ body, after) := by
  unfold guarded
  split
  · exact readQuoted_escaped mark c rest
  · rename_i bare
    obtain ⟨slash, other⟩ := not_or.1 bare
    exact readQuoted_plain slash other rest

/-- Behind its backslash a quote is read as itself, since no quote is a letter. -/
theorem unescape_guarded {mark : Char} (itself : unescapeLetter mark = mark) (letter : mark ≠ 'u')
    (c : Char) (rest : List Char) : unescape (guarded mark c ++ rest) = c :: unescape rest := by
  unfold guarded
  split
  · rename_i marked
    rcases marked with rfl | rfl
    · exact unescape_letter (by decide) rest
    · have escaped := unescape_letter letter rest
      rwa [itself] at escaped
  · rename_i plain
    exact unescape_plain (not_or.1 plain).1 rest

variable {mark : Char}

theorem step?_enclosed (isQuote : mark = '"' ∨ mark = '\'') (text : String) (rest : List Char) :
    step? ((enclosed mark text).toList ++ rest) =
      .ok (some ⟨.string (enclosed mark text), trimStart rest⟩) := by
  have plain : mark ≠ '\\' := by rcases isQuote with rfl | rfl <;> decide
  have found := readQuoted_flatMap plain (readQuoted_guarded mark) text.toList rest
  have token := (Lexed.string isQuote found).read_eq
  have start : (enclosed mark text).toList ++ rest =
      mark :: (text.toList.flatMap (guarded mark) ++ mark :: rest) := by
    simp [enclosed]
  rw [start, step?, token]
  rfl

theorem stringText_enclosed (isQuote : mark = '"' ∨ mark = '\'') (text : String) :
    stringText (enclosed mark text) = text := by
  have itself : unescapeLetter mark = mark := by rcases isQuote with rfl | rfl <;> decide
  have letter : mark ≠ 'u' := by rcases isQuote with rfl | rfl <;> decide
  simp [stringText, enclosed, unescape_flatMap (unescape_guarded itself letter)]

/-- Quotes are not blank, so trimming a source that begins with them trims what follows. -/
theorem exists_trim_enclosed (isQuote : mark = '"' ∨ mark = '\'') (text : String) (rest : List Char) :
    ∃ more, trim ((enclosed mark text).toList ++ rest) = (enclosed mark text).toList ++ more ∧
      trimStart more = trim rest := by
  have dark : isBlank mark = false := by rcases isQuote with rfl | rfl <;> rfl
  have first : ∀ more, ∀ c ∈ ((enclosed mark text).toList ++ more).head?, isBlank c = false := by
    simp [enclosed, dark]
  have last : ∀ c ∈ (enclosed mark text).toList.getLast?, isBlank c = false := by
    rw [enclosed, String.toList_ofList, ← List.cons_append, List.getLast?_concat]
    simpa using dark
  have filled : (enclosed mark text).toList ≠ [] := by simp [enclosed]
  obtain ⟨lead, trail, around, before, after⟩ := Text.exists_around rest
  by_cases nothing : trim rest = []
  · -- All of the rest is blank.
    refine ⟨[], ?_, by rw [nothing]; rfl⟩
    have blank : ∀ c ∈ rest, isBlank c = true := by
      rw [around, nothing, List.nil_append]
      intro c member
      exact (List.mem_append.1 member).elim (before c) (after c)
    have whole : Text.Trimmed (enclosed mark text).toList := ⟨by simpa using first [], last⟩
    simpa using @Text.trim_around [] _ rest nofun blank whole filled
  · refine ⟨lead ++ trim rest, ?_, ?_⟩
    · have ends := (Text.trimmed_trim rest).ends
      have whole : Text.Trimmed ((enclosed mark text).toList ++ (lead ++ trim rest)) := by
        refine ⟨first _, ?_⟩
        rw [← List.append_assoc, List.getLast?_append_of_ne_nil _ nothing]
        exact ends
      conv => lhs; rw [around]
      simpa using @Text.trim_around [] _ trail nofun after whole (by simp [filled])
    · rw [trimStart, dropWhile_append_of_stop before (Text.trimmed_trim rest).begins]

/-- A text between quotes is one token before any other text, with the tail behind the
blanks that come next, and stands for that text. As the first token of a source it has the
tail without the blanks at the end of the source. -/
theorem step?_enclosed_append (isQuote : mark = '"' ∨ mark = '\'') (text : String)
    (rest : List Char) :
    step? ((enclosed mark text).toList ++ rest) =
        .ok (some ⟨.string (enclosed mark text), trimStart rest⟩) ∧
      step? (trim ((enclosed mark text).toList ++ rest)) =
        .ok (some ⟨.string (enclosed mark text), trim rest⟩) ∧
      stringText (enclosed mark text) = text := by
  obtain ⟨more, trimmed, tail⟩ := exists_trim_enclosed isQuote text rest
  refine ⟨step?_enclosed isQuote text rest, ?_, stringText_enclosed isQuote text⟩
  rw [trimmed, step?_enclosed isQuote, tail]

/-- A backslash at the end, and quotes that would end the text without theirs. -/
theorem step?_enclosed_append_quotes :
    enclosed '\'' "\"\u00e4'\\" = "'\"\u00e4\\'\\\\'" ∧
      step? "'\"\u00e4\\'\\\\'  'more' ".toList =
        .ok (some ⟨.string "'\"\u00e4\\'\\\\'", "'more' ".toList⟩) ∧
      step? (trim "'\"\u00e4\\'\\\\'  'more' ".toList) =
        .ok (some ⟨.string "'\"\u00e4\\'\\\\'", "'more'".toList⟩) ∧
      stringText "'\"\u00e4\\'\\\\'" = "\"\u00e4'\\" := by
  have written : enclosed '\'' "\"\u00e4'\\" = "'\"\u00e4\\'\\\\'" := by decide
  have read := step?_enclosed_append (Or.inr rfl) "\"\u00e4'\\" "  'more' ".toList
  rw [written] at read
  exact ⟨written, read⟩

end Stencil.Token
