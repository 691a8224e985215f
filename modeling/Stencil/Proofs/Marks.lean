import Stencil.Expression.Source
import Stencil.Proofs.Derivation
import Stencil.Proofs.Words.Pattern

/-! Marks of expressions, as they are read from the text between delimiters. -/

set_option autoImplicit false

namespace Stencil

namespace ValueWord

variable {text rest : List Char} {word : ValueWord}

theorem readAll_of_none (absent : read? text = none) : readAll text = ([], text) := by
  rw [readAll]
  split
  · rfl
  · rename_i found
    cases absent.symm.trans found

theorem readAll_of_some (found : read? text = some (word, rest)) :
    readAll text = (word :: (readAll rest).1, (readAll rest).2) := by
  rw [readAll]
  split
  · rename_i absent
    cases found.symm.trans absent
  · rename_i same
    cases found.symm.trans same
    rfl

theorem read?_eq_none (absent : ∀ word ∈ all, Text.afterWord? word.symbol text = none) :
    read? text = none := by
  rw [read?, List.findSome?_eq_none_iff]
  intro word member
  rw [absent word member]
  rfl

/-- What a word says of binding. -/
def binding? : ValueWord → Option Binding
  | .bound => some .bound
  | .unbound => some .unbound
  | .view | .unescaped => none

/-- What the last word that speaks of it says. -/
def lastBinding? (words : List ValueWord) : Option Binding :=
  words.reverse.findSome? binding?

/-- The marks that words leave. -/
def marksOf (source : String) (words : List ValueWord) : Marks :=
  { Marks.plain source with
    unescaped := decide (.unescaped ∈ words)
    binding := lastBinding? words
    isView := decide (.view ∈ words) }

theorem lastBinding?_cons (word : ValueWord) (words : List ValueWord) :
    lastBinding? (word :: words) = (lastBinding? words).or word.binding? := by
  simp only [lastBinding?, List.reverse_cons, List.findSome?_append, List.findSome?_singleton]

theorem foldl_mark (words : List ValueWord) (marks : Marks) :
    words.foldl mark marks = { marks with
      unescaped := marks.unescaped || decide (.unescaped ∈ words)
      binding := (lastBinding? words).or marks.binding
      isView := marks.isView || decide (.view ∈ words) } := by
  induction words generalizing marks with
  | nil => simp [lastBinding?]
  | cons word words ih =>
      rw [List.foldl_cons, ih, lastBinding?_cons]
      cases word <;> cases lastBinding? words <;> simp [mark, binding?]

theorem foldl_mark_plain (source : String) (words : List ValueWord) :
    words.foldl mark (.plain source) = marksOf source words := by
  rw [foldl_mark]
  simp [marksOf, Marks.plain]

end ValueWord

namespace Keyword

/-- The words of the keywords that have one of their own. -/
def builtins : List (String × Keyword) :=
  [("if", .ifTrue), ("unless", .ifFalse), ("each", .each), ("with", .scope), ("else", .orElse),
    ("else if", .orElseIf), ("bound", .bound), ("unbound", .unbound), ("end", .close)]

/-- A word names its own keyword, and every other word the block that is called so. -/
inductive Named (word : String) : Keyword → Prop where
  | builtin {keyword : Keyword} : (word, keyword) ∈ builtins → Named word keyword
  | custom : (∀ keyword, (word, keyword) ∉ builtins) → Named word (.custom word)

theorem ofText_of_mem {word : String} {keyword : Keyword} (member : (word, keyword) ∈ builtins) :
    ofText word = keyword := by
  have all : ∀ entry ∈ builtins, ofText entry.1 = entry.2 := by decide
  exact all _ member

theorem ofText_of_named {word : String} {keyword : Keyword} (named : Named word keyword) :
    ofText word = keyword := by
  cases named with
  | builtin member => exact ofText_of_mem member
  | custom without =>
      have other : ∀ entry ∈ builtins, word ≠ entry.1 := by
        rintro ⟨_, keyword⟩ member rfl
        exact without keyword member
      simp only [builtins, List.forall_mem_cons] at other
      simp only [ofText, other, if_false]

/-- Every word names one keyword. -/
theorem named_iff {word : String} {keyword : Keyword} : Named word keyword ↔ ofText word = keyword := by
  refine ⟨ofText_of_named, ?_⟩
  rintro rfl
  by_cases own : ∃ keyword, (word, keyword) ∈ builtins
  · obtain ⟨keyword, member⟩ := own
    rw [ofText_of_mem member]
    exact .builtin member
  · have custom := Named.custom fun keyword member => own ⟨keyword, member⟩
    rwa [ofText_of_named custom]

end Keyword

namespace Marks

variable {openers : List String} {text rest path name : List Char} {word : String}

/-- The marks of a text that opens a block. -/
def opened (keyword : Keyword) (source : String) : Marks :=
  { plain source with keyword := some keyword }

theorem read_of_block {name : Option (List Char)}
    (matched : Text.block? (Text.alternation openers) text = some (word, path, name)) :
    read openers text = ({ opened (.ofText word) (String.ofList text) with
      aliasName := name.map String.ofList }, path) := by
  simp only [read, matched, opened]

theorem read_of_opener (trimmed : Text.Trimmed text)
    (opens : Text.firstWord? openers text = some (word, rest)) (absent : Text.splitAlias? rest = none) :
    read openers text = (opened (.ofText word) (String.ofList text), rest) := by
  have matched := Text.block?_of_firstWord? trimmed opens
  rw [Text.splitPath, absent] at matched
  exact read_of_block matched

theorem read_of_alias (trimmed : Text.Trimmed text)
    (opens : Text.firstWord? openers text = some (word, rest))
    (found : Text.splitAlias? rest = some (path, name)) :
    read openers text = ({ opened (.ofText word) (String.ofList text) with
      aliasName := some (String.ofList name) }, path) := by
  have matched := Text.block?_of_firstWord? trimmed opens
  rw [Text.splitPath, found] at matched
  exact read_of_block matched

theorem read_of_word (opens : Text.firstWord? openers text = none)
    (alone : String.ofList text ∈ ["else", "unbound", "bound"]) :
    read openers text = (opened (.ofText (String.ofList text)) (String.ofList text), []) := by
  simp only [read, Text.block?_eq_none opens, alone, if_true, opened]

theorem read_of_slash (opens : Text.firstWord? openers ('/' :: rest) = none) :
    read openers ('/' :: rest) = (ending (String.ofList ('/' :: rest)) rest, []) := by
  have alone : String.ofList ('/' :: rest) ∉ ["else", "unbound", "bound"] := by
    simp [← String.toList_inj]
  simp only [read, Text.block?_eq_none opens, alone, if_false]

theorem read_of_value (opens : Text.firstWord? openers text = none)
    (alone : String.ofList text ∉ ["else", "unbound", "bound"]) (slash : text.head? ≠ some '/') :
    read openers text = (ValueWord.marksOf (String.ofList text) (ValueWord.readAll text).1,
      (ValueWord.readAll text).2) := by
  simp only [read, Text.block?_eq_none opens, alone, if_false]
  split
  · exact absurd rfl slash
  · rw [← ValueWord.foldl_mark_plain]

/-- What has a blank is none of the words that stand alone, and it is not empty. -/
theorem not_alone_of_any_isBlank (blank : text.any Text.isBlank = true) :
    String.ofList text ∉ ["", "else", "unbound", "bound"] := by
  intro member
  have dark : ∀ alone ∈ ["", "else", "unbound", "bound"], alone.toList.any Text.isBlank = false := by
    decide
  have without := dark _ member
  rw [String.toList_ofList, blank] at without
  cases without

/-- A text without blanks is read as a path, unless it is a keyword or an ending. -/
theorem read_of_dark (openers : List String) {text : List Char} (dark : text.any Text.isBlank = false)
    (word : String.ofList text ∉ ["else", "unbound", "bound"]) (ending : text.head? ≠ some '/') :
    read openers text = (.plain (String.ofList text), text) := by
  have opens : Text.firstWord? openers text = none :=
    Text.firstWord?_eq_none fun word _ => Text.afterWord?_eq_none dark word.toList
  have words : ValueWord.readAll text = ([], text) :=
    ValueWord.readAll_of_none
      (ValueWord.read?_eq_none fun word _ => Text.afterWord?_eq_none dark word.symbol)
  rw [read_of_value opens word ending, words]
  rfl

/-- The ways to read a source, with the marks and the path that each of them gives: by a word that
opens a block, with an alias or without, as a word alone, as an ending, and as a value. -/
inductive Form (openers : List String) (text : List Char) : Marks → List Char → Prop where
  | opener {word : String} {rest : List Char} : Text.firstWord? openers text = some (word, rest) →
      Text.splitAlias? rest = none →
      Form openers text (opened (.ofText word) (String.ofList text)) rest
  | aliased {word : String} {rest path name : List Char} :
      Text.firstWord? openers text = some (word, rest) → Text.splitAlias? rest = some (path, name) →
      Form openers text { opened (.ofText word) (String.ofList text) with
        aliasName := some (String.ofList name) } path
  | word : Text.firstWord? openers text = none → String.ofList text ∈ ["else", "unbound", "bound"] →
      Form openers text (opened (.ofText (String.ofList text)) (String.ofList text)) []
  | ending {rest : List Char} : Text.firstWord? openers text = none → text = '/' :: rest →
      Form openers text (ending (String.ofList text) rest) []
  | value : Text.firstWord? openers text = none →
      String.ofList text ∉ ["else", "unbound", "bound"] → text.head? ≠ some '/' →
      Form openers text (ValueWord.marksOf (String.ofList text) (ValueWord.readAll text).1)
        (ValueWord.readAll text).2

theorem form_read (openers : List String) {text : List Char} (trimmed : Text.Trimmed text) :
    Form openers text (read openers text).1 (read openers text).2 := by
  cases opens : Text.firstWord? openers text with
  | some found =>
      obtain ⟨word, rest⟩ := found
      cases split : Text.splitAlias? rest with
      | none =>
          rw [read_of_opener trimmed opens split]
          exact .opener opens split
      | some parts =>
          rw [read_of_alias trimmed opens split]
          exact .aliased opens split
  | none =>
      by_cases alone : String.ofList text ∈ ["else", "unbound", "bound"]
      · rw [read_of_word opens alone]
        exact .word opens alone
      · by_cases slash : text.head? = some '/'
        · obtain ⟨rest, rfl⟩ := List.head?_eq_some_iff.1 slash
          rw [read_of_slash opens]
          exact .ending opens rfl
        · rw [read_of_value opens alone slash]
          exact .value opens alone slash

/-- A keyword comes without the marks of values, an ending with a keyword, and an alias with a
keyword that ends nothing. -/
structure Exclusive (marks : Marks) : Prop where
  value : marks.keyword.isSome = true →
    marks.unescaped = false ∧ marks.binding = none ∧ marks.isView = false
  ending : marks.isEnd = true → marks.keyword.isSome = true ∧ marks.aliasName = none
  named : marks.aliasName.isSome = true → marks.keyword.isSome = true ∧ marks.isEnd = false

theorem Form.exclusive {marks : Marks} (form : Form openers text marks path) : marks.Exclusive := by
  cases form with
  | opener | aliased | word => exact ⟨fun _ => ⟨rfl, rfl, rfl⟩, nofun, fun _ => ⟨rfl, rfl⟩⟩
  | ending => exact ⟨fun _ => ⟨rfl, rfl, rfl⟩, fun _ => ⟨rfl, rfl⟩, nofun⟩
  | value => exact ⟨nofun, nofun, nofun⟩

end Marks

namespace Expression

variable {openers : List String} {source : String} {expression : Expression}

theorem parse_eq_ok_iff : parse openers source = .ok expression ↔
    ∃ path, Marks.read openers (Text.trim source.toList) = (expression.marks, path) ∧
      pathTree path = .ok expression.expr := by
  unfold parse
  constructor
  · intro parsed
    cases read : Marks.read openers (Text.trim source.toList) with
    | mk marks path =>
        simp only [read] at parsed
        split at parsed
        · rename_i expr tree
          cases parsed
          exact ⟨path, rfl, tree⟩
        · exact absurd parsed (by simp)
  · rintro ⟨path, read, tree⟩
    simp only [read, tree]

theorem exclusive_of_parse (parsed : parse openers source = .ok expression) :
    expression.marks.Exclusive := by
  obtain ⟨path, read, -⟩ := parse_eq_ok_iff.1 parsed
  have form := Marks.form_read openers (Text.trimmed_trim source.toList)
  rw [read] at form
  exact form.exclusive

/-- Blocks do not refer to views. -/
theorem isView_of_parse (parsed : parse openers source = .ok expression) {keyword : Keyword}
    (keyed : expression.marks.keyword = some keyword) : expression.marks.isView = false :=
  ((exclusive_of_parse parsed).value (Option.isSome_iff_exists.2 ⟨keyword, keyed⟩)).2.2

/-- Whatever words open blocks, an else stands for itself, -/
theorem parse_else (openers : List String) : parse openers "else" = .ok bareElse := by
  -- A word that opens a block has a blank after it.
  have opens : Text.firstWord? openers ['e', 'l', 's', 'e'] = none :=
    Text.firstWord?_eq_none fun word _ => Text.afterWord?_eq_none rfl word.toList
  have trimmed : Text.trim "else".toList = ['e', 'l', 's', 'e'] := by cbv
  rw [parse_eq_ok_iff, trimmed, Marks.read_of_word opens (by decide)]
  exact ⟨[], by cbv, rfl⟩

/-- and a slash ends any block. -/
theorem parse_slash (openers : List String) : parse openers "/" = .ok bareEnd := by
  have opens : Text.firstWord? openers ['/'] = none :=
    Text.firstWord?_eq_none fun word _ => Text.afterWord?_eq_none rfl word.toList
  have trimmed : Text.trim "/".toList = ['/'] := by cbv
  rw [parse_eq_ok_iff, trimmed, Marks.read_of_slash opens]
  exact ⟨[], by cbv, rfl⟩

end Expression

namespace Compiler

variable {compiler : Compiler}

theorem fragmentPieces_else :
    compiler.fragmentPieces (.delimited "else") = .ok [.expression .bareElse] :=
  fragmentPieces_delimited (by decide) (Expression.parse_else compiler.blocks.openers)

theorem fragmentPieces_slash :
    compiler.fragmentPieces (.delimited "/") = .ok [.expression .bareEnd] :=
  fragmentPieces_delimited (by decide) (Expression.parse_slash compiler.blocks.openers)

end Compiler

end Stencil
