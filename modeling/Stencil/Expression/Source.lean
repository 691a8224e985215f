import Stencil.Expr.Grammar
import Stencil.Expression.Basic
import Stencil.Expression.Pattern
import Stencil.Expression.Words
import Stencil.Failure

/-! Reading template expressions from the text between delimiters.

A block keyword at the start, a bare keyword, a slash, or any number of value
words are taken off first; what is left is a path expression.
-/

set_option autoImplicit false

namespace Stencil

/-- Words that may stand before the path of a value, in any order and number. -/
inductive ValueWord where
  | view
  | unbound
  | bound
  | unescaped
  deriving DecidableEq, Repr

namespace ValueWord

def symbol : ValueWord → List Char
  | .view => ['v', 'i', 'e', 'w']
  | .unbound => ['u', 'n', 'b', 'o', 'u', 'n', 'd']
  | .bound => ['b', 'o', 'u', 'n', 'd']
  | .unescaped => ['u', 'n', 'e', 's', 'c', 'a', 'p', 'e', 'd']

def all : List ValueWord :=
  [.view, .unbound, .bound, .unescaped]

def mark (marks : Marks) : ValueWord → Marks
  | .view => { marks with isView := true }
  | .unbound => { marks with binding := some .unbound }
  | .bound => { marks with binding := some .bound }
  | .unescaped => { marks with unescaped := true }

/-- A value word and the blanks after it, at the start of a text. -/
def read? (text : List Char) : Option (ValueWord × List Char) :=
  all.findSome? fun word => (Text.afterWord? word.symbol text).map (word, ·)

theorem length_of_read? {text rest : List Char} {word : ValueWord}
    (found : read? text = some (word, rest)) : rest.length < text.length := by
  obtain ⟨other, _, matched⟩ := List.exists_of_findSome?_eq_some found
  obtain ⟨after, stripped, same⟩ := Option.map_eq_some_iff.1 matched
  obtain ⟨rfl, rfl⟩ := Prod.mk.inj same
  exact Text.length_of_afterWord? stripped

/-- All value words at the start of a text, and the path after them. -/
def readAll (text : List Char) : List ValueWord × List Char :=
  match found : read? text with
  | none => ([], text)
  | some (word, rest) =>
      have := length_of_read? found
      let (words, path) := readAll rest
      (word :: words, path)
termination_by text.length

end ValueWord

namespace Marks

/-- The marks of an ending, from the text after its slash. -/
def ending (source : String) (rest : List Char) : Marks :=
  let word := Text.trim rest
  let keyword := if word.isEmpty then .close else Keyword.ofText (String.ofList word)
  { plain source with keyword := some keyword, isEnd := true }

/-- The marks of a trimmed source, and the text of its path. -/
def read (openers : List String) (text : List Char) : Marks × List Char :=
  let source := String.ofList text
  match Text.block? (Text.alternation openers) text with
  | some (word, path, name) =>
      ({ plain source with
        keyword := some (.ofText word)
        aliasName := name.map String.ofList }, path)
  | none =>
      if source ∈ ["else", "unbound", "bound"] then
        ({ plain source with keyword := some (Keyword.ofText source) }, [])
      else match text with
        | '/' :: rest => (ending source rest, [])
        | _ =>
            let (words, path) := ValueWord.readAll text
            (words.foldl ValueWord.mark (plain source), path)

end Marks

namespace Expression

/-- The tree of a path; no text is the empty tree. -/
def pathTree (path : List Char) : Except SyntaxError Expr :=
  if path.isEmpty then .ok .empty else Expr.parse (String.ofList path)

/-- The expression of the text between two delimiters, where the given words
open blocks. -/
def parse (openers : List String) (source : String) : Except Failure Expression :=
  let (marks, path) := Marks.read openers (Text.trim source.toList)
  match pathTree path with
  | .ok expr => .ok ⟨expr, marks⟩
  | .error e => .error ((Failure.of (.syntaxError e)).within (.expression marks.source))

end Expression

end Stencil
