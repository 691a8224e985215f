import Stencil.Text.Blank
import Stencil.Text.Bytes
import Stencil.Text.Search

/-! The pattern of an expression that opens a block.

A keyword, blanks and a path, and then perhaps blanks, `as`, blanks and a name, up to the end. A
part that can match in several ways tries them in order, and takes the first one after which all
that follows matches too.
-/

set_option autoImplicit false

namespace Stencil.Text

/-- Longer words come first, and words of one size in alphabetical order. -/
def comesFirst (first second : String) : Bool :=
  byteSize second.toList < byteSize first.toList ||
    (byteSize first.toList == byteSize second.toList && decide (first ≤ second))

/-- A word at its place among others that are in order. -/
def place (word : String) : List String → List String
  | [] => [word]
  | other :: others =>
      match comesFirst word other with
      | true => word :: other :: others
      | false => other :: place word others

/-- Some words in the order in which they are tried, each of them once. -/
def alternation (words : List String) : List String :=
  (words.foldr place []).eraseReps

section

variable {α : Type}

/-- One character of a class or more, as many as there can be before what follows. -/
def most? (p : Char → Bool) (next : List Char → Option α) : List Char → Option (List Char × α)
  | [] => none
  | c :: rest =>
      if p c then
        match most? p next rest with
        | some (run, found) => some (c :: run, found)
        | none => (next rest).map ([c], ·)
      else none

/-- One character or more, as few as there can be before what follows. -/
def fewest? (next : List Char → Option α) : List Char → Option (List Char × α)
  | [] => none
  | c :: rest =>
      match next rest with
      | some found => some ([c], found)
      | none => (fewest? next rest).map fun (run, found) => (c :: run, found)

end

def atEnd? (text : List Char) : Option Unit :=
  if text.isEmpty then some () else none

/-- The name of an alias, which ends the text. -/
def name? (text : List Char) : Option (List Char) :=
  (most? (!isBlank ·) atEnd? text).map (·.1)

/-- The name after `as` and blanks. -/
def named? (text : List Char) : Option (List Char) :=
  (strip? ['a', 's'] text).bind fun rest => (most? isBlank name? rest).map (·.2)

/-- An alias if there is one, and the end of the text if there is none. -/
def alias? (text : List Char) : Option (Option (List Char)) :=
  match most? isBlank named? text with
  | some (_, name) => some (some name)
  | none => (atEnd? text).map fun _ => none

/-- A path and its alias. -/
def path? (text : List Char) : Option (List Char × Option (List Char)) :=
  fewest? alias? text

/-- A keyword, and the path and the alias after it. -/
def keyed? (text : List Char) (keyword : String) : Option (String × List Char × Option (List Char)) :=
  (strip? keyword.toList text).bind fun rest =>
    (most? isBlank path? rest).map fun (_, found) => (keyword, found)

/-- The first of some keywords that the text matches, in the order in which they are tried. -/
def block? (keywords : List String) (text : List Char) :
    Option (String × List Char × Option (List Char)) :=
  keywords.findSome? (keyed? text)

end Stencil.Text
