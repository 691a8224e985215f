import Stencil.Failure
import Stencil.Reading
import Stencil.Text.Search

/-! Splitting text into literal runs and delimited contents.

A delimiter opens with two braces. From there on every brace counts, one way or
the other, and the delimiter ends at the brace where the count is even. The two
bytes before that point are cut off the content.
-/

set_option autoImplicit false

namespace Stencil

inductive Fragment where
  | literal (text : String)
  | delimited (content : String)
  deriving DecidableEq, Repr

namespace Fragment

def opening : List Char := ['{', '{']

/-- The text up to the brace that closes the given number of open ones, and
what follows it. -/
def balance : Nat → List Char → Option (List Char × List Char)
  | 0, text => some ([], text)
  | _ + 1, [] => none
  | opened + 1, c :: rest =>
      let depth := if c = '{' then opened + 2 else if c = '}' then opened else opened + 1
      (balance depth rest).map fun (inside, after) => (c :: inside, after)

theorem balance_append {depth : Nat} {text inside after : List Char}
    (found : balance depth text = some (inside, after)) : inside ++ after = text := by
  induction text generalizing depth inside with
  | nil =>
      cases depth with
      | zero =>
          obtain ⟨rfl, rfl⟩ := Prod.mk.inj (Option.some.inj found)
          rfl
      | succ depth => exact absurd found (by simp [balance])
  | cons c rest ih =>
      cases depth with
      | zero =>
          obtain ⟨rfl, rfl⟩ := Prod.mk.inj (Option.some.inj found)
          rfl
      | succ depth =>
          obtain ⟨⟨inner, tail⟩, inward, same⟩ := Option.map_eq_some_iff.1 found
          obtain ⟨rfl, rfl⟩ := Prod.mk.inj same
          exact congrArg (c :: ·) (ih inward)

/-- The content of a delimiter, from the text after its opening up to the point
of balance: what stands before the last two bytes, if a character ends there. -/
def content? (inside : List Char) : Option (List Char) :=
  match inside.dropLast.getLast? with
  | some c => if c.utf8Size = 1 then some inside.dropLast.dropLast else none
  | none => none

/-- A delimiter with the text on both sides of it. -/
structure Segment where
  before : List Char
  content : List Char
  rest : List Char

/-- The first delimiter of a text, if it has one. Faults name the whole of the text
that is split. -/
def segment? (whole : String) (text : List Char) : Except Cause (Option Segment) :=
  match Text.split? opening text with
  | none => .ok none
  | some (before, after) =>
      match balance 2 after with
      | none => .error (.openBraces whole)
      | some (inside, rest) =>
          match content? inside with
          | none => .error (.cutCharacter whole)
          | some content => .ok (some ⟨before, content, rest⟩)

theorem length_of_segment? {whole : String} {text : List Char} {segment : Segment}
    (found : segment? whole text = .ok (some segment)) : segment.rest.length < text.length := by
  simp only [segment?] at found
  split at found
  · cases found
  rename_i opened
  split at found
  · cases found
  rename_i closed
  split at found
  · cases found
  cases found
  have outer := congrArg List.length (Text.split?_append opened)
  have inner := congrArg List.length (balance_append closed)
  simp only [List.length_append, opening, List.length_cons, List.length_nil] at outer inner ⊢
  omega

/-- The fragments of a text, up to the first delimiter at fault. -/
def splitFrom (whole : String) (text : List Char) : Reading Fragment Cause :=
  match found : segment? whole text with
  | .error cause => .failed cause
  | .ok none => if text.isEmpty then .nil else ⟨[.literal (String.ofList text)], none⟩
  | .ok (some segment) =>
      have := length_of_segment? found
      let reading := (splitFrom whole segment.rest).cons (.delimited (String.ofList segment.content))
      if segment.before.isEmpty then reading
      else reading.cons (.literal (String.ofList segment.before))
termination_by text.length

/-- The fragments of a text in order. -/
def split (text : String) : Reading Fragment Cause :=
  splitFrom text text.toList

end Fragment

end Stencil
