import Stencil.Text.Digits

/-! Character references in markup. -/

set_option autoImplicit false

namespace Stencil.Entity

/-- The references that have names. -/
def named : List (String × Char) :=
  [("amp", '&'), ("lt", '<'), ("gt", '>'), ("quot", '"'), ("apos", '\''), ("nbsp", '\u00a0'),
   ("copy", '\u00a9'), ("reg", '\u00ae'), ("trade", '\u2122'), ("hellip", '\u2026'),
   ("mdash", '\u2014'), ("ndash", '\u2013'), ("lsquo", '\u2018'), ("rsquo", '\u2019'),
   ("ldquo", '\u201c'), ("rdquo", '\u201d'), ("laquo", '\u00ab'), ("raquo", '\u00bb'),
   ("bull", '\u2022'), ("middot", '\u00b7'), ("times", '\u00d7'), ("divide", '\u00f7'),
   ("euro", '\u20ac')]

def isReferenceChar (c : Char) : Bool :=
  c.isAlphanum || c == '#'

/-- The character that a reference stands for, from what is between its
ampersand and its semicolon. -/
def charOf? : List Char → Option Char
  | '#' :: mark :: digits =>
      if mark = 'x' || mark = 'X' then
        if !digits.isEmpty && digits.all Text.isHexDigit then Text.charOf? (Text.ofHex digits) else none
      else if (mark :: digits).all Char.isDigit then Text.charOf? (Text.ofDecimal (mark :: digits))
      else none
  | name => named.lookup (String.ofList name)

/-- The character of a reference, and what follows it, from the text after an
ampersand. -/
def read? (text : List Char) : Option (Char × List Char) :=
  match text.dropWhile isReferenceChar with
  | ';' :: after => (charOf? (text.takeWhile isReferenceChar)).map (·, after)
  | _ => none

theorem length_of_read? {text after : List Char} {c : Char} (found : read? text = some (c, after)) :
    after.length < text.length := by
  unfold read? at found
  split at found
  · rename_i tail stopped
    obtain ⟨d, _, same⟩ := Option.map_eq_some_iff.1 found
    obtain ⟨rfl, rfl⟩ := Prod.mk.inj same
    have whole := congrArg List.length (List.takeWhile_append_dropWhile (p := isReferenceChar) (l := text))
    simp only [stopped, List.length_append, List.length_cons] at whole
    omega
  · exact absurd found (by simp)

/-- The text with every known reference replaced by its character, once. -/
def decode : List Char → List Char
  | [] => []
  | c :: rest =>
      if c ≠ '&' then c :: decode rest
      else match found : read? rest with
        | some (named, after) =>
            have := length_of_read? found
            named :: decode after
        | none => c :: decode rest
termination_by text => text.length

end Stencil.Entity

namespace Stencil

/-- A text with its character references decoded. -/
def unescapeEntities (text : String) : String :=
  String.ofList (Entity.decode text.toList)

end Stencil
