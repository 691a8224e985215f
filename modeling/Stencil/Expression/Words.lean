import Stencil.Text.Blank
import Stencil.Text.Search

/-! Words at the start of a text. -/

set_option autoImplicit false

namespace Stencil.Text

/-- What follows a word and the blanks after it, of which there is at least one. -/
def afterWord? (word text : List Char) : Option (List Char) :=
  match strip? word text with
  | some (blank :: rest) => if isBlank blank then some (trimStart rest) else none
  | _ => none

theorem length_of_afterWord? {word text rest : List Char} (found : afterWord? word text = some rest) :
    rest.length < text.length := by
  unfold afterWord? at found
  split at found
  · rename_i blank tail stripped
    split at found
    · obtain rfl := Option.some.inj found
      have whole := congrArg List.length (strip?_eq_some_iff.1 stripped)
      have := length_trimStart_le tail
      simp only [List.length_append, List.length_cons] at whole
      omega
    · exact absurd found (by simp)
  · exact absurd found (by simp)

end Stencil.Text
