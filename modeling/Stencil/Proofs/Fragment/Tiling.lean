import Mathlib
import Stencil.Proofs.Fragment.Cut
import Stencil.Template.Compile

/-! What splitting keeps of a text.

The fragments hold all of a text but one character of each delimiter: the one before
the last brace is cut off the content, whether it is a brace or not.
-/

set_option autoImplicit false

namespace Stencil.Fragment

/-- Literals as they are, and contents between two opening braces and a last
brace with one more character of one byte before it. -/
inductive Tiles : List Fragment → List Char → Prop where
  | nil : Tiles [] []
  | literal {text : String} {rest : List Fragment} {more : List Char} :
      Tiles rest more → Tiles (.literal text :: rest) (text.toList ++ more)
  | delimited {content : String} {c : Char} {rest : List Fragment} {more : List Char} :
      c.utf8Size = 1 → Tiles rest more →
      Tiles (.delimited content :: rest) (opening ++ (content.toList ++ c :: '}' :: more))

/-- Every delimiter of the text, one after another, ends in two closing braces. -/
inductive Shut : List Char → Prop where
  | plain {text : List Char} : Text.split? opening text = none → Shut text
  | delimited {text before content rest : List Char} :
      Delimits text before (content ++ ['}', '}']) rest → Shut rest → Shut text

/-- The literal of a text, if there is any text. -/
def literals (text : List Char) : List Fragment :=
  if text.isEmpty then [] else [.literal (String.ofList text)]

@[simp] theorem flatMap_written_literals (text : List Char) : (literals text).flatMap written = text := by
  unfold literals
  cases text with
  | nil => rfl
  | cons c rest => simp [written]

theorem Tiles.literals {rest : List Fragment} {more : List Char} (tiles : Tiles rest more)
    (text : List Char) : Tiles (literals text ++ rest) (text ++ more) := by
  unfold Fragment.literals
  cases text with
  | nil => exact tiles
  | cons c text =>
      have tile : Tiles (_ :: rest) ((String.ofList (c :: text)).toList ++ more) := .literal tiles
      simpa using tile

theorem splitFrom_plain (whole : String) {text : List Char} (plain : Text.split? opening text = none) :
    splitFrom whole text = ⟨literals text, none⟩ := by
  rw [splitFrom_unopened whole plain, literals]
  split <;> rfl

namespace Delimits

variable {text before inside rest content : List Char}

theorem items_splitFrom (delimits : Delimits text before inside rest)
    (found : content? inside = some content) (whole : String) :
    (splitFrom whole text).items =
      literals before ++ .delimited (String.ofList content) :: (splitFrom whole rest).items := by
  rw [splitFrom_opened whole delimits.opened]
  simp only [delimits.closed, found]
  unfold literals
  split <;> rfl

/-- The content stands before the last brace and one more character. -/
theorem eq_concat_of_content? (delimits : Delimits text before inside rest)
    (found : content? inside = some content) : ∃ c, c.utf8Size = 1 ∧ inside = content ++ [c, '}'] := by
  obtain ⟨front, c, rfl⟩ := delimits.exists_concat
  rw [content?_concat] at found
  split at found
  · rename_i narrow
    obtain rfl := Option.some.inj found
    exact ⟨c, narrow, rfl⟩
  · exact absurd found (by simp)

/-- The cuts of a delimiter are the whole text exactly if it ends in two braces. -/
theorem append_content_eq_iff (delimits : Delimits text before inside rest)
    (found : content? inside = some content) :
    before ++ (opening ++ (content ++ '}' :: '}' :: rest)) = text ↔ inside = content ++ ['}', '}'] := by
  obtain ⟨c, -, rfl⟩ := delimits.eq_concat_of_content? found
  rw [← delimits.append_eq]
  simp [eq_comm]

theorem shut_iff (delimits : Delimits text before inside rest) :
    Shut text ↔ (∃ content, inside = content ++ ['}', '}']) ∧ Shut rest := by
  constructor
  · intro shut
    cases shut with
    | plain plain => exact absurd (plain.symm.trans delimits.opened) (by simp)
    | delimited other later =>
        obtain ⟨-, rfl, rfl⟩ := delimits.unique other
        exact ⟨⟨_, rfl⟩, later⟩
  · rintro ⟨⟨content, rfl⟩, later⟩
    exact .delimited delimits later

end Delimits

/-- A text that splits has no delimiter, or begins with one whose content is cut
between characters. -/
theorem plain_or_delimits {whole : String} {text : List Char}
    (split : (splitFrom whole text).fault = none) :
    Text.split? opening text = none ∨ ∃ before inside rest content,
      Delimits text before inside rest ∧ content? inside = some content ∧
        (splitFrom whole rest).fault = none := by
  cases opened : Text.split? opening text with
  | none => exact Or.inl rfl
  | some found =>
      obtain ⟨before, after⟩ := found
      right
      cases closed : balance 2 after with
      | none =>
          rw [splitFrom_opened whole opened, closed] at split
          cases split
      | some found =>
          obtain ⟨inside, rest⟩ := found
          obtain rfl := balance_append closed
          have delimits : Delimits text before inside rest := ⟨opened, closed⟩
          rw [delimits.fault_splitFrom] at split
          cases cut : content? inside with
          | none => simp [cut] at split
          | some content => exact ⟨before, inside, rest, content, delimits, cut, by simpa [cut] using split⟩

/-- Nothing but the character before a last brace is missing from the fragments. -/
theorem tiles_items (whole : String) (text : List Char) (split : (splitFrom whole text).fault = none) :
    Tiles (splitFrom whole text).items text := by
  rcases plain_or_delimits split with plain | ⟨before, inside, rest, content, delimits, found, later⟩
  · rw [splitFrom_plain whole plain]
    simpa using Tiles.nil.literals text
  · have shorter := delimits.length_lt
    obtain ⟨c, narrow, same⟩ := delimits.eq_concat_of_content? found
    rw [delimits.items_splitFrom found, ← delimits.append_eq, same]
    have tile := @Tiles.delimited (String.ofList content) _ _ _ narrow (tiles_items whole rest later)
    simpa using tile.literals before
termination_by text.length

theorem flatMap_written_items_iff (whole : String) (text : List Char)
    (split : (splitFrom whole text).fault = none) :
    (splitFrom whole text).items.flatMap written = text ↔ Shut text := by
  rcases plain_or_delimits split with plain | ⟨before, inside, rest, content, delimits, found, later⟩
  · rw [splitFrom_plain whole plain, flatMap_written_literals]
    exact iff_of_true rfl (.plain plain)
  · have shorter := delimits.length_lt
    have after := flatMap_written_items_iff whole rest later
    obtain ⟨c, -, same⟩ := delimits.eq_concat_of_content? found
    rw [delimits.shut_iff, delimits.items_splitFrom found]
    -- Up to the character in question both sides are the same.
    have whole_eq : before ++ (opening ++ (content ++ c :: '}' :: rest)) = text := by
      simpa [same] using delimits.append_eq
    conv => lhs; rhs; rw [← whole_eq]
    simp only [List.flatMap_append, flatMap_written_literals, List.flatMap_cons, written,
      String.toList_ofList, List.append_assoc, List.append_cancel_left_eq, List.cons_append,
      List.nil_append, List.cons.injEq, true_and, after]
    refine and_congr_left fun _ => ?_
    rw [same]
    constructor
    · rintro rfl
      exact ⟨content, rfl⟩
    · rintro ⟨other, equal⟩
      obtain ⟨-, tail⟩ := List.append_inj' equal rfl
      exact (List.cons.inj tail).1.symm
termination_by text.length

/-- A delimiter is its content between two pairs of braces exactly if two braces end
it. The fragments of a text are the text but for the characters before last braces,
so the literals and the contents between braces give the text back exactly if all
its delimiters end in two. -/
theorem flatMap_written_split_iff (source : String) :
    (∀ before inside rest content, Delimits source.toList before inside rest →
      content? inside = some content →
      (∃ c, c.utf8Size = 1 ∧
        before ++ (opening ++ (content ++ c :: '}' :: rest)) = source.toList) ∧
      (before ++ (opening ++ (content ++ '}' :: '}' :: rest)) = source.toList ↔
        inside = content ++ ['}', '}'])) ∧
    ((split source).fault = none → Tiles (split source).items source.toList ∧
      ((split source).items.flatMap written = source.toList ↔ Shut source.toList)) := by
  constructor
  · intro before inside rest content delimits found
    refine ⟨?_, delimits.append_content_eq_iff found⟩
    obtain ⟨c, narrow, rfl⟩ := delimits.eq_concat_of_content? found
    exact ⟨c, narrow, by simpa using delimits.append_eq⟩
  · intro split
    exact ⟨tiles_items source source.toList split,
      flatMap_written_items_iff source source.toList split⟩

/-- The delimiter ends in two braces, with braces inside it. -/
theorem flatMap_written_split_nested :
    Delimits "a{{{b}}}c".toList ['a'] ['{', 'b', '}', '}', '}'] ['c'] ∧
      content? ['{', 'b', '}', '}', '}'] = some ['{', 'b', '}'] ∧
      "a{{{b}}}c".toList = ['a'] ++ (opening ++ (['{', 'b', '}'] ++ '}' :: '}' :: ['c'])) ∧
      (split "a{{{b}}}c").fault = none ∧
      (split "a{{{b}}}c").items.flatMap written = "a{{{b}}}c".toList := by
  have delimits : Delimits "a{{{b}}}c".toList ['a'] ['{', 'b', '}', '}', '}'] ['c'] := ⟨rfl, rfl⟩
  have found : content? ['{', 'b', '}', '}', '}'] = some ['{', 'b', '}'] := by decide
  have split : (split "a{{{b}}}c").fault = none := by cbv
  have shut : Shut "a{{{b}}}c".toList :=
    @Shut.delimited _ _ ['{', 'b', '}'] _ delimits (.plain rfl)
  obtain ⟨cuts, texts⟩ := flatMap_written_split_iff "a{{{b}}}c"
  exact ⟨delimits, found, ((cuts _ _ _ _ delimits found).2.2 rfl).symm, split,
    (texts split).2.2 shut⟩

set_option maxRecDepth 20000 in
/-- A brace in quotes and one brace more balance the opening. The text compiles, and
the letter between the two is lost. -/
theorem flatMap_written_quoted_brace :
    (split "\x7b\x7b'a\x7d'b\x7d").items = [.delimited "'a\x7d'"] ∧
      (split "\x7b\x7b'a\x7d'b\x7d").items.flatMap written ≠ "\x7b\x7b'a\x7d'b\x7d".toList ∧
      Compiler.standard.compileString .detached "\x7b\x7b'a\x7d'b\x7d" =
        .ok [.dynamic ⟨.literal (.string "a\x7d"), .plain "'a\x7d'"⟩] := by
  have items : (split "\x7b\x7b'a\x7d'b\x7d").items = [.delimited "'a\x7d'"] := by cbv
  refine ⟨items, ?_, by cbv⟩
  rw [items]
  decide

end Stencil.Fragment
