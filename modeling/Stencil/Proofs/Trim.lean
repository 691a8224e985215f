import Mathlib.Data.List.Basic
import Mathlib.Tactic.Conv
import Stencil.Proofs.Run
import Stencil.Text.Blank

/-! Texts without the blanks around them. -/

set_option autoImplicit false

namespace Stencil.Text

/-- A text with no blank at its ends. -/
structure Trimmed (text : List Char) : Prop where
  begins : ∀ c ∈ text.head?, isBlank c = false
  ends : ∀ c ∈ text.getLast?, isBlank c = false

theorem head?_trimStart (text : List Char) : ∀ c ∈ (trimStart text).head?, isBlank c = false :=
  stop_dropWhile isBlank text

theorem exists_blanks_append_trimStart (text : List Char) :
    ∃ lead, text = lead ++ trimStart text ∧ ∀ c ∈ lead, isBlank c = true :=
  ⟨text.takeWhile isBlank, List.takeWhile_append_dropWhile.symm, List.all_eq_true.1 List.all_takeWhile⟩

theorem exists_trimEnd_append_blanks (text : List Char) :
    ∃ trail, text = trimEnd text ++ trail ∧ ∀ c ∈ trail, isBlank c = true := by
  obtain ⟨trail, same, areBlank⟩ := exists_blanks_append_trimStart text.reverse
  refine ⟨trail.reverse, ?_, fun c member => areBlank c (List.mem_reverse.1 member)⟩
  conv_lhs => rw [← List.reverse_reverse text, same, List.reverse_append]
  rfl

theorem trimmed_trim (text : List Char) : Trimmed (trim text) := by
  constructor
  · intro c head
    obtain ⟨trail, same, -⟩ := exists_trimEnd_append_blanks (trimStart text)
    apply head?_trimStart text
    rw [same, List.head?_append_of_ne_nil _ (by rintro none; rw [trim, none] at head; cases head)]
    exact head
  · rw [trim, trimEnd, List.getLast?_reverse]
    exact head?_trimStart (trimStart text).reverse

theorem trimStart_of_trimmed {text : List Char} (trimmed : Trimmed text) : trimStart text = text :=
  @dropWhile_append_of_stop isBlank [] text nofun trimmed.begins

/-- The blanks around a text, and nothing else, are trimmed. -/
theorem trim_around {lead body trail : List Char} (before : ∀ c ∈ lead, isBlank c = true)
    (after : ∀ c ∈ trail, isBlank c = true) (trimmed : Trimmed body) (some : body ≠ []) :
    trim (lead ++ (body ++ trail)) = body := by
  have start : trimStart (lead ++ (body ++ trail)) = body ++ trail :=
    dropWhile_append_of_stop before (by
      rw [List.head?_append_of_ne_nil _ some]
      exact trimmed.begins)
  have ends : trimStart (trail.reverse ++ body.reverse) = body.reverse :=
    dropWhile_append_of_stop (by simpa using after) (by
      rw [List.head?_reverse]
      exact trimmed.ends)
  rw [trimStart] at ends
  rw [trim, start, trimEnd, List.reverse_append, ends, List.reverse_reverse]

/-- A text is its trimmed form and the blanks around it. -/
theorem exists_around (text : List Char) : ∃ lead trail, text = lead ++ (trim text ++ trail) ∧
    (∀ c ∈ lead, isBlank c = true) ∧ ∀ c ∈ trail, isBlank c = true := by
  obtain ⟨lead, first, before⟩ := exists_blanks_append_trimStart text
  obtain ⟨trail, last, after⟩ := exists_trimEnd_append_blanks (trimStart text)
  exact ⟨lead, trail, first.trans (congrArg (lead ++ ·) last), before, after⟩

theorem trim_of_trimmed {text : List Char} (trimmed : Trimmed text) : trim text = text := by
  cases text with
  | nil => rfl
  | cons c rest => simpa using @trim_around [] (c :: rest) [] nofun nofun trimmed (by simp)

end Stencil.Text
