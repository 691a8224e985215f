/-! Runs of characters of a class, up to a character of another one. -/

set_option autoImplicit false

namespace Stencil.Text

variable {p : Char → Bool} {run rest : List Char}

theorem takeWhile_append_of_stop (inside : ∀ c ∈ run, p c = true)
    (stop : ∀ c ∈ rest.head?, p c = false) :
    (run ++ rest).takeWhile p = run := by
  rw [List.takeWhile_append_of_pos inside]
  cases rest with
  | nil => simp
  | cons c rest => simp [stop c rfl]

-- What ends a run is most often known as a character.
theorem stop_cons {c : Char} (stop : p c = false) (rest : List Char) :
    ∀ d ∈ (c :: rest).head?, p d = false := by
  rintro d same
  cases same
  exact stop

theorem dropWhile_append_of_stop (inside : ∀ c ∈ run, p c = true)
    (stop : ∀ c ∈ rest.head?, p c = false) :
    (run ++ rest).dropWhile p = rest := by
  rw [List.dropWhile_append_of_pos inside]
  cases rest with
  | nil => rfl
  | cons c rest => simp [stop c rfl]

theorem stop_dropWhile (p : Char → Bool) (text : List Char) :
    ∀ c ∈ (text.dropWhile p).head?, p c = false := by
  intro c head
  have stopped := List.head?_dropWhile_not p text
  rw [head] at stopped
  exact stopped

/-- A text is a run of a class and what stops it. -/
theorem exists_run (p : Char → Bool) (text : List Char) :
    ∃ run rest, text = run ++ rest ∧ (∀ c ∈ run, p c = true) ∧ ∀ c ∈ rest.head?, p c = false :=
  ⟨text.takeWhile p, text.dropWhile p, List.takeWhile_append_dropWhile.symm,
    List.all_eq_true.1 List.all_takeWhile, stop_dropWhile p text⟩

end Stencil.Text
