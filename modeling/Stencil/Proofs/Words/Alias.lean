import Stencil.Proofs.Words

/-! The alias at the end of a text.

What looks like an alias is found from the end of a text, and a text ends in at most one.
-/

set_option autoImplicit false

namespace Stencil.Text

variable {text path name : List Char}

/-- A text split at its last `as`: what stands before it, and the one word that
stands after it. -/
def splitAlias? (text : List Char) : Option (List Char × List Char) :=
  let backward := text.reverse
  let name := backward.takeWhile (!isBlank ·)
  match afterWord? ['s', 'a'] (trimStart (backward.dropWhile (!isBlank ·))) with
  | none => none
  | some rest =>
      if name.isEmpty || rest.isEmpty then none else some (rest.reverse, name.reverse)

/-- A text that ends in the word `as`, blanks, and one more word, after a path. -/
structure NamesAlias (text path name : List Char) : Prop where
  spelled : ∃ gap blanks, text = path ++ (gap ++ ('a' :: 's' :: (blanks ++ name))) ∧
    gap ≠ [] ∧ blanks ≠ [] ∧ ∀ c ∈ gap ++ blanks, isBlank c = true
  word : name ≠ [] ∧ ∀ c ∈ name, isBlank c = false
  path : path ≠ [] ∧ ∀ c ∈ path.getLast?, isBlank c = false

/-- An alias that is split off is one that the text ends in. -/
theorem namesAlias_of_splitAlias? (found : splitAlias? text = some (path, name)) :
    NamesAlias text path name := by
  simp only [splitAlias?] at found
  split at found
  · cases found
  rename_i rest matched
  split at found
  · cases found
  rename_i filled
  simp only [Bool.or_eq_true, List.isEmpty_iff, not_or] at filled
  obtain ⟨named, before⟩ := filled
  cases found
  obtain ⟨blank, more, sa, isBlank, rfl⟩ := afterWord?_eq_some_iff.1 matched
  obtain ⟨blanks, same, areBlank⟩ :=
    exists_blanks_append_trimStart (text.reverse.dropWhile (!Text.isBlank ·))
  obtain ⟨gap, spread, fill⟩ := exists_blanks_append_trimStart more
  have backward := (List.takeWhile_append_dropWhile (p := (!Text.isBlank ·)) (l := text.reverse)).symm
  rw [same, sa, spread] at backward
  refine ⟨⟨(blank :: gap).reverse, blanks.reverse, ?_, by simp, ?_, ?_⟩, ⟨?_, ?_⟩, ⟨?_, ?_⟩⟩
  · conv_lhs => rw [← List.reverse_reverse text, backward]
    simp
  · intro none
    -- The last word ends at a blank, and not at the one before it.
    rw [List.reverse_eq_nil_iff.1 none, sa] at same
    have stopped := stop_dropWhile (!Text.isBlank ·) text.reverse
    rw [same] at stopped
    exact absurd (stopped 's' rfl) (by decide)
  · intro c member
    simp only [List.mem_append, List.mem_reverse, List.mem_cons] at member
    rcases member with (rfl | among) | among
    · exact isBlank
    · exact fill c among
    · exact areBlank c among
  · simpa using named
  · intro c member
    simpa using List.all_eq_true.1 List.all_takeWhile c (List.mem_reverse.1 member)
  · simpa using before
  · rw [List.getLast?_reverse]
    exact head?_trimStart more

/-- The alias that a text ends in is split off. -/
theorem splitAlias?_of_namesAlias (names : NamesAlias text path name) :
    splitAlias? text = some (path, name) := by
  obtain ⟨⟨gap, blanks, rfl, apart, between, areBlank⟩, ⟨named, dark⟩, before, ends⟩ := names
  obtain ⟨gapBlank, blanksBlank⟩ := List.forall_mem_append.1 areBlank
  have backward : (path ++ (gap ++ 'a' :: 's' :: (blanks ++ name))).reverse =
      name.reverse ++ (blanks.reverse ++ ('s' :: 'a' :: (gap.reverse ++ path.reverse))) := by simp
  have stop : ∀ c ∈ (blanks.reverse ++ ('s' :: 'a' :: (gap.reverse ++ path.reverse))).head?,
      (!isBlank c) = false := by
    intro c head
    rw [List.head?_append_of_ne_nil _ (by simpa using between)] at head
    simpa using blanksBlank c (List.mem_reverse.1 (List.mem_of_mem_head? head))
  have word : ∀ c ∈ name.reverse, (!isBlank c) = true := by simpa using dark
  have inner : trimStart (blanks.reverse ++ ('s' :: 'a' :: (gap.reverse ++ path.reverse))) =
      ['s', 'a'] ++ (gap.reverse ++ path.reverse) :=
    dropWhile_append_of_stop (by simpa using blanksBlank) (stop_cons (by decide) _)
  have found : afterWord? ['s', 'a'] (['s', 'a'] ++ (gap.reverse ++ path.reverse)) =
      some path.reverse := by
    cases same : gap.reverse with
    | nil => exact absurd (List.reverse_eq_nil_iff.1 same) apart
    | cons blank more =>
        have areBlank : ∀ c ∈ blank :: more, isBlank c = true := by
          rw [← same]
          simpa using gapBlank
        obtain ⟨first, others⟩ := List.forall_mem_cons.1 areBlank
        have rest : trimStart (more ++ path.reverse) = path.reverse :=
          dropWhile_append_of_stop others (by simpa [List.head?_reverse] using ends)
        exact (afterWord?_append first _ _).trans (congrArg some rest)
  simp only [splitAlias?, backward, takeWhile_append_of_stop word stop,
    dropWhile_append_of_stop word stop, inner, found]
  simp [named, before]

/-- A text ends in at most one alias. -/
theorem NamesAlias.unique {before last : List Char} (here : NamesAlias text path name)
    (there : NamesAlias text before last) : before = path ∧ last = name := by
  have same := (splitAlias?_of_namesAlias there).symm.trans (splitAlias?_of_namesAlias here)
  exact Prod.mk.inj (Option.some.inj same)

theorem splitAlias?_eq_none_iff :
    splitAlias? text = none ↔ ∀ path name, ¬ NamesAlias text path name := by
  rw [Option.eq_none_iff_forall_not_mem]
  constructor
  · exact fun none path name names => none (path, name) (splitAlias?_of_namesAlias names)
  · exact fun none split found => none split.1 split.2 (namesAlias_of_splitAlias? found)

end Stencil.Text
