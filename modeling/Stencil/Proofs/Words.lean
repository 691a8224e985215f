import Mathlib.Data.List.Induction
import Stencil.Expression.Words
import Stencil.Proofs.Trim

/-! Words at the start of a text, with blanks after them.

Of the words that a blank follows at the start of a text one is the longest, however the words
begin one another.
-/

set_option autoImplicit false

namespace Stencil.Text

theorem afterWord?_append {blank : Char} (isBlank : isBlank blank = true) (word rest : List Char) :
    afterWord? word (word ++ blank :: rest) = some (trimStart rest) := by
  simp [afterWord?, isBlank]

theorem afterWord?_eq_some_iff {word text rest : List Char} :
    afterWord? word text = some rest ↔
      ∃ blank more, text = word ++ blank :: more ∧ isBlank blank = true ∧ rest = trimStart more := by
  constructor
  · intro found
    unfold afterWord? at found
    split at found
    · rename_i blank more stripped
      split at found
      · rename_i isBlank
        cases found
        exact ⟨blank, more, (strip?_eq_some_iff.1 stripped).symm, isBlank, rfl⟩
      · cases found
    · cases found
  · rintro ⟨blank, more, rfl, isBlank, rfl⟩
    exact afterWord?_append isBlank word more

/-- No word ends in a blank where there is none. -/
theorem afterWord?_eq_none {text : List Char} (dark : text.any isBlank = false) (word : List Char) :
    afterWord? word text = none := by
  cases found : afterWord? word text with
  | none => rfl
  | some rest =>
      obtain ⟨blank, more, rfl, isBlank, -⟩ := afterWord?_eq_some_iff.1 found
      exact absurd isBlank (List.any_eq_false.1 dark blank (by simp))

/-- At a word no other word ends, unless it goes on with what is after that word. -/
theorem afterWord?_eq_none_of_apart {word other : List Char} {c : Char} (dark : other.any isBlank = false)
    (differs : word ≠ other) (apart : ¬ other ++ [c] <+: word) (rest : List Char) :
    afterWord? word (other ++ c :: rest) = none := by
  cases found : afterWord? word (other ++ c :: rest) with
  | none => rfl
  | some after =>
      obtain ⟨blank, more, spelled, isBlank, -⟩ := afterWord?_eq_some_iff.1 found
      rcases List.append_eq_append_iff.1 spelled with ⟨inside, rfl, later⟩ | ⟨inside, same, later⟩
      · cases inside with
        | nil => exact absurd (List.append_nil other) differs
        | cons first inside =>
            obtain ⟨rfl, -⟩ := List.cons.inj later
            exact absurd ⟨inside, by simp⟩ apart
      · -- The word is a part of the other, and the blank stands in the rest of it.
        cases inside with
        | nil => exact absurd (by simpa using same.symm) differs
        | cons first inside =>
            obtain ⟨rfl, -⟩ := List.cons.inj later
            exact absurd isBlank (List.any_eq_false.1 dark blank (by simp [same]))

variable {words : List String} {word other : String} {text rest after : List Char}

/-- A text that begins with a word and blanks after it, and then goes on with no blank. -/
structure Leads (word text rest : List Char) : Prop where
  spelled : ∃ blanks, text = word ++ (blanks ++ rest) ∧ blanks ≠ [] ∧ ∀ c ∈ blanks, isBlank c = true
  begins : ∀ c ∈ rest.head?, isBlank c = false

theorem leads_iff {word : List Char} : Leads word text rest ↔ afterWord? word text = some rest := by
  rw [afterWord?_eq_some_iff]
  constructor
  · rintro ⟨⟨blanks, rfl, some, areBlank⟩, begins⟩
    cases blanks with
    | nil => exact absurd rfl some
    | cons blank more =>
        obtain ⟨first, others⟩ := List.forall_mem_cons.1 areBlank
        exact ⟨blank, more ++ rest, rfl, first, (dropWhile_append_of_stop others begins).symm⟩
  · rintro ⟨blank, more, rfl, first, rfl⟩
    obtain ⟨blanks, same, areBlank⟩ := exists_blanks_append_trimStart more
    refine ⟨⟨blank :: blanks, ?_, by simp, List.forall_mem_cons.2 ⟨first, areBlank⟩⟩,
      head?_trimStart more⟩
    conv_lhs => rw [same]
    rfl

theorem Leads.unique {word : List Char} (here : Leads word text rest) (there : Leads word text after) :
    rest = after :=
  Option.some.inj ((leads_iff.1 here).symm.trans (leads_iff.1 there))

/-- A text without blanks at its end goes on after every word that leads it. -/
theorem Leads.ne_nil {word : List Char} (leads : Leads word text rest) (trimmed : Trimmed text) :
    rest ≠ [] := by
  rintro rfl
  obtain ⟨⟨blanks, rfl, some, areBlank⟩, -⟩ := leads
  obtain ⟨front, last, rfl⟩ := List.eq_nil_or_concat blanks |>.resolve_left some
  have dark := trimmed.ends last (by simp)
  exact absurd (dark.symm.trans (areBlank last (by simp))) (by simp)

theorem Leads.trimmed {word : List Char} (leads : Leads word text rest) (trimmed : Trimmed text) :
    Trimmed rest := by
  refine ⟨leads.begins, fun c last => trimmed.ends c ?_⟩
  obtain ⟨⟨blanks, rfl, -⟩, -⟩ := leads
  have filled : rest ≠ [] := by
    rintro rfl
    cases last
  rw [← List.append_assoc, List.getLast?_append_of_ne_nil _ filled]
  exact last

/-- A text that a word leads has a blank. -/
theorem Leads.any_isBlank {word : List Char} (leads : Leads word text rest) : text.any isBlank = true := by
  obtain ⟨⟨blanks, rfl, some, areBlank⟩, -⟩ := leads
  obtain ⟨blank, more, rfl⟩ := List.exists_cons_of_ne_nil some
  simp [areBlank blank List.mem_cons_self]

/-- A word that leads the text, and no word that leads it is longer. -/
structure Opens (words : List String) (text : List Char) (word : String) (rest : List Char) : Prop where
  member : word ∈ words
  leads : Leads word.toList text rest
  longest : ∀ other ∈ words, ∀ after, Leads other.toList text after → other.length ≤ word.length

/-- Words of one length that lead a text are one word. -/
theorem Opens.unique (here : Opens words text word rest) (there : Opens words text other after) :
    other = word ∧ after = rest := by
  have same : other.toList.length = word.toList.length :=
    Nat.le_antisymm (here.longest _ there.member _ there.leads) (there.longest _ here.member _ here.leads)
  obtain ⟨_, first, -⟩ := here.leads.spelled
  obtain ⟨_, second, -⟩ := there.leads.spelled
  obtain rfl := String.toList_inj.1 (List.append_inj_left (second.symm.trans first) same)
  exact ⟨rfl, there.leads.unique here.leads⟩

/-- The longest word stays so beside one more that is not longer, -/
theorem Opens.concat (opens : Opens words text word rest)
    (shorter : ∀ after, Leads other.toList text after → other.length ≤ word.length) :
    Opens (words ++ [other]) text word rest :=
  ⟨List.mem_append_left _ opens.member, opens.leads,
    List.forall_mem_append.2 ⟨opens.longest, List.forall_mem_singleton.2 shorter⟩⟩

/-- and one more word is the longest if the others are not longer. -/
theorem Leads.opens (leads : Leads word.toList text rest)
    (shorter : ∀ other ∈ words, ∀ after, Leads other.toList text after → other.length ≤ word.length) :
    Opens (words ++ [word]) text word rest :=
  ⟨List.mem_append_right _ (List.mem_singleton_self word), leads,
    List.forall_mem_append.2 ⟨shorter, List.forall_mem_singleton.2 fun _ _ => Nat.le_refl _⟩⟩

/-- The longest of some words that a blank follows at the start of a text, and
what comes after the blanks. -/
def firstWord? (words : List String) (text : List Char) : Option (String × List Char) :=
  words.foldl (fun best word =>
    match afterWord? word.toList text with
    | none => best
    | some rest =>
        match best with
        | none => some (word, rest)
        | some (other, _) => if other.length < word.length then some (word, rest) else best) none

theorem firstWord?_eq_none {words : List String} {text : List Char}
    (absent : ∀ word ∈ words, afterWord? word.toList text = none) : firstWord? words text = none := by
  unfold firstWord?
  induction words with
  | nil => rfl
  | cons word words ih =>
      rw [List.foldl_cons, absent word List.mem_cons_self]
      exact ih fun other member => absent other (List.mem_cons_of_mem word member)

theorem firstWord?_concat (words : List String) (word : String) (text : List Char) :
    firstWord? (words ++ [word]) text =
      match afterWord? word.toList text with
      | none => firstWord? words text
      | some rest =>
          match firstWord? words text with
          | none => some (word, rest)
          | some (other, after) =>
              if other.length < word.length then some (word, rest) else some (other, after) := by
  unfold firstWord?
  rw [List.foldl_append, List.foldl_cons, List.foldl_nil]
  cases afterWord? word.toList text with
  | none => rfl
  | some rest =>
      generalize words.foldl _ none = best
      cases best <;> rfl

/-- The word that is read is the longest one, and no word leads the text if none is read. -/
theorem firstWord?_longest (words : List String) (text : List Char) :
    (firstWord? words text = none ∧ ∀ word ∈ words, ∀ rest, ¬ Leads word.toList text rest) ∨
      ∃ word rest, firstWord? words text = some (word, rest) ∧ Opens words text word rest := by
  -- One more word at the end is compared with the longest one before it.
  induction words using List.reverseRecOn with
  | nil => exact .inl ⟨rfl, nofun⟩
  | append_singleton words word ih =>
      rw [firstWord?_concat]
      cases here : afterWord? word.toList text with
      | none =>
          have silent (after : List Char) : ¬ Leads word.toList text after := fun leads => by
            cases here.symm.trans (leads_iff.1 leads)
          rcases ih with ⟨none, all⟩ | ⟨best, rest, found, opens⟩
          · exact .inl ⟨none, List.forall_mem_append.2 ⟨all, List.forall_mem_singleton.2 silent⟩⟩
          · exact .inr ⟨best, rest, found, opens.concat fun after led => absurd led (silent after)⟩
      | some rest =>
          right
          have leads := leads_iff.2 here
          rcases ih with ⟨none, all⟩ | ⟨best, after, found, opens⟩
          · refine ⟨word, rest, by simp [none], leads.opens fun other member after led => ?_⟩
            exact absurd led (all other member after)
          · by_cases longer : best.length < word.length
            · refine ⟨word, rest, by simp [found, longer], leads.opens fun other member after led => ?_⟩
              exact Nat.le_trans (opens.longest other member after led) (Nat.le_of_lt longer)
            · refine ⟨best, after, by simp [found, longer], opens.concat fun _ _ => ?_⟩
              exact Nat.le_of_not_lt longer

theorem firstWord?_eq_some_iff : firstWord? words text = some (word, rest) ↔ Opens words text word rest := by
  rcases firstWord?_longest words text with ⟨none, all⟩ | ⟨best, after, found, opens⟩
  · rw [none]
    exact ⟨nofun, fun opens => absurd opens.leads (all word opens.member rest)⟩
  · rw [found]
    constructor
    · intro same
      cases same
      exact opens
    · intro other
      obtain ⟨rfl, rfl⟩ := other.unique opens
      rfl

/-- Where a word leads a text, there is a longest one. -/
theorem exists_opens (leads : ∃ word ∈ words, ∃ rest, Leads word.toList text rest) :
    ∃ word rest, Opens words text word rest := by
  obtain ⟨word, member, rest, led⟩ := leads
  rcases firstWord?_longest words text with ⟨-, all⟩ | ⟨best, after, -, opens⟩
  · exact absurd led (all word member rest)
  · exact ⟨best, after, opens⟩

end Stencil.Text
