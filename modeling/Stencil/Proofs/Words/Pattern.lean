import Mathlib.Data.List.Sort
import Stencil.Expression.Pattern
import Stencil.Proofs.Bytes
import Stencil.Proofs.Words.Alias

/-! What the pattern of a block takes from a text.

The choices of the pattern are made in order: longer words before shorter ones, many blanks before
few, a short path before a long one, an alias before none. In a trimmed text they come to the
longest word that leads it and to the one alias that ends it, as no other word or run of blanks
gives a match that an earlier choice does not.
-/

set_option autoImplicit false

namespace Stencil.Text

section

variable {α : Type} {p : Char → Bool} {next : List Char → Option α} {text rest run : List Char} {value : α}

theorem exists_of_most? (found : most? p next text = some (run, value)) :
    ∃ rest, text = run ++ rest ∧ run ≠ [] ∧ (∀ c ∈ run, p c = true) ∧ next rest = some value := by
  induction text generalizing run with
  | nil => cases found
  | cons c text ih =>
      rw [most?] at found
      split at found
      · rename_i inside
        split at found
        · rename_i more later longer
          cases found
          obtain ⟨rest, rfl, -, others, after⟩ := ih longer
          exact ⟨rest, rfl, by simp, List.forall_mem_cons.2 ⟨inside, others⟩, after⟩
        · obtain ⟨_, after, same⟩ := Option.map_eq_some_iff.1 found
          cases same
          exact ⟨text, rfl, by simp, by simpa using inside, after⟩
      · cases found

/-- A whole run is taken if what follows it matches. -/
theorem most?_append (filled : run ≠ []) (inside : ∀ c ∈ run, p c = true)
    (stop : ∀ c ∈ rest.head?, p c = false) (after : next rest = some value) :
    most? p next (run ++ rest) = some (run, value) := by
  induction run with
  | nil => exact absurd rfl filled
  | cons c run ih =>
      obtain ⟨first, others⟩ := List.forall_mem_cons.1 inside
      rw [List.cons_append, most?, if_pos first]
      cases run with
      | nil =>
          -- The run ends here: a longer one would go on with what stops it.
          have stopped : most? p next rest = none := by
            cases rest with
            | nil => rfl
            | cons d rest => simp [most?, stop d rfl]
          simp [stopped, after]
      | cons d run => rw [ih (by simp) others]

/-- A beginning is taken if what follows it matches, and nothing that follows a shorter one. -/
theorem fewest?_append (filled : run ≠ []) (after : next rest = some value)
    (least : ∀ shorter later, run ++ rest = shorter ++ later → shorter ≠ [] →
      shorter.length < run.length → next later = none) :
    fewest? next (run ++ rest) = some (run, value) := by
  induction run with
  | nil => exact absurd rfl filled
  | cons c run ih =>
      rw [List.cons_append, fewest?]
      cases run with
      | nil => simp [after]
      | cons d run =>
          have early := least [c] (d :: run ++ rest) rfl (by simp) (by simp)
          rw [early, ih (by simp) fun shorter later same _ short => ?_]
          · rfl
          · refine least (c :: shorter) later ?_ (by simp) (Nat.succ_lt_succ short)
            rw [List.cons_append, same]
            rfl

end

variable {text path name : List Char}

theorem atEnd?_eq_some_iff : atEnd? text = some () ↔ text = [] := by
  cases text <;> simp [atEnd?]

theorem name?_eq_some_iff : name? text = some name ↔
    text = name ∧ name ≠ [] ∧ ∀ c ∈ name, isBlank c = false := by
  constructor
  · intro found
    obtain ⟨⟨run, _⟩, taken, rfl⟩ := Option.map_eq_some_iff.1 found
    obtain ⟨rest, rfl, filled, dark, ended⟩ := exists_of_most? taken
    obtain rfl := atEnd?_eq_some_iff.1 ended
    exact ⟨List.append_nil run, filled, by simpa using dark⟩
  · rintro ⟨rfl, filled, dark⟩
    have taken : most? (!isBlank ·) atEnd? (text ++ []) = some (text, ()) :=
      most?_append filled (by simpa using dark) nofun rfl
    rw [List.append_nil] at taken
    rw [name?, taken]
    rfl

/-- What stands after a path that has an alias. -/
structure NamesRest (rest name : List Char) : Prop where
  spelled : ∃ gap blanks, rest = gap ++ ('a' :: 's' :: (blanks ++ name)) ∧
    gap ≠ [] ∧ blanks ≠ [] ∧ ∀ c ∈ gap ++ blanks, isBlank c = true
  word : name ≠ [] ∧ ∀ c ∈ name, isBlank c = false

theorem namesAlias_iff : NamesAlias text path name ↔
    ∃ rest, text = path ++ rest ∧ NamesRest rest name ∧
      path ≠ [] ∧ ∀ c ∈ path.getLast?, isBlank c = false := by
  constructor
  · rintro ⟨⟨gap, blanks, rfl, spaced⟩, word, whole⟩
    exact ⟨_, rfl, ⟨⟨gap, blanks, rfl, spaced⟩, word⟩, whole⟩
  · rintro ⟨rest, rfl, ⟨⟨gap, blanks, rfl, spaced⟩, word⟩, whole⟩
    exact ⟨⟨gap, blanks, rfl, spaced⟩, word, whole⟩

/-- After `as` and blanks the name ends the text. -/
theorem named?_eq_some_iff {rest : List Char} : named? rest = some name ↔
    ∃ blanks, rest = 'a' :: 's' :: (blanks ++ name) ∧ blanks ≠ [] ∧ (∀ c ∈ blanks, isBlank c = true) ∧
      name ≠ [] ∧ ∀ c ∈ name, isBlank c = false := by
  rw [named?, Option.bind_eq_some_iff]
  constructor
  · rintro ⟨after, stripped, found⟩
    obtain rfl := strip?_eq_some_iff.1 stripped
    obtain ⟨⟨blanks, _⟩, taken, rfl⟩ := Option.map_eq_some_iff.1 found
    obtain ⟨rest, rfl, filled, areBlank, ended⟩ := exists_of_most? taken
    obtain ⟨rfl, word⟩ := name?_eq_some_iff.1 ended
    exact ⟨blanks, rfl, filled, areBlank, word⟩
  · rintro ⟨blanks, rfl, filled, areBlank, word⟩
    refine ⟨blanks ++ name, rfl, ?_⟩
    have stop : ∀ c ∈ name.head?, isBlank c = false := fun c head => word.2 c (List.mem_of_mem_head? head)
    rw [most?_append filled areBlank stop (name?_eq_some_iff.2 ⟨rfl, word⟩)]
    rfl

theorem alias?_eq_some_some_iff {rest : List Char} : alias? rest = some (some name) ↔ NamesRest rest name := by
  rw [alias?]
  constructor
  · intro found
    split at found
    · rename_i gap other taken
      cases found
      obtain ⟨after, rfl, filled, areBlank, named⟩ := exists_of_most? taken
      obtain ⟨blanks, rfl, some, areBlankToo, word⟩ := named?_eq_some_iff.1 named
      exact ⟨⟨gap, blanks, rfl, filled, some, List.forall_mem_append.2 ⟨areBlank, areBlankToo⟩⟩, word⟩
    · simp at found
  · rintro ⟨⟨gap, blanks, rfl, filled, some, areBlank⟩, word⟩
    obtain ⟨before, after⟩ := List.forall_mem_append.1 areBlank
    rw [most?_append filled before (stop_cons (by decide) _)
      (named?_eq_some_iff.2 ⟨blanks, rfl, some, after, word⟩)]

theorem alias?_eq_some_none {rest : List Char} (none : alias? rest = some none) : rest = [] := by
  rw [alias?] at none
  split at none
  · cases none
  · obtain ⟨_, ended, -⟩ := Option.map_eq_some_iff.1 none
    exact atEnd?_eq_some_iff.1 ended

/-- An alias after some beginning is the alias after a path, which is not longer: blanks at the
end of the beginning stand before the `as`. -/
theorem NamesRest.namesAlias {before rest : List Char} (names : NamesRest rest name)
    (filled : before ≠ []) (begins : ∀ c ∈ before.head?, isBlank c = false) :
    ∃ path, NamesAlias (before ++ rest) path name ∧ path.length ≤ before.length := by
  obtain ⟨⟨gap, blanks, rfl, some, between, areBlank⟩, word⟩ := names
  obtain ⟨trail, same, trailing⟩ := exists_trimEnd_append_blanks before
  have whole : trimEnd before ≠ [] := by
    intro none
    obtain ⟨c, more, rfl⟩ := List.exists_cons_of_ne_nil filled
    rw [none, List.nil_append] at same
    have dark := begins c rfl
    rw [trailing c (same ▸ List.mem_cons_self)] at dark
    cases dark
  refine ⟨trimEnd before, ⟨⟨trail ++ gap, blanks, ?_, by simp [some], between, ?_⟩, word, whole, ?_⟩, ?_⟩
  · conv_lhs => rw [same]
    simp
  · rw [List.append_assoc]
    exact List.forall_mem_append.2 ⟨trailing, areBlank⟩
  · rw [trimEnd, List.getLast?_reverse]
    exact head?_trimStart before.reverse
  · have size := congrArg List.length same
    rw [List.length_append] at size
    omega

/-- The path and the alias of what stands after a word: they are split at the last `as`. -/
def splitPath (text : List Char) : List Char × Option (List Char) :=
  match splitAlias? text with
  | some (path, name) => (path, some name)
  | none => (text, none)

theorem splitPath_of_namesAlias (names : NamesAlias text path name) :
    splitPath text = (path, some name) := by
  rw [splitPath, splitAlias?_of_namesAlias names]

theorem splitPath_of_unnamed (unnamed : ∀ path name, ¬ NamesAlias text path name) :
    splitPath text = (text, none) := by
  rw [splitPath, splitAlias?_eq_none_iff.2 unnamed]

/-- What stands after the path is its alias, or the end. -/
theorem exists_alias?_splitPath (filled : text ≠ []) : ∃ rest, text = (splitPath text).1 ++ rest ∧
    (splitPath text).1 ≠ [] ∧ alias? rest = some (splitPath text).2 := by
  by_cases named : ∃ path name, NamesAlias text path name
  · obtain ⟨path, name, names⟩ := named
    obtain ⟨rest, whole, after, some, -⟩ := namesAlias_iff.1 names
    rw [splitPath_of_namesAlias names]
    exact ⟨rest, whole, some, alias?_eq_some_some_iff.2 after⟩
  · rw [splitPath_of_unnamed fun path name names => named ⟨path, name, names⟩]
    exact ⟨[], by simp, filled, rfl⟩

/-- No path is shorter that has an alias after it, or the end. -/
theorem length_splitPath_le {before later : List Char} {after : Option (List Char)} (filled : before ≠ [])
    (begins : ∀ c ∈ before.head?, isBlank c = false) (found : alias? later = some after) :
    (splitPath (before ++ later)).1.length ≤ before.length := by
  cases after with
  | some name =>
      obtain ⟨path, names, size⟩ := (alias?_eq_some_some_iff.1 found).namesAlias filled begins
      rwa [splitPath_of_namesAlias names]
  | none =>
      obtain rfl := alias?_eq_some_none found
      rw [List.append_nil]
      obtain ⟨rest, whole, -⟩ := exists_alias?_splitPath filled
      have size := congrArg List.length whole
      rw [List.length_append] at size
      omega

/-- The shortest path that has an alias after it, or the end, is the one that is split off. -/
theorem path?_eq (filled : text ≠ []) (begins : ∀ c ∈ text.head?, isBlank c = false) :
    path? text = some (splitPath text) := by
  obtain ⟨rest, whole, some, after⟩ := exists_alias?_splitPath filled
  suffices taken : path? ((splitPath text).1 ++ rest) = Option.some (splitPath text) by
    rwa [← whole] at taken
  refine fewest?_append some after fun shorter later spelled start short => ?_
  rw [Option.eq_none_iff_forall_ne_some]
  intro other found
  obtain rfl := whole.trans spelled
  have dark : ∀ c ∈ shorter.head?, isBlank c = false := by
    rwa [List.head?_append_of_ne_nil _ start] at begins
  exact absurd (length_splitPath_le start dark found) (Nat.not_le.2 short)

/-! Words are tried from the longest to the shortest, so that the first one that leads a text is
the longest one. -/

theorem comesFirst_iff {first second : String} : comesFirst first second = true ↔
    byteSize second.toList < byteSize first.toList ∨
      byteSize first.toList = byteSize second.toList ∧ first ≤ second := by
  simp [comesFirst]

instance : IsTrans String (comesFirst · ·) where
  trans first second third here there := by
    rw [comesFirst_iff] at here there ⊢
    rcases here with shorter | ⟨same, before⟩
    · left
      omega
    · rcases there with shorter | ⟨sameToo, beforeToo⟩
      · left
        omega
      · exact .inr ⟨same.trans sameToo, String.le_trans before beforeToo⟩

instance : Std.Total (α := String) (comesFirst · ·) where
  total first second := by
    rw [comesFirst_iff, comesFirst_iff]
    rcases Nat.lt_trichotomy (byteSize first.toList) (byteSize second.toList) with less | same | more
    · exact .inr (.inl less)
    · rcases String.le_total first second with before | after
      · exact .inl (.inr ⟨same, before⟩)
      · exact .inr (.inr ⟨same.symm, after⟩)
    · exact .inl (.inl more)

theorem foldr_place (words : List String) : words.foldr place [] = words.insertionSort (comesFirst · ·) := by
  have same (word : String) (others : List String) :
      place word others = others.orderedInsert (comesFirst · ·) word := by
    induction others with
    | nil => rfl
    | cons other others ih => cases first : comesFirst word other <;> simp [place, first, ih]
  rw [List.insertionSort, funext fun word => funext (same word)]

section

variable {α : Type} [DecidableEq α] {a : α} {items kept : List α}

/-- Erasing repetitions leaves a part of the items, -/
theorem eraseReps_loop_sublist (a : α) (items kept : List α) :
    (List.eraseRepsBy.loop (· == ·) a items kept).Sublist (kept.reverse ++ a :: items) := by
  induction items generalizing a kept with
  | nil => simp [List.eraseRepsBy.loop]
  | cons b items ih =>
      rw [List.eraseRepsBy.loop]
      split
      · exact (ih a kept).trans (((List.sublist_cons_self b items).cons_cons a).append_left _)
      · have inner := ih b (a :: kept)
        rwa [List.reverse_cons, List.append_assoc] at inner

/-- and all of them. -/
theorem mem_eraseReps_loop {b : α} (a : α) (items kept : List α) :
    b ∈ List.eraseRepsBy.loop (· == ·) a items kept ↔ b ∈ kept ∨ b = a ∨ b ∈ items := by
  induction items generalizing a kept with
  | nil => simp [List.eraseRepsBy.loop, or_comm]
  | cons c items ih =>
      rw [List.eraseRepsBy.loop]
      split
      · rename_i same
        obtain rfl := beq_iff_eq.1 same
        rw [ih, List.mem_cons, ← or_assoc (a := b = a), or_self]
      · rw [ih, List.mem_cons, List.mem_cons]
        tauto

end

theorem mem_alternation {words : List String} {word : String} : word ∈ alternation words ↔ word ∈ words := by
  have sorted := List.mem_insertionSort (comesFirst · ·) (l := words) (x := word)
  rw [alternation, foldr_place, ← sorted]
  cases words.insertionSort (comesFirst · ·) with
  | nil => rfl
  | cons first others => exact (mem_eraseReps_loop first others []).trans (by simp)

theorem alternation_pairwise (words : List String) :
    (alternation words).Pairwise fun first second => comesFirst first second = true := by
  refine (List.pairwise_insertionSort (comesFirst · ·) words).sublist ?_
  rw [alternation, foldr_place]
  cases words.insertionSort (comesFirst · ·) with
  | nil => exact List.Sublist.refl _
  | cons first others => exact eraseReps_loop_sublist first others []

/-- Of two words that lead a text, the longer one has more bytes. -/
theorem Leads.length_le {first second rest after : List Char} (here : Leads first text rest)
    (there : Leads second text after) (size : byteSize second ≤ byteSize first) :
    second.length ≤ first.length := by
  obtain ⟨_, rfl, -⟩ := here.spelled
  obtain ⟨_, same, -⟩ := there.spelled
  by_contra longer
  obtain ⟨more, rfl⟩ := List.prefix_of_prefix_length_le (List.prefix_append first _)
    ⟨_, same.symm⟩ (Nat.le_of_not_le longer)
  rw [byteSize_append] at size
  obtain rfl := @eq_nil_of_byteSize_eq_zero more (by omega)
  simp at longer

section

variable {words : List String} {word : String} {rest : List Char}

theorem keyed?_of_leads (trimmed : Trimmed text) (leads : Leads word.toList text rest) :
    keyed? text word = some (word, splitPath rest) := by
  obtain ⟨⟨blanks, spelled, some, areBlank⟩, begins⟩ := id leads
  have taken := most?_append some areBlank begins (path?_eq (leads.ne_nil trimmed) begins)
  rw [keyed?, spelled, strip?_append, Option.bind_some, taken]
  rfl

theorem leads_of_keyed? {found : String × List Char × Option (List Char)}
    (keyed : keyed? text word = some found) : ∃ rest, Leads word.toList text rest := by
  obtain ⟨after, stripped, matched⟩ := Option.bind_eq_some_iff.1 keyed
  obtain ⟨⟨run, _⟩, taken, -⟩ := Option.map_eq_some_iff.1 matched
  obtain ⟨rest, rfl, filled, areBlank, -⟩ := exists_of_most? taken
  obtain ⟨blank, more, rfl⟩ := List.exists_cons_of_ne_nil filled
  -- A short run leaves blanks before the path, and all of them stand after the word.
  refine ⟨trimStart (more ++ rest), leads_iff.2 (afterWord?_eq_some_iff.2 ?_)⟩
  exact ⟨blank, more ++ rest, (strip?_eq_some_iff.1 stripped).symm,
    areBlank blank List.mem_cons_self, rfl⟩

/-- The pattern takes the longest word that leads a trimmed text. -/
theorem block?_of_opens (trimmed : Trimmed text) (opens : Opens words text word rest) :
    block? (alternation words) text = some (word, splitPath rest) := by
  cases tried : block? (alternation words) text with
  | none =>
      have silent := List.findSome?_eq_none_iff.1 tried word (mem_alternation.2 opens.member)
      cases silent.symm.trans (keyed?_of_leads trimmed opens.leads)
  | some found =>
      obtain ⟨before, first, later, order, keyed, silent⟩ := List.findSome?_eq_some_iff.1 tried
      obtain ⟨after, leads⟩ := leads_of_keyed? keyed
      have sorted := alternation_pairwise words
      rw [order] at sorted
      have least := (List.pairwise_cons.1 (List.pairwise_append.1 sorted).2.1).1
      have opensFirst : Opens words text first after := by
        refine ⟨mem_alternation.1 (by simp [order]), leads, fun other member tail led => ?_⟩
        have place := mem_alternation.2 member
        rw [order, List.mem_append, List.mem_cons] at place
        rcases place with early | rfl | late
        · cases (silent other early).symm.trans (keyed?_of_leads trimmed led)
        · exact Nat.le_refl _
        · have size : byteSize other.toList ≤ byteSize first.toList := by
            rcases comesFirst_iff.1 (least other late) with less | ⟨same, -⟩
            · exact Nat.le_of_lt less
            · exact Nat.le_of_eq same.symm
          exact leads.length_le led size
      obtain ⟨rfl, rfl⟩ := opens.unique opensFirst
      rw [← keyed, keyed?_of_leads trimmed leads]

theorem block?_of_firstWord? (trimmed : Trimmed text) (first : firstWord? words text = some (word, rest)) :
    block? (alternation words) text = some (word, splitPath rest) :=
  block?_of_opens trimmed (firstWord?_eq_some_iff.1 first)

/-- Where no word leads a text the pattern has no match. -/
theorem block?_eq_none (absent : firstWord? words text = none) : block? (alternation words) text = none := by
  refine List.findSome?_eq_none_iff.2 fun word member => ?_
  rw [Option.eq_none_iff_forall_ne_some]
  intro found keyed
  obtain ⟨rest, leads⟩ := leads_of_keyed? keyed
  obtain ⟨best, after, opens⟩ := exists_opens ⟨word, mem_alternation.1 member, rest, leads⟩
  cases absent.symm.trans (firstWord?_eq_some_iff.2 opens)

end

end Stencil.Text
