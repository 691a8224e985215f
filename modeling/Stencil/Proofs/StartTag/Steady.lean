import Stencil.Proofs.StartTag.Report

/-! Start tags that end in one place, whatever comes after them.

A quotation mark that nothing closes in its tag may be closed after it, and then the tag goes
on. Without one the tag is read as it is written, for of all that can be read at a place the
first is what is written there.
-/

set_option autoImplicit false

namespace Stencil.StartTag

open Text (isBlank trimStart takeWhile_append_of_stop dropWhile_append_of_stop stop_cons)

/-- The value does not begin with a quotation mark that is left open. -/
def TagValue.Plain : TagValue → Prop
  | .absent | .quoted _ => True
  | .missing => False
  | .bare text => ∀ c ∈ text.head?, ¬ IsQuote c

/-- The text is a start tag that does not close itself, and stays one with the same end whatever
comes after it. -/
def Steady (tag name : List Char) (entries : List TagAttribute) : Prop :=
  ∀ after, ∃ tail, tagReading? (tag ++ after) = some ⟨name, entries, ⟨tail, false, after⟩⟩

/-- A start tag as it is written, with blanks before its end. -/
def spelledStart (name : List Char) (entries : List TagAttribute) (gap : List Char) : List Char :=
  '<' :: (name ++ (entries.flatMap (·.source) ++ (gap ++ ['>'])))

section

variable {entry : TagAttribute} {entries : List TagAttribute} {later : List Char}

theorem TagValue.Plain.clear {value : TagValue} (plain : value.Plain) (later : List Char) :
    value.Clear later := by
  cases value with
  | absent | quoted => trivial
  | missing => exact plain
  | bare text =>
      cases text with
      | nil => trivial
      | cons c inner => exact fun isQuote => absurd isQuote (plain c rfl)

/-- What is reported of plain values is what is written. -/
theorem allClear_of_plain (plain : ∀ entry ∈ entries, entry.value.Plain) : AllClear entries := by
  induction entries with
  | nil => trivial
  | cons entry entries ih =>
      obtain ⟨here, others⟩ := List.forall_mem_cons.1 plain
      exact ⟨here.clear _, ih others⟩

/-- No tag ends before an attribute. -/
theorem ending?_source_append (proper : entry.Proper) (later : List Char) :
    ending? (entry.source ++ later) = none := by
  obtain ⟨spelling, -, trimmed, -⟩ := exists_trimStart_source proper later
  obtain ⟨-, -, -, -, named, -⟩ := proper
  obtain ⟨c, letters, same, letter⟩ := named.exists_cons
  by_contra found
  rw [same, List.cons_append] at trimmed
  rcases exists_of_ending? (Option.ne_none_iff_isSome.1 found) with ⟨rest, ends⟩ | ⟨rest, -, ends, -⟩
  · exact ne_of_isAttributeNameChar letter rfl (List.cons.inj (trimmed.symm.trans ends)).1
  · exact ne_of_isAttributeNameChar letter rfl (List.cons.inj (trimmed.symm.trans ends)).1

/-- Of the attributes that can be read at a place, the one that is written there comes first. -/
theorem attributeReadings_source_append (proper : entry.Proper) (stops : Stops later)
    (edge : ∀ c ∈ later.head?, isBareValueChar c = false) (clear : entry.value.Clear later) :
    ∃ others, attributeReadings (entry.source ++ later) = (entry, later) :: others := by
  obtain ⟨spelling, spelled, trimmed, shorter⟩ := exists_trimStart_source proper later
  obtain ⟨others, first⟩ := valueReadings_spelled spelled stops edge clear
  obtain ⟨-, -, -, -, named, -⟩ := proper
  have stop := spelled.stop stops.1
  have filled : ¬ ((entry.name ++ (spelling ++ later)).length = (entry.source ++ later).length ||
      entry.name.isEmpty) = true := by
    simpa [named.1] using Nat.ne_of_lt shorter
  have source : (entry.source ++ later).take ((entry.source ++ later).length - later.length) = entry.source := by
    simp
  simp only [attributeReadings, trimmed, takeWhile_append_of_stop named.2 stop,
    dropWhile_append_of_stop named.2 stop, if_neg filled, first, List.map_cons, source]
  exact ⟨_, rfl⟩

/-- Attributes one after another are read as they are written. -/
theorem reading?_flatMap_source (proper : ∀ entry ∈ entries, entry.Proper)
    (plain : ∀ entry ∈ entries, entry.value.Plain) {tail rest : List Char} {selfClosing : Bool}
    (ended : ending? tail = some (selfClosing, rest)) (stops : Stops tail)
    (edge : ∀ c ∈ tail.head?, isBareValueChar c = false) :
    reading? (entries.flatMap (·.source) ++ tail) = some (entries, ⟨tail, selfClosing, rest⟩) := by
  induction entries with
  | nil => rw [List.flatMap_nil, List.nil_append, reading?_eq, ended]
  | cons entry entries ih =>
      obtain ⟨here, others⟩ := List.forall_mem_cons.1 proper
      obtain ⟨simple, simples⟩ := List.forall_mem_cons.1 plain
      have bounds : Stops (entries.flatMap (·.source) ++ tail) ∧
          ∀ c ∈ (entries.flatMap (·.source) ++ tail).head?, isBareValueChar c = false := by
        cases entries with
        | nil => exact ⟨stops, edge⟩
        | cons next entries =>
            rw [List.flatMap_cons, List.append_assoc]
            exact stops_source_append (others next List.mem_cons_self) _
      obtain ⟨more, first⟩ := attributeReadings_source_append here bounds.1 bounds.2 (simple.clear _)
      rw [List.flatMap_cons, List.append_assoc, reading?_eq, ending?_source_append here, first]
      simp only [List.findSome?_cons, ih others simples, Option.map_some]

/-- Where no quotation mark is left open, the tag is the same whatever comes after it. -/
theorem steady_spelledStart {name gap : List Char} (filled : name ≠ [])
    (letters : ∀ c ∈ name, isTagNameChar c = true) (proper : ∀ entry ∈ entries, entry.Proper)
    (plain : ∀ entry ∈ entries, entry.value.Plain) (blank : ∀ c ∈ gap, isBlank c = true) :
    Steady (spelledStart name entries gap) name entries := by
  intro after
  have trimmed : trimStart (gap ++ '>' :: after) = '>' :: after := by
    rw [trimStart_append_of_blank blank]
    exact trimStart_of_not_blank rfl after
  have ended : ending? (gap ++ '>' :: after) = some (false, after) := by
    simp only [ending?, trimmed]
  have edge : ∀ c ∈ (gap ++ '>' :: after).head?, isBareValueChar c = false := by
    cases gap with
    | nil => exact stop_cons rfl after
    | cons c gap => exact stop_cons (by simp [isBareValueChar, blank c List.mem_cons_self]) _
  have stops : Stops (gap ++ '>' :: after) := stops_of_trimStart trimmed (by decide) (.inl rfl)
  have region := reading?_flatMap_source proper plain ended stops edge
  have goesOn : GoesOn (entries.flatMap (·.source) ++ (gap ++ '>' :: after)) :=
    reading?_isSome_iff.1 (Option.isSome_of_eq_some region)
  have whole : spelledStart name entries gap ++ after =
      '<' :: (name ++ (entries.flatMap (·.source) ++ (gap ++ '>' :: after))) := by
    simp [spelledStart]
  exact ⟨_, by rw [whole, tagReading?_append filled letters goesOn.stop, region, Option.map_some]⟩

end

end Stencil.StartTag
