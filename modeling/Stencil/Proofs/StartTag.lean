import Stencil.Markup.StartTag.Search
import Stencil.Proofs.Run

/-! Start tags as they are written: attributes one after another, each after a
blank, and then the end of the tag. -/

set_option autoImplicit false

namespace Stencil.StartTag

open Text (isBlank trimStart takeWhile_append_of_stop dropWhile_append_of_stop stop_cons)

/-- What is written after the name of an attribute. -/
inductive WrittenValue where
  | absent
  | quoted (quote : Char) (text : List Char)

namespace WrittenValue

def written : WrittenValue → List Char
  | absent => []
  | quoted quote text => '=' :: quote :: (text ++ [quote])

/-- The text that is read. -/
def text? : WrittenValue → Option (List Char)
  | absent => none
  | quoted _ text => some text

def Proper : WrittenValue → Prop
  | absent => True
  | quoted quote text => (quote = '"' ∨ quote = '\'') ∧ quote ∉ text

end WrittenValue

/-- A name is not empty, and no character in it ends it. -/
def ProperName (name : List Char) : Prop :=
  name ≠ [] ∧ ∀ c ∈ name, isAttributeNameChar c = true

structure WrittenAttribute where
  name : List Char
  value : WrittenValue

namespace WrittenAttribute

def written (entry : WrittenAttribute) : List Char :=
  ' ' :: (entry.name ++ entry.value.written)

def read (entry : WrittenAttribute) : String × Option String :=
  (String.ofList entry.name, entry.value.text?.map String.ofList)

def Proper (entry : WrittenAttribute) : Prop :=
  ProperName entry.name ∧ entry.value.Proper

end WrittenAttribute

instance (name : List Char) : Decidable (ProperName name) :=
  decidable_of_iff (name ≠ [] ∧ name.all isAttributeNameChar = true) (and_congr_right fun _ => List.all_eq_true)

instance : (value : WrittenValue) → Decidable value.Proper
  | .absent => .isTrue trivial
  | .quoted quote text => inferInstanceAs (Decidable ((quote = '"' ∨ quote = '\'') ∧ quote ∉ text))

instance (entry : WrittenAttribute) : Decidable entry.Proper :=
  inferInstanceAs (Decidable (ProperName entry.name ∧ entry.value.Proper))

/-- A text that does not go on with the attribute before it. -/
def Stops (text : List Char) : Prop :=
  (∀ c ∈ text.head?, isAttributeNameChar c = false) ∧ (trimStart text).head? ≠ some '='

theorem stops_nil : Stops [] :=
  ⟨by simp, by simp [trimStart]⟩

theorem trimStart_of_not_blank {c : Char} (dark : isBlank c = false) (rest : List Char) :
    trimStart (c :: rest) = c :: rest :=
  List.dropWhile_cons_of_neg (by simp [dark])

theorem isBlank_eq_false {c : Char} (proper : isAttributeNameChar c = true) : isBlank c = false := by
  unfold isAttributeNameChar at proper
  simp_all

theorem ne_of_isAttributeNameChar {c mark : Char} (proper : isAttributeNameChar c = true)
    (ends : isAttributeNameChar mark = false) : c ≠ mark := by
  rintro rfl
  exact absurd (proper.symm.trans ends) (by decide)

section

variable {rest : List Char} {value : WrittenValue}

/-- Neither a written value nor what comes after it goes on with a name. -/
theorem head?_written_append (value : WrittenValue) (stops : Stops rest) :
    ∀ c ∈ (value.written ++ rest).head?, isAttributeNameChar c = false := by
  cases value with
  | absent => exact stops.1
  | quoted quote text => exact stop_cons rfl _

theorem quotedValue?_append {quote : Char} {text : List Char} (mark : quote = '"' ∨ quote = '\'')
    (closed : quote ∉ text) (rest : List Char) :
    quotedValue? (quote :: (text ++ quote :: rest)) = some (text, rest) := by
  have inside : ∀ c ∈ text, (c != quote) = true := by
    intro c member
    simpa using fun same : c = quote => closed (same ▸ member)
  simp [quotedValue?, mark, List.dropWhile_append_of_pos inside, List.takeWhile_append_of_pos inside]

theorem trimStart_quote {quote : Char} (mark : quote = '"' ∨ quote = '\'') (rest : List Char) :
    trimStart (quote :: rest) = quote :: rest := by
  apply trimStart_of_not_blank
  rcases mark with rfl | rfl <;> rfl

theorem trimStart_equals (rest : List Char) : trimStart ('=' :: rest) = '=' :: rest :=
  trimStart_of_not_blank rfl rest

theorem value?_written (proper : value.Proper) (stops : Stops rest) :
    value? (value.written ++ rest) = value.text?.map (·, rest) := by
  cases value with
  | absent =>
      simp only [WrittenValue.written, List.nil_append, value?]
      split
      · rename_i after equals
        exact absurd (congrArg List.head? equals) stops.2
      · rfl
  | quoted quote text =>
      simp only [WrittenValue.written, List.cons_append, List.append_assoc, List.nil_append, value?,
        trimStart_equals, trimStart_quote proper.1, quotedValue?_append proper.1 proper.2, Option.some_or,
        WrittenValue.text?, Option.map_some]

/-- Of what may follow a value, the text after the quotes comes first. -/
theorem valueEnds_written (proper : value.Proper) (stops : Stops rest) :
    ∃ others, valueEnds (value.written ++ rest) = rest :: others := by
  cases value with
  | absent =>
      refine ⟨[], ?_⟩
      simp only [WrittenValue.written, List.nil_append, valueEnds]
      split
      · rename_i after equals
        exact absurd (congrArg List.head? equals) stops.2
      · rfl
  | quoted quote text =>
      simp only [WrittenValue.written, List.cons_append, List.append_assoc, List.nil_append, valueEnds,
        trimStart_equals, trimStart_quote proper.1, quotedValue?_append proper.1 proper.2, Option.map_some,
        Option.toList_some]
      exact ⟨_, rfl⟩

end

-- As for splitting, the matches of the definition hold their equations.
theorem attributes_eq (text : List Char) : attributes text =
    match text.dropWhile (!isAttributeNameChar ·) with
    | [] => []
    | first :: others =>
        let name := String.ofList ((first :: others).takeWhile isAttributeNameChar)
        match value? (others.dropWhile isAttributeNameChar) with
        | some (value, rest) => (name, some (String.ofList value)) :: attributes rest
        | none => (name, none) :: attributes (others.dropWhile isAttributeNameChar) := by
  rw [attributes]
  split
  · rename_i ended
    rw [ended]
  · rename_i first others named
    simp only [named]
    split
    · rename_i value rest found
      simp only [found]
    · rename_i absent
      simp only [absent]

section

variable {entry : WrittenAttribute} {rest : List Char}

theorem ProperName.exists_cons {name : List Char} (proper : ProperName name) :
    ∃ c others, name = c :: others ∧ isAttributeNameChar c = true := by
  obtain ⟨c, others, rfl⟩ := List.exists_cons_of_ne_nil proper.1
  exact ⟨c, others, rfl, proper.2 c List.mem_cons_self⟩

theorem trimStart_written (proper : entry.Proper) (rest : List Char) :
    trimStart (entry.written ++ rest) = entry.name ++ (entry.value.written ++ rest) := by
  obtain ⟨c, others, same, letter⟩ := proper.1.exists_cons
  calc
    trimStart (entry.written ++ rest)
        = trimStart (entry.name ++ (entry.value.written ++ rest)) := by
          simp only [WrittenAttribute.written, List.cons_append, List.append_assoc]
          rfl
    _ = entry.name ++ (entry.value.written ++ rest) := by
          rw [same]
          exact trimStart_of_not_blank (isBlank_eq_false letter) _

/-- The blank before an attribute ends what stands before it. -/
theorem stops_written (proper : entry.Proper) : Stops (entry.written ++ rest) := by
  constructor
  · exact stop_cons rfl _
  · obtain ⟨c, others, same, letter⟩ := proper.1.exists_cons
    rw [trimStart_written proper, same]
    simpa using ne_of_isAttributeNameChar letter rfl

/-- No tag ends before an attribute. -/
theorem ending?_written (proper : entry.Proper) : ending? (entry.written ++ rest) = none := by
  have trimmed := trimStart_written proper rest
  obtain ⟨c, others, same, letter⟩ := proper.1.exists_cons
  rw [same, List.cons_append] at trimmed
  unfold ending?
  split
  · rename_i after ends
    cases trimmed.symm.trans ends
    exact absurd letter (by decide)
  · rename_i after ends
    cases trimmed.symm.trans ends
    exact absurd letter (by decide)
  · rfl

theorem attributeEnds_written (proper : entry.Proper) (stops : Stops rest) :
    ∃ others, attributeEnds (entry.written ++ rest) = rest :: others := by
  obtain ⟨others, ends⟩ := valueEnds_written proper.2 stops
  have stop := head?_written_append entry.value stops
  have named : ((entry.name ++ (entry.value.written ++ rest)).length = (entry.written ++ rest).length ||
      entry.name.isEmpty) = false := by
    simp [WrittenAttribute.written, Nat.add_assoc, proper.1.1]
  refine ⟨others, ?_⟩
  simp only [attributeEnds, trimStart_written proper, takeWhile_append_of_stop proper.1.2 stop,
    dropWhile_append_of_stop proper.1.2 stop, ends, named, Bool.false_eq_true, if_false]

theorem attributes_written_append (proper : entry.Proper) (stops : Stops rest) :
    attributes (entry.written ++ rest) = entry.read :: attributes rest := by
  obtain ⟨c, others, same, letter⟩ := proper.1.exists_cons
  have stop := head?_written_append entry.value stops
  have named : (entry.written ++ rest).dropWhile (!isAttributeNameChar ·) =
      c :: (others ++ (entry.value.written ++ rest)) := by
    have blank : (!isAttributeNameChar ' ') = true := rfl
    simp [WrittenAttribute.written, same, blank, letter]
  have whole := takeWhile_append_of_stop proper.1.2 stop
  rw [same, List.cons_append] at whole
  have inside : ∀ d ∈ others, isAttributeNameChar d = true := by
    intro d member
    exact proper.1.2 d (same ▸ List.mem_cons_of_mem c member)
  rw [attributes_eq, named]
  simp only [whole, dropWhile_append_of_stop inside stop, value?_written proper.2 stops]
  cases kind : entry.value with
  | absent => simp [WrittenAttribute.read, WrittenValue.text?, WrittenValue.written, same, kind]
  | quoted quote text => simp [WrittenAttribute.read, WrittenValue.text?, same, kind]

end

variable {entries : List WrittenAttribute} {tail : List Char}

theorem stops_flatMap_written (proper : ∀ entry ∈ entries, entry.Proper) (stops : Stops tail) :
    Stops (entries.flatMap (·.written) ++ tail) := by
  cases entries with
  | nil => exact stops
  | cons entry others =>
      rw [List.flatMap_cons, List.append_assoc]
      exact stops_written (proper entry List.mem_cons_self)

/-- The end of a tag is found after all its attributes. -/
theorem close?_flatMap_written (proper : ∀ entry ∈ entries, entry.Proper) (stops : Stops tail)
    {selfClosing : Bool} {rest : List Char} (ended : ending? tail = some (selfClosing, rest)) :
    close? (entries.flatMap (·.written) ++ tail) = some ⟨tail, selfClosing, rest⟩ := by
  induction entries with
  | nil =>
      rw [List.flatMap_nil, List.nil_append, close?_eq, ended]
  | cons entry others ih =>
      obtain ⟨here, later⟩ := List.forall_mem_cons.1 proper
      obtain ⟨more, ends⟩ := attributeEnds_written here (stops_flatMap_written later stops)
      -- The text after the attribute comes first, and from there the tag ends.
      rw [List.flatMap_cons, List.append_assoc, close?_eq, ending?_written here, ends]
      simp only [List.findSome?_cons, ih later]

/-- Attributes are read as they were written. -/
theorem attributes_flatMap_written (proper : ∀ entry ∈ entries, entry.Proper) :
    attributes (entries.flatMap (·.written)) = entries.map (·.read) := by
  induction entries with
  | nil =>
      rw [attributes_eq]
      rfl
  | cons entry others ih =>
      obtain ⟨here, later⟩ := List.forall_mem_cons.1 proper
      have stops := stops_flatMap_written later stops_nil
      rw [List.append_nil] at stops
      rw [List.flatMap_cons, attributes_written_append here stops, ih later, List.map_cons]

end Stencil.StartTag
