import Mathlib.Data.List.Basic
import Stencil.Proofs.StartTag.Pattern

/-! The attributes that are reported of a tag, against those that it is read with.

The attributes are read once more from the part of the tag that they take, without looking
at where the tag ends. This gives what the tag was read with unless an equals sign has no
value after it, or a value without quotes begins with a quotation mark that comes again:
then the second reading goes over the end of an attribute, and from there on is never
where the first one was.
-/

set_option autoImplicit false

namespace Stencil.StartTag

open Text (isBlank trimStart takeWhile_append_of_stop dropWhile_append_of_stop stop_cons)

/-- The text that a tag gives an attribute; after an equals sign alone it is empty. -/
def TagValue.text? : TagValue → Option (List Char)
  | .absent => none
  | .missing => some []
  | .bare text | .quoted text => some text

/-- The value reads as it is from the part of the tag that begins with it. -/
def TagValue.Clear : TagValue → List Char → Prop
  | .absent, _ | .quoted _, _ => True
  | .missing, _ => False
  | .bare [], _ => True
  | .bare (mark :: inner), later => IsQuote mark → mark ∉ inner ++ later

instance : (value : TagValue) → (later : List Char) → Decidable (value.Clear later)
  | .absent, _ | .quoted _, _ | .bare [], _ => .isTrue trivial
  | .missing, _ => .isFalse id
  | .bare (mark :: inner), later =>
      inferInstanceAs (Decidable ((mark = '"' ∨ mark = '\'') → mark ∉ inner ++ later))

/-- The attribute as it should be reported. -/
def TagAttribute.report (entry : TagAttribute) : String × Option String :=
  (String.ofList entry.name, entry.value.text?.map String.ofList)

/-- Every value is clear of what comes after it. -/
def AllClear : List TagAttribute → Prop
  | [] => True
  | entry :: others => entry.value.Clear (others.flatMap (·.source)) ∧ AllClear others

instance decideAllClear : (entries : List TagAttribute) → Decidable (AllClear entries)
  | [] => .isTrue trivial
  | entry :: others =>
      have := decideAllClear others
      inferInstanceAs (Decidable (entry.value.Clear (others.flatMap (·.source)) ∧ AllClear others))

section

variable {name rest : List Char}

theorem dropWhile_run {skipped : List Char} (dark : ∀ c ∈ skipped, isAttributeNameChar c = false)
    (named : ProperName name) (rest : List Char) :
    (skipped ++ (name ++ rest)).dropWhile (!isAttributeNameChar ·) = name ++ rest := by
  obtain ⟨c, others, rfl, letter⟩ := named.exists_cons
  exact dropWhile_append_of_stop (by simpa using dark) (stop_cons (by simp [letter]) _)

/-- A name is read where the first character of one stands, and a value after it. -/
theorem attributes_run {skipped : List Char} (dark : ∀ c ∈ skipped, isAttributeNameChar c = false)
    (named : ProperName name) (stop : ∀ c ∈ rest.head?, isAttributeNameChar c = false) :
    attributes (skipped ++ (name ++ rest)) =
      match value? rest with
      | some (value, after) => (String.ofList name, some (String.ofList value)) :: attributes after
      | none => (String.ofList name, none) :: attributes rest := by
  have start := dropWhile_run dark named rest
  obtain ⟨c, others, rfl, -⟩ := named.exists_cons
  rw [List.cons_append] at start
  have whole := takeWhile_append_of_stop named.2 stop
  have after := dropWhile_append_of_stop (List.forall_mem_cons.1 named.2).2 stop
  rw [attributes_eq, List.cons_append, start]
  cases found : value? rest with
  | none => simp only [after, ← List.cons_append, whole, found]
  | some pair => simp only [after, ← List.cons_append, whole, found]

theorem value?_equals {before : List Char} (blank : ∀ c ∈ before, isBlank c = true) (rest : List Char) :
    value? (before ++ '=' :: rest) = (quotedValue? (trimStart rest)).or (bareValue? (trimStart rest)) := by
  simp only [value?, trimStart_append_of_blank blank, trimStart_equals]

theorem valueReadings_of_stops (stops : Stops rest) : valueReadings rest = [(.absent, rest)] := by
  unfold valueReadings
  split
  · rename_i after equals
    exact absurd (congrArg List.head? equals) stops.2
  · rfl

/-- What a value is read from is longer than what comes after it. -/
theorem after_suffix_tail {text value after : List Char}
    (found : (quotedValue? text).or (bareValue? text) = some (value, after)) : after <:+ text.tail := by
  rcases Option.or_eq_some_iff.1 found with quoted | ⟨-, bare⟩
  · obtain ⟨mark, -, -, rfl⟩ := quotedValue?_eq_some quoted
    exact ⟨value ++ [mark], by simp⟩
  · obtain ⟨filled, -, rfl⟩ := bareValue?_eq_some bare
    obtain ⟨c, others, rfl⟩ := List.exists_cons_of_ne_nil filled
    exact List.suffix_append others after

/-- A value that is read is among what can be read there, and is more than an equals sign. -/
theorem mem_valueReadings_of_value? {text value after : List Char}
    (found : value? text = some (value, after)) :
    ∃ written, (written, after) ∈ valueReadings text ∧ written ≠ .missing ∧ written.text? = some value := by
  unfold value? at found
  split at found
  · rename_i rest equals
    rcases Option.or_eq_some_iff.1 found with quoted | ⟨-, bare⟩
    · exact ⟨.quoted value, by simp [valueReadings, equals, quoted], nofun, rfl⟩
    · exact ⟨.bare value, by simp [valueReadings, equals, bare], nofun, rfl⟩
  · cases found

end

/-- The blank before an attribute ends what stands before it. -/
theorem stops_source_append {entry : TagAttribute} (proper : entry.Proper) (rest : List Char) :
    Stops (entry.source ++ rest) ∧ ∀ c ∈ (entry.source ++ rest).head?, isBareValueChar c = false := by
  obtain ⟨spelling, -, trimmed, -⟩ := exists_trimStart_source proper rest
  obtain ⟨gap, written, filled, blank, named, -, source⟩ := proper
  obtain ⟨d, gap, rfl⟩ := List.exists_cons_of_ne_nil filled
  obtain ⟨c, letters, same, letter⟩ := named.exists_cons
  have first := blank d List.mem_cons_self
  rw [source, List.cons_append, List.cons_append] at trimmed ⊢
  refine ⟨⟨stop_cons (isAttributeNameChar_of_isBlank first) _, ?_⟩, stop_cons (by simp [isBareValueChar, first]) _⟩
  rw [trimmed, same]
  simpa using ne_of_isAttributeNameChar letter rfl

/-- What comes after an attribute: others, or nothing. -/
theorem stops_flatMap_source {entries : List TagAttribute} (proper : ∀ entry ∈ entries, entry.Proper) :
    Stops (entries.flatMap (·.source)) ∧
      ∀ c ∈ (entries.flatMap (·.source)).head?, isBareValueChar c = false := by
  cases entries with
  | nil => exact ⟨stops_nil, nofun⟩
  | cons entry others => exact stops_source_append (proper entry List.mem_cons_self) _

section

variable {later : List Char}

theorem valueReadings_equals {before : List Char} (blank : ∀ c ∈ before, isBlank c = true)
    (rest : List Char) : valueReadings (before ++ '=' :: rest) =
      ((quotedValue? (trimStart rest)).map fun (text, after) => (.quoted text, after)).toList ++
        ((bareValue? (trimStart rest)).map fun (text, after) => (.bare text, after)).toList ++
        [(.missing, rest)] := by
  simp only [valueReadings, trimStart_append_of_blank blank, trimStart_equals]

/-- Of what can be read as a value, one that is clear comes first. -/
theorem valueReadings_spelled {value : TagValue} {spelling : List Char} (spelled : value.Spelled spelling)
    (stops : Stops later) (edge : ∀ c ∈ later.head?, isBareValueChar c = false) (clear : value.Clear later) :
    ∃ others, valueReadings (spelling ++ later) = (value, later) :: others := by
  cases spelled with
  | absent => exact ⟨[], valueReadings_of_stops stops⟩
  | missing => exact clear.elim
  | @bare before after text beforeBlank afterBlank filled inside =>
      obtain ⟨c, others, rfl⟩ := List.exists_cons_of_ne_nil filled
      have dark := (not_blank_of_isBareValueChar (inside c List.mem_cons_self)).1
      have value : trimStart (after ++ (c :: others ++ later)) = c :: others ++ later := by
        rw [trimStart_append_of_blank afterBlank]
        exact trimStart_of_not_blank dark _
      have noQuote : quotedValue? (c :: others ++ later) = none := by
        cases found : quotedValue? (c :: others ++ later) with
        | none => rfl
        | some pair =>
            obtain ⟨mark, isQuote, -, whole⟩ := quotedValue?_eq_some found
            obtain ⟨rfl, again⟩ := List.cons.inj whole
            refine absurd ?_ (clear isQuote)
            rw [show others ++ later = _ from again]
            simp
      have read : bareValue? (c :: others ++ later) = some (c :: others, later) := by
        simp only [bareValue?, takeWhile_append_of_stop inside edge, dropWhile_append_of_stop inside edge]
        rfl
      rw [List.append_assoc, List.cons_append, List.append_assoc, valueReadings_equals beforeBlank, value,
        noQuote, read]
      exact ⟨_, rfl⟩
  | @quoted before after text mark beforeBlank afterBlank isQuote closed =>
      have value : trimStart (after ++ mark :: (text ++ mark :: later)) = mark :: (text ++ mark :: later) := by
        rw [trimStart_append_of_blank afterBlank, trimStart_quote isQuote]
      have written : before ++ '=' :: (after ++ mark :: (text ++ [mark])) ++ later =
          before ++ '=' :: (after ++ mark :: (text ++ mark :: later)) := by simp
      rw [written, valueReadings_equals beforeBlank, value, quotedValue?_append isQuote closed]
      exact ⟨_, rfl⟩

/-- The first value that can be read is the one that is, but for an equals sign alone. -/
theorem value?_of_valueReadings {text : List Char} {value : TagValue} {others : List (TagValue × List Char)}
    (first : valueReadings text = (value, later) :: others) (some : value ≠ .missing) :
    value? text = value.text?.map (·, later) := by
  unfold valueReadings at first
  split at first
  · rename_i rest equals
    simp only at first
    rw [value?, equals]
    cases quoted : quotedValue? (trimStart rest) with
    | some pair =>
        rw [quoted] at first
        cases first
        simp only [quoted]
        rfl
    | none =>
        cases bare : bareValue? (trimStart rest) with
        | some pair =>
            rw [quoted, bare] at first
            cases first
            simp only [quoted, bare]
            rfl
        | none =>
            rw [quoted, bare] at first
            cases first
            exact absurd rfl some
  · rename_i other
    cases first
    unfold value?
    split
    · exact absurd ‹_› (other _)
    · rfl

theorem value?_spelled {value : TagValue} {spelling : List Char} (spelled : value.Spelled spelling)
    (stops : Stops later) (edge : ∀ c ∈ later.head?, isBareValueChar c = false) (clear : value.Clear later) :
    value? (spelling ++ later) = value.text?.map (·, later) := by
  obtain ⟨others, first⟩ := valueReadings_spelled spelled stops edge clear
  refine value?_of_valueReadings first ?_
  rintro rfl
  exact clear

/-- What is read of an attribute: its name, and a value from the place after that. -/
theorem exists_attributes_source {entry : TagAttribute} (proper : entry.Proper)
    (stop : ∀ c ∈ later.head?, isAttributeNameChar c = false) :
    ∃ spelling, entry.value.Spelled spelling ∧ attributes (entry.source ++ later) =
      match value? (spelling ++ later) with
      | some (value, after) => (String.ofList entry.name, some (String.ofList value)) :: attributes after
      | none => (String.ofList entry.name, none) :: attributes (spelling ++ later) := by
  obtain ⟨gap, spelling, -, blank, named, spelled, source⟩ := proper
  have dark : ∀ c ∈ gap, isAttributeNameChar c = false :=
    fun c member => isAttributeNameChar_of_isBlank (blank c member)
  refine ⟨spelling, spelled, ?_⟩
  rw [source, List.append_assoc, List.append_assoc, attributes_run dark named (spelled.stop stop)]

/-- An attribute with a clear value is reported as it was read. -/
theorem attributes_source_append {entry : TagAttribute} (proper : entry.Proper) (stops : Stops later)
    (edge : ∀ c ∈ later.head?, isBareValueChar c = false) (clear : entry.value.Clear later) :
    attributes (entry.source ++ later) = entry.report :: attributes later := by
  obtain ⟨spelling, spelled, read⟩ := exists_attributes_source proper stops.1
  rw [read, value?_spelled spelled stops edge clear, TagAttribute.report]
  generalize entry.value = value at spelled clear
  cases spelled with
  | absent => rfl
  | missing => exact clear.elim
  | bare => rfl
  | quoted => rfl

end

/-- What a text of attributes is read from: characters that are in no name, a name, what is
written after it, and the rest. -/
theorem exists_of_attributes_eq_cons {text : List Char} {entry : String × Option String}
    {others : List (String × Option String)} (read : attributes text = entry :: others) :
    ∃ skipped name written spelling after, (∀ c ∈ skipped, isAttributeNameChar c = false) ∧
      ProperName name ∧ TagValue.Spelled written spelling ∧ written ≠ .missing ∧
      (∀ c ∈ (spelling ++ after).head?, isAttributeNameChar c = false) ∧
      text = skipped ++ (name ++ (spelling ++ after)) ∧
      entry = (String.ofList name, written.text?.map String.ofList) ∧ others = attributes after := by
  obtain ⟨skipped, later, rfl, skips, begins⟩ := Text.exists_run (!isAttributeNameChar ·) text
  obtain ⟨name, region, rfl, letters, stop⟩ := Text.exists_run isAttributeNameChar later
  have dark : ∀ c ∈ skipped, isAttributeNameChar c = false := by simpa using skips
  by_cases none : name = []
  · -- Then nothing is left, since the next character would neither be in a name nor be skipped.
    subst none
    cases region with
    | nil =>
        rw [attributes_eq, dropWhile_append_of_stop skips begins] at read
        cases read
    | cons c rest => simpa [stop c rfl] using begins c rfl
  have named : ProperName name := ⟨none, letters⟩
  rw [attributes_run dark named stop] at read
  cases found : value? region with
  | none =>
      rw [found] at read
      obtain ⟨rfl, rfl⟩ := List.cons.inj read
      exact ⟨skipped, name, .absent, [], region, dark, named, .absent, nofun, stop, rfl, rfl, rfl⟩
  | some pair =>
      obtain ⟨written, among, other, text?⟩ := mem_valueReadings_of_value? found
      obtain ⟨spelling, spelled, rfl⟩ := exists_spelled_of_mem_valueReadings among
      rw [found] at read
      obtain ⟨rfl, rfl⟩ := List.cons.inj read
      exact ⟨skipped, name, written, spelling, pair.2, dark, named, spelled, other, stop, rfl,
        by rw [text?]; rfl, rfl⟩

/-! A reading that is ahead of the tag's own one never comes back to it. -/

theorem suffix_append_cases {text front back : List Char} (suffix : text <:+ front ++ back) :
    text <:+ back ∨ ∃ kept, kept <:+ front ∧ text = kept ++ back := by
  obtain ⟨before, whole⟩ := suffix
  rcases List.append_eq_append_iff.1 whole with ⟨kept, rfl, rfl⟩ | ⟨skipped, rfl, rfl⟩
  · exact .inr ⟨kept, List.suffix_append _ _, rfl⟩
  · exact .inl (List.suffix_append _ _)

theorem dropWhile_suffix_of_append {p : Char → Bool} {text front back : List Char}
    (dark : ∀ c ∈ front, p c = true) (suffix : text <:+ front ++ back) : text.dropWhile p <:+ back := by
  rcases suffix_append_cases suffix with later | ⟨kept, within, rfl⟩
  · exact (List.dropWhile_suffix p).trans later
  · rw [List.dropWhile_append_of_pos fun c member => dark c (within.subset member)]
    exact List.dropWhile_suffix p

/-- The part of a value's spelling in which a name can be read. -/
def TagValue.Body : TagValue → List Char → Prop
  | .absent, body | .missing, body => body = []
  | .bare text, body => body = text
  | .quoted text, body => ∃ mark, IsQuote mark ∧ mark ∉ text ∧ body = mark :: (text ++ [mark])

theorem TagValue.Spelled.exists_body {value : TagValue} {spelling : List Char}
    (spelled : value.Spelled spelling) : ∃ lead body, spelling = lead ++ body ∧
      (∀ c ∈ lead, isAttributeNameChar c = false) ∧ value.Body body := by
  have dark {before after : List Char} (beforeBlank : ∀ c ∈ before, isBlank c = true)
      (afterBlank : ∀ c ∈ after, isBlank c = true) :
      ∀ c ∈ before ++ '=' :: after, isAttributeNameChar c = false := by
    refine List.forall_mem_append.2 ⟨fun c member => ?_, List.forall_mem_cons.2 ⟨rfl, fun c member => ?_⟩⟩
    · exact isAttributeNameChar_of_isBlank (beforeBlank c member)
    · exact isAttributeNameChar_of_isBlank (afterBlank c member)
  cases spelled with
  | absent => exact ⟨[], [], rfl, nofun, rfl⟩
  | missing before after => exact ⟨_, [], (List.append_nil _).symm, dark before after, rfl⟩
  | bare before after => exact ⟨_, _, by simp, dark before after, rfl⟩
  | quoted before after isQuote closed =>
      exact ⟨_, _, by simp, dark before after, _, isQuote, closed, rfl⟩

section

variable {name spelling written skipped after rest : List Char} {value other : TagValue}

/-- A name that is read after the beginning of the same name in a tag is read after its end. -/
theorem suffix_of_ahead (named : ProperName name) (stop : ∀ c ∈ rest.head?, isAttributeNameChar c = false)
    (dark : ∀ c ∈ skipped, isAttributeNameChar c = false)
    (ends : ∀ c ∈ after.head?, isAttributeNameChar c = false)
    (ahead : skipped ++ (name ++ after) <:+ (name ++ rest).tail) : skipped ++ (name ++ after) <:+ rest := by
  obtain ⟨c, others, rfl, letter⟩ := named.exists_cons
  rcases suffix_append_cases ahead with later | ⟨kept, within, same⟩
  · exact later
  · have letters : ∀ d ∈ kept, isAttributeNameChar d = true :=
      fun d member => named.2 d (List.mem_cons_of_mem c (within.subset member))
    cases skipped with
    | nil =>
        have whole := takeWhile_append_of_stop named.2 ends
        have part := takeWhile_append_of_stop letters stop
        rw [List.nil_append] at same
        rw [same, part] at whole
        exact absurd (whole ▸ within.length_le) (Nat.not_succ_le_self _)
    | cons d skipped =>
        cases kept with
        | nil => exact same ▸ List.suffix_refl _
        | cons e kept =>
            obtain ⟨rfl, -⟩ := List.cons.inj same
            exact absurd (dark d List.mem_cons_self) (by simp [letters d List.mem_cons_self])

theorem append_equals_ne_quoted {text : List Char} {mark : Char} (isQuote : IsQuote mark)
    (closed : mark ∉ text) : name ++ ('=' :: text) ≠ mark :: (text ++ [mark]) := by
  intro same
  have lengths := congrArg List.length same
  simp only [List.length_append, List.length_cons, List.length_nil] at lengths
  obtain ⟨c, rfl⟩ := List.length_eq_one_iff.1 (show name.length = 1 by omega)
  obtain ⟨rfl, turned⟩ := List.cons.inj same
  have member : c ∈ '=' :: text := by
    rw [show '=' :: text = text ++ [c] from turned]
    simp
  rcases List.mem_cons.1 member with rfl | inside
  · rcases isQuote with wrong | wrong <;> cases wrong
  · exact closed inside

/-- What is written for a text is longer than this, by one character only with neither blanks nor
quotes. -/
theorem TagValue.Spelled.length_lt {text : List Char} (spelled : other.Spelled written)
    (given : other ≠ .missing) (same : other.text? = some text) :
    text.length < written.length ∧ (written.length = text.length + 1 → written = '=' :: text) := by
  cases spelled with
  | absent => cases same
  | missing => exact absurd rfl given
  | @bare before after =>
      cases same
      simp only [List.length_append, List.length_cons]
      refine ⟨by omega, fun short => ?_⟩
      obtain rfl : before = [] := List.length_eq_zero_iff.1 (by omega)
      obtain rfl : after = [] := List.length_eq_zero_iff.1 (by omega)
      rfl
  | quoted =>
      cases same
      simp only [List.length_append, List.length_cons]
      exact ⟨by omega, fun short => by omega⟩

/-- The end of an attribute that is read ahead of another one with the same name and text comes
after the end of that one. -/
theorem length_lt_of_ahead (named : ProperName name) (spelled : value.Spelled spelling)
    (stop : ∀ c ∈ rest.head?, isAttributeNameChar c = false)
    (dark : ∀ c ∈ skipped, isAttributeNameChar c = false) (other_spelled : other.Spelled written)
    (some : other ≠ .missing) (ends : ∀ c ∈ (written ++ after).head?, isAttributeNameChar c = false)
    (same : other.text? = value.text?)
    (ahead : skipped ++ (name ++ (written ++ after)) <:+ (name ++ (spelling ++ rest)).tail) :
    after.length < rest.length := by
  have later := suffix_of_ahead named (spelled.stop stop) dark ends ahead
  obtain ⟨lead, body, rfl, leadDark, isBody⟩ := spelled.exists_body
  rw [List.append_assoc] at later
  have within : name ++ (written ++ after) <:+ body ++ rest := by
    have leadSkips : ∀ c ∈ lead, (!isAttributeNameChar c) = true := by simpa using leadDark
    have found := dropWhile_suffix_of_append leadSkips later
    rwa [dropWhile_run dark named] at found
  have short := within.length_le
  have filled := List.length_pos_iff.2 named.1
  simp only [List.length_append] at short
  cases value with
  | absent | missing =>
      rw [show body = [] from isBody, List.length_nil] at short
      omega
  | bare text =>
      rw [show body = text from isBody] at short
      have longer := (other_spelled.length_lt some same).1
      omega
  | quoted text =>
      obtain ⟨mark, isQuote, closed, rfl⟩ := isBody
      obtain ⟨longer, least⟩ := other_spelled.length_lt some same
      simp only [List.length_append, List.length_cons, List.length_nil] at short
      by_contra long
      -- Then the name is a quotation mark, and the same text is in quotes and after an equals sign.
      rw [least (by omega), ← List.append_assoc] at within
      have whole := within.eq_of_length (by
        simp only [List.length_append, List.length_cons, List.length_nil]
        omega)
      exact append_equals_ne_quoted isQuote closed (List.append_inj' whole (by omega)).1

end

/-- The last character of a value that is read is no blank. -/
theorem TagValue.Spelled.exists_concat {value : TagValue} {spelling : List Char}
    (spelled : value.Spelled spelling) (some : value ≠ .missing) :
    spelling = [] ∨ ∃ front c, isBlank c = false ∧ spelling = front ++ [c] := by
  cases spelled with
  | absent => exact .inl rfl
  | missing => exact absurd rfl some
  | @bare before after text _ _ filled inside =>
      obtain ⟨front, c, rfl⟩ := (List.eq_nil_or_concat text).resolve_left filled
      refine .inr ⟨before ++ '=' :: (after ++ front), c, ?_, by simp⟩
      exact (not_blank_of_isBareValueChar (inside c (by simp))).1
  | @quoted before after text mark _ _ isQuote _ =>
      refine .inr ⟨before ++ '=' :: (after ++ mark :: text), mark, ?_, by simp⟩
      rcases isQuote with rfl | rfl <;> rfl

/-- No blank stands before the end of an attribute that is read. -/
theorem exists_dark_suffix {skipped name written after : List Char} {value : TagValue}
    (named : ProperName name) (spelled : value.Spelled written) (some : value ≠ .missing) :
    ∃ c, isBlank c = false ∧ c :: after <:+ skipped ++ (name ++ (written ++ after)) := by
  rcases spelled.exists_concat some with rfl | ⟨front, c, dark, rfl⟩
  · obtain ⟨front, c, rfl⟩ := (List.eq_nil_or_concat name).resolve_left named.1
    exact ⟨c, isBlank_eq_false (named.2 c (by simp)), skipped ++ front, by simp⟩
  · exact ⟨c, dark, skipped ++ (name ++ front), by simp⟩

section

variable {text after gap run : List Char}

/-- What comes after no blank is not in the blanks before an attribute. -/
theorem suffix_tail_of_dark {c : Char} (dark : isBlank c = false) (blank : ∀ d ∈ gap, isBlank d = true)
    (inner : c :: after <:+ text) (outer : gap ++ run <:+ text) (shorter : after.length < (gap ++ run).length) :
    after <:+ run.tail := by
  rcases suffix_append_cases (List.suffix_of_suffix_length_le inner outer shorter) with
    later | ⟨kept, within, same⟩
  · obtain ⟨front, rfl⟩ := later
    cases front with
    | nil => exact List.suffix_refl after
    | cons d front => exact ⟨front ++ [c], by simp⟩
  · cases kept with
    | nil =>
        rw [← show c :: after = run from same]
        exact List.suffix_refl after
    | cons d kept =>
        obtain ⟨rfl, -⟩ := List.cons.inj same
        exact absurd (blank c (within.subset List.mem_cons_self)) (by simp [dark])

/-- An attribute that is read ahead of its place ends after its end. -/
theorem exists_of_attributes_ahead {name spelling rest : List Char} {value : TagValue}
    {others : List (String × Option String)} (named : ProperName name) (spelled : value.Spelled spelling)
    (stop : ∀ c ∈ rest.head?, isAttributeNameChar c = false)
    (ahead : text <:+ (name ++ (spelling ++ rest)).tail)
    (read : attributes text = (String.ofList name, value.text?.map String.ofList) :: others) :
    ∃ c after, isBlank c = false ∧ c :: after <:+ text ∧ after.length < rest.length ∧
      attributes after = others := by
  obtain ⟨skipped, letters, other, written, after, dark, proper, otherSpelled, some, ends, rfl, entry, rfl⟩ :=
    exists_of_attributes_eq_cons read
  obtain ⟨sameName, sameText⟩ := Prod.mk.inj entry
  obtain rfl := String.ofList_injective sameName
  have sameText := Option.map_injective (fun _ _ same => String.ofList_injective same) sameText
  obtain ⟨c, bright, suffix⟩ := exists_dark_suffix proper otherSpelled some
  exact ⟨c, after, bright, suffix,
    length_lt_of_ahead named spelled stop dark otherSpelled some ends sameText.symm ahead, rfl⟩

end

/-- What is read ahead of the attributes of a tag is not these attributes. -/
-- Each of them ends later where it is read ahead, and nothing is left for the last one.
theorem attributes_ne_of_ahead {name spelling text : List Char} {value : TagValue}
    {others : List TagAttribute} (named : ProperName name) (spelled : value.Spelled spelling)
    (proper : ∀ entry ∈ others, entry.Proper)
    (ahead : text <:+ (name ++ (spelling ++ others.flatMap (·.source))).tail) :
    attributes text ≠ (String.ofList name, value.text?.map String.ofList) :: others.map (·.report) := by
  intro read
  induction others generalizing name spelling value text with
  | nil =>
      obtain ⟨-, after, -, -, shorter, -⟩ :=
        exists_of_attributes_ahead named spelled (stops_flatMap_source proper).1.1 ahead read
      exact Nat.not_lt_zero _ shorter
  | cons entry others ih =>
      obtain ⟨c, after, dark, suffix, shorter, rest⟩ :=
        exists_of_attributes_ahead named spelled (stops_flatMap_source proper).1.1 ahead read
      obtain ⟨here, later⟩ := List.forall_mem_cons.1 proper
      obtain ⟨gap, written, -, blank, entryNamed, entrySpelled, source⟩ := here
      have whole : (entry :: others).flatMap (·.source) =
          gap ++ (entry.name ++ (written ++ others.flatMap (·.source))) := by
        rw [List.flatMap_cons, source, List.append_assoc, List.append_assoc]
      rw [whole] at ahead shorter
      obtain ⟨d, letters, rfl⟩ := List.exists_cons_of_ne_nil named.1
      have outer : gap ++ (entry.name ++ (written ++ others.flatMap (·.source))) <:+
          (d :: letters ++ (spelling ++ (gap ++ (entry.name ++ (written ++ others.flatMap (·.source)))))).tail :=
        ⟨letters ++ spelling, by simp⟩
      have again := suffix_tail_of_dark dark blank (suffix.trans ahead) outer shorter
      exact ih entryNamed entrySpelled later again rest

/-- After an equals sign alone the next attribute is read as the value. -/
theorem attributes_ne_of_missing {entry : TagAttribute} {others : List TagAttribute} (proper : entry.Proper)
    (later : ∀ other ∈ others, other.Proper) (missing : entry.value = .missing) :
    attributes (entry.source ++ others.flatMap (·.source)) ≠ entry.report :: others.map (·.report) := by
  obtain ⟨spelling, spelled, read⟩ := exists_attributes_source proper (stops_flatMap_source later).1.1
  rw [read, TagAttribute.report, missing]
  rw [missing] at spelled
  cases spelled with
  | @missing before after beforeBlank afterBlank =>
  rw [List.append_assoc, List.cons_append, value?_equals beforeBlank, trimStart_append_of_blank afterBlank]
  cases others with
  | nil => simp [quotedValue?, bareValue?, trimStart, TagValue.text?]
  | cons other others =>
      obtain ⟨otherProper, later⟩ := List.forall_mem_cons.1 later
      obtain ⟨gap, written, -, blank, named, spelled, source⟩ := otherProper
      have trimmed : trimStart ((other :: others).flatMap (·.source)) =
          other.name ++ (written ++ others.flatMap (·.source)) := by
        rw [List.flatMap_cons, source, List.append_assoc, List.append_assoc, trimStart_gap_append blank named]
      rw [trimmed]
      split
      · rename_i value after found
        intro same
        exact attributes_ne_of_ahead named spelled later (after_suffix_tail found) (List.cons.inj same).2
      · simp [TagValue.text?]

/-- After a quotation mark that comes again the value is what stands between the two. -/
theorem attributes_ne_of_quote {entry : TagAttribute} {later : List Char}
    {others : List (String × Option String)} (proper : entry.Proper)
    (stop : ∀ c ∈ later.head?, isAttributeNameChar c = false) {mark : Char} {inner : List Char}
    (isQuote : IsQuote mark) (bare : entry.value = .bare (mark :: inner)) (again : mark ∈ inner ++ later) :
    attributes (entry.source ++ later) ≠ entry.report :: others := by
  obtain ⟨spelling, spelled, read⟩ := exists_attributes_source proper stop
  obtain ⟨value, after, whole, closed⟩ := List.eq_append_cons_of_mem again
  rw [read, TagAttribute.report, bare]
  rw [bare] at spelled
  cases spelled with
  | @bare before gap text beforeBlank afterBlank filled inside =>
  have found : value? (before ++ '=' :: (gap ++ mark :: inner) ++ later) = some (value, after) := by
    rw [List.append_assoc, List.cons_append, List.append_assoc, value?_equals beforeBlank,
      trimStart_append_of_blank afterBlank, List.cons_append, trimStart_quote isQuote, whole,
      quotedValue?_append isQuote closed]
    rfl
  rw [found]
  intro same
  have text := Option.some.inj (Prod.mk.inj (List.cons.inj same).1).2
  exact closed (String.ofList_injective text ▸ List.mem_cons_self)

/-- The attributes of a tag are reported as they were read just if all their values are clear. -/
theorem attributes_flatMap_eq_iff {entries : List TagAttribute} (proper : ∀ entry ∈ entries, entry.Proper) :
    attributes (entries.flatMap (·.source)) = entries.map (·.report) ↔ AllClear entries := by
  induction entries with
  | nil => exact iff_of_true (attributes_eq []) trivial
  | cons entry others ih =>
      obtain ⟨here, later⟩ := List.forall_mem_cons.1 proper
      obtain ⟨stops, edge⟩ := stops_flatMap_source later
      rw [List.flatMap_cons, List.map_cons, AllClear]
      by_cases clear : entry.value.Clear (others.flatMap (·.source))
      · rw [attributes_source_append here stops edge clear, List.cons_inj_right, ih later]
        exact (and_iff_right clear).symm
      · refine iff_of_false (fun read => ?_) fun all => clear all.1
        obtain ⟨source, name, value⟩ := entry
        cases value with
        | absent | quoted => exact clear trivial
        | missing => exact attributes_ne_of_missing here later rfl read
        | bare text =>
            cases text with
            | nil => exact clear trivial
            | cons mark inner =>
                simp only [TagValue.Clear, Classical.not_imp, not_not] at clear
                exact attributes_ne_of_quote here stops.1 clear.1 rfl clear.2 read

example : ¬ AllClear [⟨[' ', 'b', '=', '"'], ['b'], .bare ['"']⟩, ⟨[' ', 'd', '=', '"'], ['d'], .bare ['"']⟩] := by
  decide

end Stencil.StartTag
