import Stencil.Proofs.StartTag
import Stencil.Proofs.Trim

/-! What a start tag is, and where one ends.

After its name a tag is attributes one after another, each after blanks, and its end. The
search for the end takes names and values as long as they are, and of the values it tries
the first that will do. It still finds an end wherever there is one.
-/

set_option autoImplicit false

namespace Stencil.StartTag

open Text (isBlank trimStart takeWhile_append_of_stop dropWhile_append_of_stop stop_cons)

def IsQuote (c : Char) : Prop :=
  c = '"' ∨ c = '\''

/-- What a tag has after the name of an attribute: nothing, an equals sign alone, or one
before a text. -/
inductive TagValue where
  | absent
  | missing
  | bare (text : List Char)
  | quoted (text : List Char)
  deriving DecidableEq, Repr

/-- How a value is written, from the end of the name on. -/
inductive TagValue.Spelled : TagValue → List Char → Prop where
  | absent : Spelled .absent []
  | missing {before after : List Char} (beforeBlank : ∀ c ∈ before, isBlank c = true)
      (afterBlank : ∀ c ∈ after, isBlank c = true) :
      Spelled .missing (before ++ '=' :: after)
  | bare {before after text : List Char} (beforeBlank : ∀ c ∈ before, isBlank c = true)
      (afterBlank : ∀ c ∈ after, isBlank c = true) (filled : text ≠ [])
      (inside : ∀ c ∈ text, isBareValueChar c = true) :
      Spelled (.bare text) (before ++ '=' :: (after ++ text))
  | quoted {before after text : List Char} {mark : Char} (beforeBlank : ∀ c ∈ before, isBlank c = true)
      (afterBlank : ∀ c ∈ after, isBlank c = true) (isQuote : IsQuote mark) (closed : mark ∉ text) :
      Spelled (.quoted text) (before ++ '=' :: (after ++ mark :: (text ++ [mark])))

/-- An attribute of a tag, and the part of the tag that it takes. -/
structure TagAttribute where
  source : List Char
  name : List Char
  value : TagValue
  deriving DecidableEq, Repr

/-- Blanks, a name and a value are written one after another. -/
def TagAttribute.Proper (entry : TagAttribute) : Prop :=
  ∃ gap spelling, gap ≠ [] ∧ (∀ c ∈ gap, isBlank c = true) ∧ ProperName entry.name ∧
    entry.value.Spelled spelling ∧ entry.source = gap ++ (entry.name ++ spelling)

/-- The text goes on as a tag does after its name. -/
def GoesOn (text : List Char) : Prop :=
  ∃ (entries : List TagAttribute) (tail : List Char), (∀ entry ∈ entries, entry.Proper) ∧
    (ending? tail).isSome = true ∧ text = entries.flatMap (·.source) ++ tail

/-- The text begins with a start tag. -/
def BeginsTag (text : List Char) : Prop :=
  ∃ name region, text = '<' :: (name ++ region) ∧ name ≠ [] ∧ (∀ c ∈ name, isTagNameChar c = true) ∧
    GoesOn region

section

variable {text rest : List Char}

theorem trimStart_append_of_blank {gap : List Char} (blank : ∀ c ∈ gap, isBlank c = true)
    (rest : List Char) : trimStart (gap ++ rest) = trimStart rest :=
  List.dropWhile_append_of_pos blank

theorem trimStart_gap_append {gap name : List Char} (blank : ∀ c ∈ gap, isBlank c = true)
    (named : ProperName name) (rest : List Char) : trimStart (gap ++ (name ++ rest)) = name ++ rest := by
  obtain ⟨c, letters, rfl, letter⟩ := named.exists_cons
  rw [trimStart_append_of_blank blank]
  exact trimStart_of_not_blank (isBlank_eq_false letter) _

theorem ending?_append_of_blank {gap : List Char} (blank : ∀ c ∈ gap, isBlank c = true)
    (rest : List Char) : ending? (gap ++ rest) = ending? rest := by
  simp only [ending?, trimStart_append_of_blank blank]

theorem isAttributeNameChar_of_isBlank {c : Char} (blank : isBlank c = true) :
    isAttributeNameChar c = false := by
  simp [isAttributeNameChar, blank]

theorem not_blank_of_isBareValueChar {c : Char} (inside : isBareValueChar c = true) :
    isBlank c = false ∧ c ≠ '>' := by
  simpa [isBareValueChar] using inside

/-- What goes on with no attribute begins with a blank, or with a mark that is in no name. -/
theorem stops_of_trimStart {c : Char} (trimmed : trimStart text = c :: rest) (other : c ≠ '=')
    (ends : isAttributeNameChar c = false ∨ rest.length + 1 < text.length) : Stops text := by
  refine ⟨?_, by simpa [trimmed] using other⟩
  cases text with
  | nil => nofun
  | cons first others =>
      apply stop_cons
      cases blank : isBlank first with
      | true => exact isAttributeNameChar_of_isBlank blank
      | false =>
          rw [trimStart_of_not_blank blank] at trimmed
          obtain ⟨rfl, rfl⟩ := List.cons.inj trimmed
          exact ends.resolve_right (Nat.lt_irrefl _)

theorem exists_of_ending? (ended : (ending? text).isSome = true) :
    (∃ rest, trimStart text = '>' :: rest) ∨
      ∃ rest after, trimStart text = '/' :: rest ∧ trimStart rest = '>' :: after := by
  obtain ⟨⟨selfClosing, rest⟩, ended⟩ := Option.isSome_iff_exists.1 ended
  unfold ending? at ended
  split at ended
  · exact .inl ⟨_, ‹_›⟩
  · split at ended
    · exact .inr ⟨_, _, ‹_›, ‹_›⟩
    · cases ended
  · cases ended

theorem mem_attributeEnds_iff {after : List Char} :
    after ∈ attributeEnds text ↔ (trimStart text).length < text.length ∧
      (trimStart text).takeWhile isAttributeNameChar ≠ [] ∧
      after ∈ valueEnds ((trimStart text).dropWhile isAttributeNameChar) := by
  have shorter := Text.length_trimStart_le text
  simp only [attributeEnds]
  split
  · rename_i none
    simp only [Bool.or_eq_true, decide_eq_true_eq, List.isEmpty_iff] at none
    refine iff_of_false List.not_mem_nil fun member => ?_
    exact none.elim (fun same => absurd same (Nat.ne_of_lt member.1)) member.2.1
  · rename_i some
    simp only [Bool.or_eq_true, decide_eq_true_eq, List.isEmpty_iff, not_or] at some
    exact ⟨fun member => ⟨Nat.lt_of_le_of_ne shorter some.1, some.2, member⟩, fun member => member.2.2⟩

/-- No tag ends in the middle of a name or before an equals sign. -/
theorem stops_of_close? (closed : (close? text).isSome = true) : Stops text := by
  rw [close?_eq] at closed
  cases ended : ending? text with
  | some pair =>
      rcases exists_of_ending? (Option.isSome_of_eq_some ended) with ⟨rest, trimmed⟩ | ⟨rest, _, trimmed, -⟩
      · exact stops_of_trimStart trimmed (by decide) (.inl rfl)
      · exact stops_of_trimStart trimmed (by decide) (.inl rfl)
  | none =>
      rw [ended] at closed
      obtain ⟨after, member, -⟩ := List.findSome?_isSome_iff.1 closed
      obtain ⟨shorter, named, -⟩ := mem_attributeEnds_iff.1 member
      cases trimmed : trimStart text with
      | nil => simp [trimmed] at named
      | cons c rest =>
          rw [trimmed] at named shorter
          have letter : isAttributeNameChar c = true := by
            by_contra other
            exact named (by simp [other])
          exact stops_of_trimStart trimmed (ne_of_isAttributeNameChar letter rfl) (.inr shorter)

theorem close?_of_mem_attributeEnds {after : List Char} (member : after ∈ attributeEnds text)
    (closed : (close? after).isSome = true) : (close? text).isSome = true := by
  rw [close?_eq]
  cases ending? text with
  | some pair => rfl
  | none => exact List.findSome?_isSome_iff.2 ⟨after, member, closed⟩

theorem close?_of_ending? (ended : (ending? text).isSome = true) : (close? text).isSome = true := by
  obtain ⟨pair, ended⟩ := Option.isSome_iff_exists.1 ended
  rw [close?_eq, ended]
  rfl

/-- More blanks before the rest of a tag change nothing. -/
theorem close?_append_of_blank {gap : List Char} (blank : ∀ c ∈ gap, isBlank c = true)
    (closed : (close? rest).isSome = true) : (close? (gap ++ rest)).isSome = true := by
  rw [close?_eq] at closed
  cases ended : ending? rest with
  | some pair =>
      apply close?_of_ending?
      rw [ending?_append_of_blank blank, ended]
      rfl
  | none =>
      rw [ended] at closed
      obtain ⟨after, member, closed⟩ := List.findSome?_isSome_iff.1 closed
      obtain ⟨shorter, named, member⟩ := mem_attributeEnds_iff.1 member
      refine close?_of_mem_attributeEnds (mem_attributeEnds_iff.2 ?_) closed
      rw [trimStart_append_of_blank blank, List.length_append]
      exact ⟨Nat.lt_of_lt_of_le shorter (Nat.le_add_left _ _), named, member⟩

/-- A value without quotes may as well take all that it can. -/
theorem close?_dropWhile (closed : (close? rest).isSome = true) :
    (close? (rest.dropWhile isBareValueChar)).isSome = true := by
  cases rest with
  | nil => exact closed
  | cons c others =>
      cases inside : isBareValueChar c with
      | false => rwa [List.dropWhile_cons_of_neg (by simp [inside])]
      | true =>
          obtain ⟨dark, open_⟩ := not_blank_of_isBareValueChar inside
          have noName : attributeEnds (c :: others) = [] := by
            refine List.eq_nil_iff_forall_not_mem.2 fun after member => ?_
            have shorter := (mem_attributeEnds_iff.1 member).1
            rw [trimStart_of_not_blank dark] at shorter
            exact absurd shorter (Nat.lt_irrefl _)
          have ended : (ending? (c :: others)).isSome = true := by
            rw [close?_eq, noName] at closed
            cases ended : ending? (c :: others) with
            | none => rw [ended] at closed; cases closed
            | some pair => rfl
          -- The value goes on with a slash only, and the bracket after that ends the tag.
          rcases exists_of_ending? ended with ⟨after, trimmed⟩ | ⟨after, last, trimmed, bracket⟩
          · rw [trimStart_of_not_blank dark] at trimmed
            exact absurd (List.cons.inj trimmed).1 open_
          · rw [trimStart_of_not_blank dark] at trimmed
            obtain ⟨rfl, rfl⟩ := List.cons.inj trimmed
            have stop : ∀ d ∈ others.head?, isBareValueChar d = false := by
              intro d head
              by_contra goesOn
              obtain ⟨dark, other⟩ := not_blank_of_isBareValueChar (Bool.not_eq_false _ ▸ goesOn)
              obtain ⟨more, rfl⟩ := List.head?_eq_some_iff.1 head
              rw [trimStart_of_not_blank dark] at bracket
              exact other (List.cons.inj bracket).1
            have whole := @dropWhile_append_of_stop isBareValueChar [] others nofun stop
            rw [List.nil_append] at whole
            rw [List.dropWhile_cons_of_pos inside, whole]
            exact close?_of_ending? (by rw [ending?, bracket]; rfl)

/-- Blanks before an equals sign go on with no name. -/
theorem head?_equals {before : List Char} (blank : ∀ c ∈ before, isBlank c = true) (rest : List Char) :
    ∀ c ∈ (before ++ '=' :: rest).head?, isAttributeNameChar c = false := by
  cases before with
  | nil => exact stop_cons rfl rest
  | cons c before => exact stop_cons (isAttributeNameChar_of_isBlank (blank c List.mem_cons_self)) _

/-- Neither a value nor what comes after it goes on with the name before it. -/
theorem TagValue.Spelled.stop {value : TagValue} {spelling : List Char} (spelled : value.Spelled spelling)
    (stop : ∀ c ∈ rest.head?, isAttributeNameChar c = false) :
    ∀ c ∈ (spelling ++ rest).head?, isAttributeNameChar c = false := by
  cases spelled with
  | absent => exact stop
  | missing blank _ | bare blank _ _ _ | quoted blank _ _ _ =>
      rw [List.append_assoc, List.cons_append]
      exact head?_equals blank _

theorem valueEnds_equals {before : List Char} (blank : ∀ c ∈ before, isBlank c = true) (rest : List Char) :
    valueEnds (before ++ '=' :: rest) = ((quotedValue? (trimStart rest)).map (·.2)).toList ++
      ((bareValue? (trimStart rest)).map (·.2)).toList ++ [rest] := by
  simp only [valueEnds, trimStart_append_of_blank blank, trimStart_equals]

theorem valueEnds_of_stops (stops : Stops rest) : valueEnds rest = [rest] := by
  unfold valueEnds
  split
  · rename_i after equals
    exact absurd (congrArg List.head? equals) stops.2
  · rfl

/-- From one of the places after a value the tag ends, if it does so after the value's spelling. -/
theorem TagValue.Spelled.exists_mem_valueEnds {value : TagValue} {spelling : List Char}
    (spelled : value.Spelled spelling) (closed : (close? rest).isSome = true) :
    ∃ after ∈ valueEnds (spelling ++ rest), (close? after).isSome = true := by
  cases spelled with
  | absent =>
      refine ⟨rest, ?_, closed⟩
      rw [List.nil_append, valueEnds_of_stops (stops_of_close? closed)]
      exact List.mem_singleton_self rest
  | @missing before after beforeBlank afterBlank =>
      refine ⟨after ++ rest, ?_, close?_append_of_blank afterBlank closed⟩
      rw [List.append_assoc, List.cons_append, valueEnds_equals beforeBlank]
      exact List.mem_append_right _ (List.mem_singleton_self _)
  | @bare before after text beforeBlank afterBlank filled inside =>
      refine ⟨rest.dropWhile isBareValueChar, ?_, close?_dropWhile closed⟩
      obtain ⟨c, others, rfl⟩ := List.exists_cons_of_ne_nil filled
      have dark := (not_blank_of_isBareValueChar (inside c List.mem_cons_self)).1
      have value : trimStart (after ++ (c :: others ++ rest)) = c :: others ++ rest := by
        rw [trimStart_append_of_blank afterBlank]
        exact trimStart_of_not_blank dark _
      have read : bareValue? (c :: others ++ rest) =
          some (c :: others ++ rest.takeWhile isBareValueChar, rest.dropWhile isBareValueChar) := by
        simp only [bareValue?, List.takeWhile_append_of_pos inside, List.dropWhile_append_of_pos inside]
        rfl
      rw [List.append_assoc, List.cons_append, List.append_assoc, valueEnds_equals beforeBlank, value, read]
      exact List.mem_append_left _ (List.mem_append_right _ (List.mem_singleton_self _))
  | @quoted before after text mark beforeBlank afterBlank isQuote closed =>
      refine ⟨rest, ?_, ‹_›⟩
      have value : trimStart (after ++ mark :: (text ++ mark :: rest)) = mark :: (text ++ mark :: rest) := by
        rw [trimStart_append_of_blank afterBlank, trimStart_quote isQuote]
      have written : before ++ '=' :: (after ++ mark :: (text ++ [mark])) ++ rest =
          before ++ '=' :: (after ++ mark :: (text ++ mark :: rest)) := by simp
      rw [written, valueEnds_equals beforeBlank, value, quotedValue?_append isQuote closed]
      exact List.mem_append_left _ (List.mem_append_left _ (List.mem_singleton_self _))

/-- After the blanks at its start an attribute is its name and what is written after that. -/
theorem exists_trimStart_source {entry : TagAttribute} (proper : entry.Proper) (rest : List Char) :
    ∃ spelling, entry.value.Spelled spelling ∧
      trimStart (entry.source ++ rest) = entry.name ++ (spelling ++ rest) ∧
      (entry.name ++ (spelling ++ rest)).length < (entry.source ++ rest).length := by
  obtain ⟨gap, spelling, filled, blank, named, spelled, source⟩ := proper
  refine ⟨spelling, spelled, ?_, ?_⟩
  · rw [source, List.append_assoc, List.append_assoc, trimStart_gap_append blank named]
  · have := List.length_pos_iff.2 filled
    simp only [source, List.length_append]
    omega

theorem close?_source_append {entry : TagAttribute} (proper : entry.Proper)
    (closed : (close? rest).isSome = true) : (close? (entry.source ++ rest)).isSome = true := by
  obtain ⟨spelling, spelled, trimmed, longer⟩ := exists_trimStart_source proper rest
  obtain ⟨-, -, -, -, named, -⟩ := proper
  obtain ⟨after, member, closes⟩ := spelled.exists_mem_valueEnds closed
  have stop := spelled.stop (stops_of_close? closed).1
  refine close?_of_mem_attributeEnds (mem_attributeEnds_iff.2 ?_) closes
  rw [trimmed, takeWhile_append_of_stop named.2 stop, dropWhile_append_of_stop named.2 stop]
  exact ⟨longer, named.1, member⟩

/-- The search for the end of a tag finds one wherever there is one. -/
theorem close?_of_goesOn (goesOn : GoesOn text) : (close? text).isSome = true := by
  obtain ⟨entries, tail, proper, ended, rfl⟩ := goesOn
  induction entries with
  | nil => exact close?_of_ending? ended
  | cons entry entries ih =>
      obtain ⟨here, later⟩ := List.forall_mem_cons.1 proper
      rw [List.flatMap_cons, List.append_assoc]
      exact close?_source_append here (ih later)

end

/-! The attributes that the search finds on its way to the end. -/

/-- What is read after a name, with the text after it, in the order in which it is tried. -/
def valueReadings (text : List Char) : List (TagValue × List Char) :=
  match trimStart text with
  | '=' :: rest =>
      let value := trimStart rest
      ((quotedValue? value).map fun (text, after) => (.quoted text, after)).toList ++
        ((bareValue? value).map fun (text, after) => (.bare text, after)).toList ++ [(.missing, rest)]
  | _ => [(.absent, text)]

/-- The attributes that can be read at the start of a text, with the text after each. -/
def attributeReadings (text : List Char) : List (TagAttribute × List Char) :=
  let named := trimStart text
  let name := named.takeWhile isAttributeNameChar
  if named.length = text.length || name.isEmpty then []
  else (valueReadings (named.dropWhile isAttributeNameChar)).map fun (value, after) =>
    (⟨text.take (text.length - after.length), name, value⟩, after)

theorem map_valueReadings (text : List Char) : (valueReadings text).map (·.2) = valueEnds text := by
  by_cases valued : ∃ rest, trimStart text = '=' :: rest
  · obtain ⟨rest, equals⟩ := valued
    simp [valueReadings, valueEnds, equals, Function.comp_def, Option.toList_map]
  · have readings : valueReadings text = [(.absent, text)] := by
      unfold valueReadings
      split
      · exact absurd ⟨_, ‹_›⟩ valued
      · rfl
    have ends : valueEnds text = [text] := by
      unfold valueEnds
      split
      · exact absurd ⟨_, ‹_›⟩ valued
      · rfl
    rw [readings, ends]
    rfl

theorem map_attributeReadings (text : List Char) :
    (attributeReadings text).map (·.2) = attributeEnds text := by
  simp only [attributeReadings, attributeEnds]
  split
  · rfl
  · rw [← map_valueReadings, List.map_map]
    rfl

theorem length_of_mem_attributeReadings {text : List Char} {entry : TagAttribute × List Char}
    (member : entry ∈ attributeReadings text) : entry.2.length < text.length := by
  apply length_of_mem_attributeEnds
  rw [← map_attributeReadings]
  exact List.mem_map_of_mem member

/-- The attributes of a tag from a place between two of them, and its end. -/
def reading? (text : List Char) : Option (List TagAttribute × Close) :=
  match ending? text with
  | some (selfClosing, rest) => some ([], ⟨text, selfClosing, rest⟩)
  | none => (attributeReadings text).attach.findSome? fun entry =>
      (reading? entry.1.2).map fun (entries, close) => (entry.1.1 :: entries, close)
termination_by text.length
decreasing_by exact length_of_mem_attributeReadings entry.2

theorem reading?_eq (text : List Char) : reading? text =
    match ending? text with
    | some (selfClosing, rest) => some ([], ⟨text, selfClosing, rest⟩)
    | none => (attributeReadings text).findSome? fun entry =>
        (reading? entry.2).map fun (entries, close) => (entry.1 :: entries, close) := by
  rw [reading?]
  split
  · rfl
  · exact findSome?_attach (fun entry : TagAttribute × List Char =>
      (reading? entry.2).map fun (entries, close) => (entry.1 :: entries, close)) _

/-- The end that is found with the attributes is the one that is found without them. -/
theorem map_reading? (text : List Char) : (reading? text).map (·.2) = close? text := by
  rw [reading?_eq, close?_eq]
  cases ending? text with
  | some pair => rfl
  | none =>
      rw [← map_attributeReadings, List.findSome?_map, List.map_findSome?, ← List.head?_filterMap,
        ← List.head?_filterMap]
      refine congrArg List.head? (List.filterMap_congr fun entry member => ?_)
      have := length_of_mem_attributeReadings member
      rw [Function.comp_apply, Function.comp_apply, ← map_reading? entry.2, Option.map_map]
      rfl
termination_by text.length

theorem quotedValue?_eq_some {text value after : List Char} (found : quotedValue? text = some (value, after)) :
    ∃ mark, IsQuote mark ∧ mark ∉ value ∧ text = mark :: (value ++ mark :: after) := by
  unfold quotedValue? at found
  split at found
  · cases found
  · rename_i mark rest
    split at found
    · rename_i isQuote
      split at found
      · rename_i c tail dropped
        cases found
        have same : c = mark := by
          have stopped := Text.stop_dropWhile (· != mark) rest
          rw [dropped] at stopped
          simpa using stopped c rfl
        refine ⟨mark, by simpa [IsQuote] using isQuote, fun member => ?_, ?_⟩
        · simpa using List.all_eq_true.1 List.all_takeWhile mark member
        · rw [← same, ← dropped, same, List.takeWhile_append_dropWhile]
      · cases found
    · cases found

theorem bareValue?_eq_some {text value after : List Char} (found : bareValue? text = some (value, after)) :
    value ≠ [] ∧ (∀ c ∈ value, isBareValueChar c = true) ∧ text = value ++ after := by
  unfold bareValue? at found
  split at found
  · cases found
  · rename_i filled
    cases found
    exact ⟨by simpa using filled, List.all_eq_true.1 List.all_takeWhile, List.takeWhile_append_dropWhile.symm⟩

section

variable {text after : List Char}

/-- What is read as a value is spelled so. -/
theorem exists_spelled_of_mem_valueReadings {value : TagValue} (member : (value, after) ∈ valueReadings text) :
    ∃ spelling, value.Spelled spelling ∧ text = spelling ++ after := by
  unfold valueReadings at member
  split at member
  · rename_i rest equals
    obtain ⟨before, split, beforeBlank⟩ := Text.exists_blanks_append_trimStart text
    obtain ⟨gap, inner, gapBlank⟩ := Text.exists_blanks_append_trimStart rest
    rw [equals] at split
    simp only [List.mem_append, Option.mem_toList, Option.map_eq_some_iff, List.mem_singleton] at member
    rcases member with (⟨⟨written, tail⟩, found, same⟩ | ⟨⟨written, tail⟩, found, same⟩) | same
    · cases same
      obtain ⟨mark, isQuote, closed, whole⟩ := quotedValue?_eq_some found
      refine ⟨_, .quoted beforeBlank gapBlank isQuote closed, ?_⟩
      rw [split, inner, whole]
      simp
    · cases same
      obtain ⟨filled, inside, whole⟩ := bareValue?_eq_some found
      refine ⟨_, .bare beforeBlank gapBlank filled inside, ?_⟩
      rw [split, inner, whole]
      simp
    · cases same
      refine ⟨_, @TagValue.Spelled.missing _ [] beforeBlank nofun, ?_⟩
      rw [split]
      simp
  · cases List.mem_singleton.1 member
    exact ⟨[], .absent, rfl⟩

/-- What is read as an attribute is one. -/
theorem proper_of_mem_attributeReadings {entry : TagAttribute}
    (member : (entry, after) ∈ attributeReadings text) : entry.Proper ∧ text = entry.source ++ after := by
  obtain ⟨gap, split, blank⟩ := Text.exists_blanks_append_trimStart text
  simp only [attributeReadings] at member
  split at member
  · cases member
  · rename_i named
    simp only [Bool.or_eq_true, decide_eq_true_eq, List.isEmpty_iff, not_or] at named
    obtain ⟨⟨value, tail⟩, among, same⟩ := List.mem_map.1 member
    cases same
    obtain ⟨spelling, spelled, rest⟩ := exists_spelled_of_mem_valueReadings among
    have whole : text = gap ++ ((trimStart text).takeWhile isAttributeNameChar ++ spelling) ++ tail := by
      rw [List.append_assoc, List.append_assoc, ← rest, List.takeWhile_append_dropWhile, ← split]
    have source : text.take (text.length - tail.length) =
        gap ++ ((trimStart text).takeWhile isAttributeNameChar ++ spelling) := by
      generalize gap ++ ((trimStart text).takeWhile isAttributeNameChar ++ spelling) = front at whole ⊢
      rw [whole]
      simp
    refine ⟨⟨gap, spelling, ?_, blank, ⟨named.2, List.all_eq_true.1 List.all_takeWhile⟩, spelled, source⟩, ?_⟩
    · rintro rfl
      exact named.1 (congrArg List.length split).symm
    · rw [source, ← whole]

/-- A tag is the attributes that are read, and its end. -/
theorem proper_of_reading? {text : List Char} {entries : List TagAttribute} {close : Close}
    (read : reading? text = some (entries, close)) :
    (∀ entry ∈ entries, entry.Proper) ∧ text = entries.flatMap (·.source) ++ close.tail := by
  rw [reading?_eq] at read
  split at read
  · cases read
    exact ⟨nofun, rfl⟩
  · obtain ⟨⟨entry, after⟩, member, found⟩ := List.exists_of_findSome?_eq_some read
    obtain ⟨⟨others, last⟩, later, same⟩ := Option.map_eq_some_iff.1 found
    cases same
    have := length_of_mem_attributeReadings member
    obtain ⟨here, whole⟩ := proper_of_mem_attributeReadings member
    obtain ⟨proper, rest⟩ := proper_of_reading? later
    refine ⟨List.forall_mem_cons.2 ⟨here, proper⟩, whole.trans ?_⟩
    rw [show after = _ from rest, List.flatMap_cons, List.append_assoc]
termination_by text.length

/-- The search for the end of a tag finds one just where there is one. -/
theorem close?_isSome_iff : (close? text).isSome = true ↔ GoesOn text := by
  refine ⟨fun closed => ?_, close?_of_goesOn⟩
  obtain ⟨close, closed⟩ := Option.isSome_iff_exists.1 closed
  obtain ⟨⟨entries, last⟩, read, rfl⟩ := Option.map_eq_some_iff.1 ((map_reading? text).trans closed)
  obtain ⟨proper, whole⟩ := proper_of_reading? read
  have ended := (close?_suffix text closed).2
  exact ⟨entries, last.tail, proper, ended ▸ rfl, whole⟩

theorem reading?_isSome_iff : (reading? text).isSome = true ↔ GoesOn text := by
  rw [← close?_isSome_iff, ← map_reading?, Option.isSome_map]

/-- No name goes on where the rest of a tag begins. -/
theorem GoesOn.stop (goesOn : GoesOn text) : ∀ c ∈ text.head?, isTagNameChar c = false := by
  intro c head
  have dark := (stops_of_close? (close?_of_goesOn goesOn)).1 c head
  simp only [isAttributeNameChar, Bool.not_eq_false', Bool.or_eq_true] at dark
  simp only [isTagNameChar, Bool.not_eq_false', Bool.or_eq_true]
  tauto

end

/-- A start tag as it is read: its name, its attributes and its end. -/
structure TagReading where
  name : List Char
  attributes : List TagAttribute
  close : Close
  deriving DecidableEq, Repr

/-- The start tag at the start of a text. -/
def tagReading? : List Char → Option TagReading
  | '<' :: inside =>
      let name := inside.takeWhile isTagNameChar
      if name.isEmpty then none
      else (reading? (inside.dropWhile isTagNameChar)).map fun (entries, close) => ⟨name, entries, close⟩
  | _ => none

theorem tagReading?_append {name region : List Char} (named : name ≠ [])
    (letters : ∀ c ∈ name, isTagNameChar c = true) (stop : ∀ c ∈ region.head?, isTagNameChar c = false) :
    tagReading? ('<' :: (name ++ region)) =
      (reading? region).map fun (entries, close) => ⟨name, entries, close⟩ := by
  have filled : name.isEmpty = false := by simpa using named
  simp only [tagReading?, takeWhile_append_of_stop letters stop, dropWhile_append_of_stop letters stop, filled,
    Bool.false_eq_true, if_false]

/-- A text that is read as a start tag is one: a bracket, the name, the attributes and the end. -/
theorem exists_of_tagReading? {text : List Char} {read : TagReading} (found : tagReading? text = some read) :
    ∃ region, text = '<' :: (read.name ++ region) ∧ read.name ≠ [] ∧
      (∀ c ∈ read.name, isTagNameChar c = true) ∧ reading? region = some (read.attributes, read.close) := by
  unfold tagReading? at found
  split at found
  · rename_i inside
    simp only at found
    split at found
    · cases found
    · rename_i named
      obtain ⟨⟨entries, close⟩, region, rfl⟩ := Option.map_eq_some_iff.1 found
      exact ⟨_, by rw [List.takeWhile_append_dropWhile], by simpa using named,
        List.all_eq_true.1 List.all_takeWhile, region⟩
  · cases found

/-- A start tag is read at the start of a text just if one stands there. -/
theorem tagReading?_isSome_iff {text : List Char} : (tagReading? text).isSome = true ↔ BeginsTag text := by
  constructor
  · intro found
    obtain ⟨read, found⟩ := Option.isSome_iff_exists.1 found
    obtain ⟨region, whole, named, letters, inside⟩ := exists_of_tagReading? found
    exact ⟨read.name, region, whole, named, letters, reading?_isSome_iff.1 (Option.isSome_of_eq_some inside)⟩
  · rintro ⟨name, region, rfl, named, letters, goesOn⟩
    rw [tagReading?_append named letters goesOn.stop, Option.isSome_map]
    exact reading?_isSome_iff.2 goesOn

end Stencil.StartTag
