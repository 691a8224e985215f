import Stencil.Proofs.Events.StartTags

/-! Declarations among the events of a source.

What begins with an exclamation mark and is no comment is an event by itself, whatever is in
it. With a question mark it is tried as a start tag before, for a name may begin with one.
-/

set_option autoImplicit false

namespace Stencil.Markup

open StartTag (BeginsTag isTagNameChar tagReading?)

/-- A declaration as it is written. -/
def declaration (mark : Char) (text : List Char) : List Char :=
  '<' :: mark :: (text ++ ['>'])

section

variable {mark : Char} {text : List Char}

theorem declaration_append (mark : Char) (text rest : List Char) :
    declaration mark text ++ rest = '<' :: mark :: (text ++ '>' :: rest) := by
  simp [declaration]

theorem readOther?_declaration (marked : mark = '!' ∨ mark = '?') (plain : '>' ∉ text) (rest : List Char) :
    readOther? (declaration mark text ++ rest) = some (.other (String.ofList (declaration mark text)), rest) := by
  have isMark : (mark = '!' || mark = '?') = true := by simpa using marked
  rw [declaration_append, readOther?, if_pos isMark, afterBracket?_append plain, ← declaration_append,
    Option.map_some, upTo_append]

/-- With an exclamation mark only a comment is tried before. -/
theorem readTag?_exclamation (plain : '>' ∉ text) (noComment : ¬ ['-', '-'] <+: text) (rest : List Char) :
    readTag? (declaration '!' text ++ rest) = some ([.other (String.ofList (declaration '!' text))], rest) := by
  have comment : readComment? (declaration '!' text ++ rest) = none := by
    have apart : Text.strip? ['<', '!', '-', '-'] (declaration '!' text ++ rest) = none := by
      by_contra found
      obtain ⟨inside, opened⟩ := Option.ne_none_iff_exists'.1 found
      have dashes : text ++ '>' :: rest = '-' :: '-' :: inside := by
        simpa [declaration] using (Text.strip?_eq_some_iff.1 opened).symm
      match text, noComment, dashes with
      | [], _, dashes => simp at dashes
      | [c], _, dashes => simp at dashes
      | c :: d :: text, noComment, dashes =>
          obtain ⟨first, dashes⟩ := List.cons.inj dashes
          obtain ⟨second, -⟩ := List.cons.inj dashes
          exact noComment ⟨text, by rw [first, second]; rfl⟩
    rw [readComment?, apart]
  have finish : readEndTag? (declaration '!' text ++ rest) = none := by
    simp [readEndTag?, declaration, Text.strip?]
  have start : readStartTag? (declaration '!' text ++ rest) = none := by
    rw [declaration_append]
    rfl
  simp only [readTag?, constructs, List.findSome?_cons, comment, finish, start,
    readOther?_declaration (.inl rfl) plain, single, Option.map_none, Option.map_some]

/-- With a question mark a start tag is. -/
theorem readTag?_question (plain : '>' ∉ text) (rest : List Char) :
    readTag? (declaration '?' text ++ rest) = (readStartTag? (declaration '?' text ++ rest)).or
      (some ([.other (String.ofList (declaration '?' text))], rest)) := by
  have other := readOther?_declaration (.inr rfl) plain rest
  rw [declaration_append] at other ⊢
  rw [readTag?_eq (by decide) (by decide), other]
  rfl

theorem events_of_readTag? {rest : String} {read : List Event} {after : List Char}
    (found : readTag? (declaration mark text ++ rest.toList) = some (read, after)) :
    events (String.ofList (declaration mark text) ++ rest) = read ++ eventsFrom [] after := by
  rw [declaration_append] at found
  rw [events, String.toList_append, String.toList_ofList, declaration_append, eventsFrom_tag found]
  rfl

end

theorem readStartTag?_eq_none_iff {text : List Char} : readStartTag? text = none ↔ ¬ BeginsTag text := by
  rw [readStartTag?_eq, Option.map_eq_none_iff, ← StartTag.tagReading?_isSome_iff, Option.not_isSome_iff_eq_none]

/-- The name of a start tag begins as the tag does after its bracket, but for the case of a letter. -/
theorem exists_head_of_reports {text : List Char} {tag name : String} {reported : List (String × Option String)}
    (reports : Reports text tag name reported) :
    ∃ c, isTagNameChar c = true ∧ name.toList.head? = some c.toLower ∧
      ∀ mark, ['<', mark] <+: tag.toList ↔ c = mark := by
  obtain ⟨read, found, rfl, rfl, -⟩ := reports
  obtain ⟨region, rfl, named, letters, inside⟩ := StartTag.exists_of_tagReading? found
  obtain ⟨c, others, same⟩ := List.exists_cons_of_ne_nil named
  have closed := (StartTag.map_reading? region).symm.trans (by rw [inside, Option.map_some])
  obtain ⟨tailed, ended⟩ := StartTag.close?_suffix _ closed
  obtain ⟨front, split⟩ := (StartTag.ending?_suffix ended).1.trans tailed
  have tag : upTo ('<' :: (read.name ++ region)) read.close.rest = '<' :: (read.name ++ front) := by
    rw [← split, ← List.append_assoc, ← List.cons_append, upTo_append]
  rw [tag, same, String.toList_ofList, String.toList_ofList]
  refine ⟨c, letters c (by simp [same]), rfl, fun mark => ?_⟩
  simp [eq_comm]

/-- A declaration is an event by itself, and what comes after it is read as if it were alone:
with an exclamation mark if it is no comment, with a question mark just if no start tag
begins there. Names begin with a question mark in these start tags and in no others. -/
theorem events_declaration {text : List Char} (plain : '>' ∉ text) (rest : String) :
    (¬ ['-', '-'] <+: text →
      events (String.ofList (declaration '!' text) ++ rest) =
        .other (String.ofList (declaration '!' text)) :: events rest) ∧
    (events (String.ofList (declaration '?' text) ++ rest) =
        .other (String.ofList (declaration '?' text)) :: events rest ↔
      ¬ BeginsTag (declaration '?' text ++ rest.toList)) ∧
    ∀ source tag name reported, .startTag tag name reported ∈ events source →
      name.toList.head? ≠ some '!' ∧ (name.toList.head? = some '?' ↔ ['<', '?'] <+: tag.toList) := by
  refine ⟨fun noComment => ?_, ?_, ?_⟩
  · exact events_of_readTag? (readTag?_exclamation plain noComment rest.toList)
  · have found := readTag?_question plain rest.toList
    by_cases begins : BeginsTag (declaration '?' text ++ rest.toList)
    · refine iff_of_false ?_ (not_not_intro begins)
      obtain ⟨read, tagged⟩ := Option.isSome_iff_exists.1 (StartTag.tagReading?_isSome_iff.2 begins)
      rw [readStartTag?_eq, tagged] at found
      rw [events_of_readTag? found]
      exact fun same => nomatch (List.cons.inj same).1
    · refine iff_of_true ?_ begins
      rw [readStartTag?_eq_none_iff.2 begins] at found
      exact events_of_readTag? found
  · intro source tag name reported member
    obtain ⟨front, back, split⟩ := List.append_of_mem member
    obtain ⟨c, letter, head, begins⟩ := exists_head_of_reports (reports_of_eventsFrom split)
    rw [head, begins, Option.some.injEq, toLower_eq_iff rfl]
    refine ⟨fun same => ?_, Iff.rfl⟩
    obtain rfl := (toLower_eq_iff rfl).1 (Option.some.inj same)
    exact absurd letter (by decide)

theorem events_declaration_slash :
    events ("<!a>" ++ "<b") = .other "<!a>" :: events "<b" ∧
      events ("<?a/b?>" ++ "<b") = .other "<?a/b?>" :: events "<b" := by
  have first := events_declaration (by decide : '>' ∉ ['a']) "<b"
  have second := events_declaration (by decide : '>' ∉ ['a', '/', 'b', '?']) "<b"
  refine ⟨first.1 (by decide), second.2.1.2 ?_⟩
  have unread : StartTag.reading? ['/', 'b', '?', '>', '<', 'b'] = none := by
    rw [StartTag.reading?_eq]
    rfl
  have tagged : tagReading? (declaration '?' ['a', '/', 'b', '?'] ++ "<b".toList) =
      (StartTag.reading? ['/', 'b', '?', '>', '<', 'b']).map fun read =>
        ⟨['?', 'a'], read.1, read.2⟩ := rfl
  rw [← StartTag.tagReading?_isSome_iff, tagged, unread]
  decide

/-- The name of a start tag begins with a question mark. -/
theorem events_declaration_xml : events "<?xml?>" = [.startTag "<?xml?>" "?xml?" []] := by
  have tagged : ProperTag ['?', 'x', 'm', 'l', '?'] := ⟨by decide, List.all_eq_true.1 (by decide)⟩
  have read := @eventsFrom_writtenStart _ [] tagged nofun (by decide) [] []
  rw [eventsFrom_nil] at read
  exact read

end Stencil.Markup
