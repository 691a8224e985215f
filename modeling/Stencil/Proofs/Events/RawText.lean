import Stencil.Proofs.Events.StartTags
import Stencil.Proofs.StartTag.Steady

/-! The content of elements with raw text.

It ends where the mark of an end tag and the name of the element stand, in any case. Whether
the name ends there is not looked at, so the end tag of an element whose name only begins like
this one's cuts the content as well.
-/

set_option autoImplicit false

namespace Stencil.Markup

open StartTag (Steady TagAttribute attributes isTagNameChar spelledStart tagReading?)

theorem prefix_append_iff_of_apart {α : Type} {first : α} {others text rest : List α} (apart : first ∉ others)
    (filled : text ≠ []) : first :: others <+: text ++ (first :: others ++ rest) ↔ first :: others <+: text := by
  constructor
  · rintro ⟨tail, same⟩
    rcases List.append_eq_append_iff.1 same with ⟨kept, whole, -⟩ | ⟨kept, whole, again⟩
    · exact ⟨kept, whole.symm⟩
    · cases kept with
      | nil => exact ⟨[], whole.trans (List.append_nil _) ▸ List.append_nil _⟩
      | cons c kept =>
          -- The list would begin once more in itself.
          obtain ⟨d, text, rfl⟩ := List.exists_cons_of_ne_nil filled
          obtain ⟨rfl, -⟩ := List.cons.inj again
          obtain ⟨-, inside⟩ := List.cons.inj whole
          exact absurd (by simp [inside]) apart
  · intro begins
    exact begins.trans (List.prefix_append _ _)

/-- What the content ends at: the mark of an end tag, and the name of the element. -/
def endMark (name : List Char) : List Char :=
  '<' :: '/' :: lowercase name

section

variable {closing : List Char}

theorem lowercase_append (front back : List Char) :
    lowercase (front ++ back) = lowercase front ++ lowercase back :=
  List.map_append

theorem rawBody_cons (closing : List Char) (c : Char) (rest : List Char) :
    rawBody closing (c :: rest) = if closing <+: lowercase (c :: rest) then ([], c :: rest)
      else (c :: (rawBody closing rest).1, (rawBody closing rest).2) := by
  have here : lowercase ((c :: rest).take closing.length) = closing ↔ closing <+: lowercase (c :: rest) := by
    rw [List.prefix_iff_eq_take, lowercase, List.map_take, eq_comm]
    rfl
  rw [rawBody]
  simp only [here]

/-- The content is all that comes before a mark, unless the mark stands in it. -/
-- A mark that begins in the content ends in it, for it does not begin once more in itself.
theorem rawBody_append_eq_iff {first : Char} {others mark : List Char} (apart : first ∉ others)
    (marked : lowercase mark = first :: others) (body rest : List Char) :
    (rawBody (first :: others) (body ++ (mark ++ rest))).1 = body ↔ ¬ first :: others <:+: lowercase body := by
  induction body with
  | nil =>
      cases mark with
      | nil => cases marked
      | cons c mark =>
          have begins : first :: others <+: lowercase (c :: (mark ++ rest)) := by
            rw [← List.cons_append, lowercase_append, marked]
            exact List.prefix_append _ _
          rw [List.nil_append, List.cons_append, rawBody_cons, if_pos begins]
          simp [lowercase]
  | cons c body ih =>
      have whole : lowercase (c :: (body ++ (mark ++ rest))) =
          lowercase (c :: body) ++ (first :: others ++ lowercase rest) := by
        rw [← List.cons_append, lowercase_append, lowercase_append, marked]
      have here : first :: others <+: lowercase (c :: (body ++ (mark ++ rest))) ↔
          first :: others <+: lowercase (c :: body) := by
        rw [whole]
        exact prefix_append_iff_of_apart apart (List.cons_ne_nil _ _)
      have inside : first :: others <:+: lowercase (c :: body) ↔
          first :: others <+: lowercase (c :: body) ∨ first :: others <:+: lowercase body :=
        List.infix_cons_iff
      rw [List.cons_append, rawBody_cons, inside]
      by_cases begins : first :: others <+: lowercase (c :: body)
      · simp [here, begins]
      · simp [here, begins, ih]

/-- From there on there is a mark, if there is one at all. -/
theorem exists_of_rawBody {text : List Char} (begins : closing <+: lowercase text) (body : List Char) :
    ∃ front, (rawBody closing (body ++ text)).2 = front ++ text ∧ closing <+: lowercase (front ++ text) := by
  induction body with
  | nil =>
      cases text with
      | nil => exact ⟨[], rfl, begins⟩
      | cons c rest => exact ⟨[], by rw [List.nil_append, rawBody_cons, if_pos begins], begins⟩
  | cons c body ih =>
      rw [List.cons_append, rawBody_cons]
      split
      · rename_i here
        exact ⟨c :: body, rfl, here⟩
      · exact ih

end

section

variable {name word : List Char}

theorem isTagNameChar_of_toLower {c : Char} (letter : isTagNameChar c.toLower = true) :
    isTagNameChar c = true := by
  cases upper : c.isUpper with
  | false => rwa [Char.toLower_eq_of_not_isUpper (by simp [upper])] at letter
  | true =>
      have alphanum : c.isAlphanum = true := by simp [Char.isAlphanum, Char.isAlpha, upper]
      exact isTagNameChar_of_isAlphanum (.inl alphanum)

theorem properTag_of_lowercase (proper : ProperTag (lowercase word)) : ProperTag word := by
  obtain ⟨filled, letters⟩ := proper
  refine ⟨fun empty => filled (by rw [empty]; rfl), fun c member => ?_⟩
  exact isTagNameChar_of_toLower (letters _ (List.mem_map_of_mem member))

/-- The names of elements with raw text are names of tags, without an opening bracket. -/
theorem properTag_of_raw (raw : String.ofList (lowercase name) ∈ rawTextElements) :
    ProperTag (lowercase name) ∧ '<' ∉ lowercase name := by
  have proper : ∀ element ∈ rawTextElements, (element.toList ≠ [] ∧ element.toList.all isTagNameChar = true) ∧
      '<' ∉ element.toList := by
    decide
  obtain ⟨⟨filled, letters⟩, apart⟩ := proper _ raw
  rw [String.toList_ofList] at filled letters apart
  exact ⟨⟨filled, List.all_eq_true.1 letters⟩, apart⟩

/-- The mark of an end tag is one of any tag whose name begins like that, if a bracket comes later. -/
theorem exists_readTag?_end {c : Char} {text : List Char} (letter : isTagNameChar c = true)
    (closed : '>' ∈ text) :
    ∃ tag name rest, readTag? ('<' :: '/' :: c :: text) = some ([.endTag tag name], rest) := by
  have noComment : readComment? ('<' :: '/' :: c :: text) = none := by
    simp [readComment?, Text.strip?]
  have later : '>' ∈ (c :: text).dropWhile isTagNameChar := by
    have whole : '>' ∈ text.takeWhile isTagNameChar ++ text.dropWhile isTagNameChar := by
      rwa [List.takeWhile_append_dropWhile]
    rw [List.dropWhile_cons_of_pos letter]
    refine (List.mem_append.1 whole).resolve_left fun within => ?_
    exact absurd (List.all_eq_true.1 List.all_takeWhile _ within) (by decide)
  obtain ⟨before, rest, split, plain⟩ := List.eq_append_cons_of_mem later
  have read : readEndTag? ('<' :: '/' :: c :: text) =
      some (.endTag (String.ofList (upTo ('<' :: '/' :: c :: text) rest))
        (String.ofList (lowercase ((c :: text).takeWhile isTagNameChar))), rest) := by
    simp [readEndTag?, Text.strip?, letter, split, afterBracket?_append plain]
  simp only [readTag?, constructs, List.findSome?_cons, noComment, read, single, Option.map_none,
    Option.map_some]
  exact ⟨_, _, _, rfl⟩

variable {tag : List Char} {entries : List TagAttribute}

/-- A start tag of raw text is an event, and so is what comes before the mark of its end. -/
theorem eventsFrom_steady (steady : Steady tag name entries)
    (raw : String.ofList (lowercase name) ∈ rawTextElements) (after : List Char) :
    eventsFrom [] (tag ++ after) =
      .startTag (String.ofList tag) (String.ofList (lowercase name)) (attributes (entries.flatMap (·.source))) ::
        (textEvents (rawBody (endMark name) after).1 ++ eventsFrom [] (rawBody (endMark name) after).2) := by
  have isRaw : isRawText (String.ofList (lowercase name)) = true := by simpa [isRawText] using raw
  obtain ⟨tail, read⟩ := steady after
  obtain ⟨region, whole, -⟩ := StartTag.exists_of_tagReading? read
  have start := readStartTag?_eq (tag ++ after)
  rw [read, Option.map_some, upTo_append] at start
  have found := readTag?_of_readStartTag? start
  rw [whole] at found ⊢
  rw [eventsFrom_tag found]
  simp [afterStartTag, isRaw, endMark, textEvents]

/-- Text before an end tag is known from the events. -/
theorem textEvents_append_end_inj {first second : List Char} {tag name otherTag otherName : String}
    {events others : List Event}
    (same : textEvents first ++ .endTag tag name :: events = textEvents second ++ .endTag otherTag otherName :: others) :
    first = second := by
  cases first with
  | nil =>
      cases second with
      | nil => rfl
      | cons d second => cases same
  | cons c first =>
      cases second with
      | nil => cases same
      | cons d second =>
          obtain ⟨text, -⟩ := List.cons.inj same
          exact String.ofList_injective (Event.text.inj text)

section

variable (raw : String.ofList (lowercase name) ∈ rawTextElements)

include raw

/-- The mark of an end tag stands only once in itself. -/
theorem rawBody_endMark_iff {mark : List Char} (marked : lowercase mark = endMark name) (body after : List Char) :
    (rawBody (endMark name) (body ++ (mark ++ after))).1 = body ↔ ¬ endMark name <:+: lowercase body := by
  have apart : '<' ∉ '/' :: lowercase name := by simpa using (properTag_of_raw raw).2
  exact rawBody_append_eq_iff apart marked body after

/-- Where the mark stands, a name begins. -/
theorem exists_of_endMark {text : List Char} (begins : endMark name <+: lowercase text) :
    ∃ c others, text = '<' :: '/' :: c :: others ∧ isTagNameChar c = true := by
  obtain ⟨d, letters, same, letter⟩ := (properTag_of_raw raw).1.exists_cons
  obtain ⟨after, split⟩ := begins
  rw [endMark, same] at split
  obtain ⟨bracket, inside, rfl, first, split⟩ := List.map_eq_cons_iff.1 split.symm
  obtain ⟨slash, inside, rfl, second, split⟩ := List.map_eq_cons_iff.1 split
  obtain ⟨c, others, rfl, third, -⟩ := List.map_eq_cons_iff.1 split
  obtain rfl := (toLower_eq_iff rfl).1 first
  obtain rfl := (toLower_eq_iff rfl).1 second
  exact ⟨c, others, rfl, isTagNameChar_of_toLower (third ▸ letter)⟩

/-- What comes after the content is an end tag, of whatever element. -/
theorem exists_eventsFrom_rawBody (closes : lowercase word = lowercase name) (body rest : List Char) :
    ∃ tag other others, eventsFrom [] (rawBody (endMark name) (body ++ (writtenEnd word ++ rest))).2 =
      .endTag tag other :: others := by
  have begins : endMark name <+: lowercase (writtenEnd word ++ rest) := by
    refine ⟨lowercase ('>' :: rest), ?_⟩
    rw [endMark, ← closes]
    simp [writtenEnd, lowercase]
  obtain ⟨front, cut, again⟩ := exists_of_rawBody begins body
  obtain ⟨c, others, whole, letter⟩ := exists_of_endMark raw again
  have closed : '>' ∈ others := by
    have member : '>' ∈ '<' :: '/' :: c :: others := by
      rw [← whole]
      simp [writtenEnd]
    simp only [List.mem_cons, Char.reduceEq, false_or] at member
    refine member.resolve_left ?_
    rintro rfl
    exact absurd letter (by decide)
  obtain ⟨tag, other, after, found⟩ := exists_readTag?_end letter closed
  rw [cut, whole, eventsFrom_tag found]
  exact ⟨tag, other, _, rfl⟩

/-- The content goes on to the written end tag just if no mark stands in it. -/
theorem eventsFrom_rawText_iff (steady : Steady tag name entries) (closes : lowercase word = lowercase name)
    (body rest : List Char) :
    eventsFrom [] (tag ++ (body ++ (writtenEnd word ++ rest))) =
        .startTag (String.ofList tag) (String.ofList (lowercase name)) (attributes (entries.flatMap (·.source))) ::
          (textEvents body ++ .endTag (String.ofList (writtenEnd word)) (String.ofList (lowercase name)) ::
            eventsFrom [] rest) ↔
      ¬ endMark name <:+: lowercase body := by
  have marked : lowercase ('<' :: '/' :: word) = endMark name := by
    rw [endMark, ← closes]
    rfl
  have same : writtenEnd word ++ rest = '<' :: '/' :: word ++ '>' :: rest := by
    simp [writtenEnd]
  rw [← rawBody_endMark_iff raw marked body ('>' :: rest), ← same, eventsFrom_steady steady raw,
    List.cons_inj_right]
  constructor
  · intro split
    obtain ⟨other, otherName, others, later⟩ := exists_eventsFrom_rawBody raw closes body rest
    rw [later] at split
    exact textEvents_append_end_inj split
  · intro content
    have whole := rawBody_append (endMark name) (body ++ (writtenEnd word ++ rest))
    rw [content] at whole
    have tagged : ProperTag word := properTag_of_lowercase (closes ▸ (properTag_of_raw raw).1)
    rw [content, List.append_cancel_left whole, eventsFrom_writtenEnd tagged, closes]
    rfl

end

/-- A start tag of raw text without a quotation mark left open is read as it is written, whatever
comes after it. Its content is an event, and ends at the first mark with the name, so that it goes
on to the written end tag just if no mark stands before that. -/
theorem events_rawText (raw : String.ofList (lowercase name) ∈ rawTextElements) :
    (∀ entries gap, (∀ entry ∈ entries, entry.Proper) → (∀ entry ∈ entries, entry.value.Plain) →
      (∀ c ∈ gap, Text.isBlank c = true) →
        Steady (spelledStart name entries gap) name entries ∧
          attributes (entries.flatMap (·.source)) = entries.map (·.report)) ∧
    ∀ tag entries, Steady tag name entries →
      let lower := String.ofList (lowercase name)
      let start := Event.startTag (String.ofList tag) lower (attributes (entries.flatMap (·.source)))
      (∀ body mark after, lowercase mark = endMark name → ¬ endMark name <:+: lowercase body →
        events (String.ofList (tag ++ (body ++ (mark ++ after)))) =
          start :: (textEvents body ++ events (String.ofList (mark ++ after)))) ∧
      ∀ body word rest, lowercase word = lowercase name →
        (events (String.ofList (tag ++ (body ++ writtenEnd word)) ++ rest) =
            start :: (textEvents body ++ .endTag (String.ofList (writtenEnd word)) lower :: events rest) ↔
          ¬ endMark name <:+: lowercase body) := by
  have proper := properTag_of_lowercase (properTag_of_raw raw).1
  refine ⟨fun entries gap spelled plain blank => ⟨?_, ?_⟩, fun tag entries steady => ⟨?_, ?_⟩⟩
  · exact StartTag.steady_spelledStart proper.1 proper.2 spelled plain blank
  · exact (StartTag.attributes_flatMap_eq_iff spelled).2 (StartTag.allClear_of_plain plain)
  · intro body mark after marked absent
    have content := (rawBody_endMark_iff raw marked body after).2 absent
    have whole := rawBody_append (endMark name) (body ++ (mark ++ after))
    rw [content] at whole
    rw [events, String.toList_ofList, eventsFrom_steady steady raw, content, List.append_cancel_left whole,
      events, String.toList_ofList]
  · intro body word rest closes
    have whole : (String.ofList (tag ++ (body ++ writtenEnd word)) ++ rest).toList =
        tag ++ (body ++ (writtenEnd word ++ rest.toList)) := by simp
    rw [events, whole]
    exact eventsFrom_rawText_iff raw steady closes body rest.toList

end

theorem events_rawText_comparison :
    events ("<SCRIPT a='>'>if (a<b) {}</p></Script>" ++ "<p") =
      .startTag "<SCRIPT a='>'>" "script" [("a", some ">")] ::
        ([.text "if (a<b) {}</p>"] ++ .endTag "</Script>" "script" :: events "<p") := by
  let entry : TagAttribute := ⟨[' ', 'a', '=', '\'', '>', '\''], ['a'], .quoted ['>']⟩
  have proper : entry.Proper :=
    ⟨[' '], ['=', '\'', '>', '\''], by decide, List.forall_mem_singleton.2 rfl, by decide,
      @StartTag.TagValue.Spelled.quoted [] [] ['>'] '\'' nofun nofun (.inr rfl) (by decide), rfl⟩
  have raw : String.ofList (lowercase ['S', 'C', 'R', 'I', 'P', 'T']) ∈ rawTextElements := by decide
  obtain ⟨spelled, content⟩ := events_rawText raw
  obtain ⟨steady, reported⟩ := spelled [entry] [] (by simpa using proper) (by simp [entry]; trivial) nofun
  obtain ⟨-, closed⟩ := content _ _ steady
  rw [reported] at closed
  have body : ¬ endMark ['S', 'C', 'R', 'I', 'P', 'T'] <:+: lowercase "if (a<b) {}</p>".toList := by
    decide +kernel
  exact (closed "if (a<b) {}</p>".toList ['S', 'c', 'r', 'i', 'p', 't'] "<p" rfl).2 body

/-- An end tag of the element begins in the text: the mark, and then what ends the name. -/
def ClosedIn (name body : List Char) : Prop :=
  ∃ front mark back, body = front ++ (mark ++ back) ∧ lowercase mark = endMark name ∧
    ∀ c ∈ back.head?, Text.isBlank c = true ∨ c = '/' ∨ c = '>'

/-- Another element, whose name only begins like that of the element, ends the content. -/
theorem events_rawText_prefixed :
    ¬ ClosedIn "script".toList "a</scriptx>b".toList ∧
      events "<script>a</scriptx>b</script>" =
        [.startTag "<script>" "script" [], .text "a", .endTag "</scriptx>" "scriptx", .text "b",
          .endTag "</script>" "script"] := by
  have unclosed : ¬ ClosedIn ['s', 'c', 'r', 'i', 'p', 't']
      ['a', '<', '/', 's', 'c', 'r', 'i', 'p', 't', 'x', '>', 'b'] := by
    rintro ⟨front, mark, back, whole, marked, ends⟩
    have only : ∀ tail ∈ ['a', '<', '/', 's', 'c', 'r', 'i', 'p', 't', 'x', '>', 'b'].tails,
        lowercase (tail.take 8) = endMark ['s', 'c', 'r', 'i', 'p', 't'] → tail.drop 8 = ['x', '>', 'b'] := by
      decide
    have length : mark.length = 8 := by
      rw [← List.length_map Char.toLower, show mark.map Char.toLower = _ from marked]
      rfl
    have after := only (mark ++ back) ((List.mem_tails _ _).2 ⟨front, whole.symm⟩)
    rw [← length, List.take_left, List.drop_left] at after
    obtain rfl := after marked
    exact absurd (ends 'x' rfl) (by decide)
  refine ⟨unclosed, ?_⟩
  have script : ProperTag "script".toList := ⟨by decide, List.all_eq_true.1 (by decide)⟩
  have other : ProperTag "scriptx".toList := ⟨by decide, List.all_eq_true.1 (by decide)⟩
  have source : "<script>a</scriptx>b</script>".toList = writtenStart "script".toList [] false ++
      'a' :: (writtenEnd "scriptx".toList ++ (['b'] ++ (writtenEnd "script".toList ++ []))) := by decide
  have named : String.ofList (lowercase "script".toList) = "script" := rfl
  have after (tag : String) : afterStartTag tag "script" false
        ('a' :: (writtenEnd "scriptx".toList ++ (['b'] ++ (writtenEnd "script".toList ++ [])))) =
      ([.text "a"], writtenEnd "scriptx".toList ++ (['b'] ++ (writtenEnd "script".toList ++ []))) := rfl
  rw [events, source, eventsFrom_start script (by simp)]
  simp only [named, after]
  rw [eventsFrom_writtenEnd other, eventsFrom_append (by decide), eventsFrom_writtenEnd script, eventsFrom_nil]
  rfl

end Stencil.Markup
