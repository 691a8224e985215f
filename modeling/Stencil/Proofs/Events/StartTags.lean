import Stencil.Proofs.Events.Tiling
import Stencil.Proofs.Gather
import Stencil.Proofs.StartTag.Report
import Stencil.Proofs.Token.Identifier
import Stencil.Template.Compile

/-! The start tags of a source: what is written as one is read back, and what is read as one
is reported, but for values that are not clear of what comes after them.
-/

set_option autoImplicit false

namespace Stencil

/-- Whether an event is of a start tag. -/
def Event.isStart : Event → Bool
  | .startTag _ _ _ => true
  | _ => false

namespace Compiler

theorem attributeOf?_eq_true_iff {content : Template} :
    attributeOf? content = some (.literal (.bool true)) ↔
      ∃ expression, content = [.dynamic expression] ∧ expression.expr = .literal (.bool true) := by
  constructor
  · intro same
    unfold attributeOf? at same
    split at same
    · cases same
    · cases same
    · rename_i expression
      split at same
      · rename_i value literal
        cases same
        exact ⟨expression, rfl, literal⟩
      · cases same
    · cases same
  · rintro ⟨expression, rfl, literal⟩
    simp [attributeOf?, literal]

/-- An attribute is true if it has no value, or one that is an expression for true. -/
theorem attributeFor_eq_true_iff (compiler : Compiler) (context : ViewContext) (name : String)
    (value? : Option String) :
    compiler.attributeFor context name value? = .ok (.literal (.bool true)) ↔
      value? = none ∨ ∃ value expression, value? = some value ∧ value ≠ "" ∧
        compiler.compileString context (unescapeEntities value) = .ok [.dynamic expression] ∧
        expression.expr = .literal (.bool true) := by
  cases value? with
  | none => simp [attributeFor]
  | some value =>
      simp only [attributeFor, reduceCtorEq, false_or, Option.some.injEq, exists_and_left, exists_eq_left']
      split
      · rename_i empty
        simp only [String.isEmpty_iff] at empty
        simp [empty]
      · rename_i filled
        simp only [String.isEmpty_iff] at filled
        rw [attributeValue, bind_eq_ok_iff]
        constructor
        · rintro ⟨content, compiled, same⟩
          split at same
          · rename_i found
            cases same
            obtain ⟨expression, rfl, literal⟩ := attributeOf?_eq_true_iff.1 found
            exact ⟨filled, expression, compiled, literal⟩
          · cases same
        · rintro ⟨-, expression, compiled, literal⟩
          refine ⟨_, compiled, ?_⟩
          rw [attributeOf?_eq_true_iff.2 ⟨expression, rfl, literal⟩]
          rfl

end Compiler

namespace Markup

open StartTag (AllClear TagAttribute TagValue WrittenAttribute isTagNameChar reading?)

/-- A letter, and then letters, digits and hyphens. -/
def IsElementName (name : List Char) : Prop :=
  ∃ letter others, name = letter :: others ∧ letter.isAlpha = true ∧
    ∀ c ∈ others, c.isAlphanum = true ∨ c = '-'

theorem isTagNameChar_of_isAlphanum {c : Char} (kind : c.isAlphanum = true ∨ c = '-') :
    isTagNameChar c = true := by
  have ascii : c.toNat < 128 := by
    rcases kind with alphanum | rfl
    · exact toNat_lt_of_isAlphanum alphanum
    · decide
  -- So few characters can be tried one by one.
  have all : ∀ n < 128, ((Char.ofNat n).isAlphanum = true ∨ Char.ofNat n = '-') →
      isTagNameChar (Char.ofNat n) = true := by
    decide +kernel
  have here := all c.toNat ascii
  rw [Char.ofNat_toNat] at here
  exact here kind

/-- Lower case changes no character that is not a letter, and makes none. -/
theorem toLower_eq_iff {c mark : Char} (other : mark.isAlpha = false) : c.toLower = mark ↔ c = mark := by
  cases upper : c.isUpper with
  | false => rw [Char.toLower_eq_of_not_isUpper (by simp [upper])]
  | true =>
      have letter : c.isAlpha = true := by simp [Char.isAlpha, upper]
      refine iff_of_false ?_ ?_
      · rintro rfl
        rw [Char.isAlpha_toLower_eq_isAlpha, letter] at other
        cases other
      · rintro rfl
        cases letter.symm.trans other

variable {name : List Char} {entries : List WrittenAttribute}

theorem IsElementName.properTag (named : IsElementName name) : ProperTag name := by
  obtain ⟨letter, others, rfl, alpha, later⟩ := named
  have first : letter.isAlphanum = true := by simp [Char.isAlphanum, alpha]
  exact ⟨List.cons_ne_nil _ _,
    List.forall_mem_cons.2 ⟨isTagNameChar_of_isAlphanum (.inl first),
      fun c member => isTagNameChar_of_isAlphanum (later c member)⟩⟩

/-- A start tag is read as it was written, and then the source after it as if by itself. -/
theorem events_writtenStart (named : IsElementName name) (proper : ∀ entry ∈ entries, entry.Proper)
    (notRaw : String.ofList (lowercase name) ∉ rawTextElements) (selfClosing : Bool) (rest : String) :
    events (String.ofList (writtenStart name entries selfClosing) ++ rest) =
      let tag := String.ofList (writtenStart name entries selfClosing)
      let lower := String.ofList (lowercase name)
      .startTag tag lower (entries.map (·.read)) ::
        ((if selfClosing && !isVoid lower then [.endTag tag lower] else []) ++ events rest) := by
  have plain : isRawText (String.ofList (lowercase name)) = false := by
    simpa [isRawText] using notRaw
  rw [events, String.toList_append, String.toList_ofList, eventsFrom_start named.properTag proper]
  cases selfClosing with
  | true =>
      simp only [afterStartTag, if_true, Bool.true_and]
      cases isVoid (String.ofList (lowercase name)) with
      | true => simp [textEvents, events]
      | false => simp [textEvents, events]
  | false => simp [textEvents, afterStartTag, plain, events]

theorem events_writtenStart_view :
    events ("<My-View a b=\"\" a='x\">\ny=&'/>" ++ "</p") =
      .startTag "<My-View a b=\"\" a='x\">\ny=&'/>" "my-view"
          [("a", none), ("b", some ""), ("a", some "x\">\ny=&")] ::
        ([.endTag "<My-View a b=\"\" a='x\">\ny=&'/>" "my-view"] ++ events "</p") := by
  have named : IsElementName ['M', 'y', '-', 'V', 'i', 'e', 'w'] :=
    ⟨'M', ['y', '-', 'V', 'i', 'e', 'w'], rfl, rfl, by simp⟩
  have proper : ∀ entry ∈ ([⟨['a'], .absent⟩, ⟨['b'], .quoted '"' []⟩,
      ⟨['a'], .quoted '\'' ['x', '"', '>', '\n', 'y', '=', '&']⟩] : List WrittenAttribute), entry.Proper := by
    decide
  exact events_writtenStart named proper (by decide) true "</p"

/-! Every start event is of a start tag that is read where the event begins. -/

open StartTag (attributes tagReading?)

/-- A start tag is read with its attributes, and these are read again. -/
theorem readStartTag?_eq (text : List Char) : readStartTag? text =
    (tagReading? text).map fun read =>
      let tag := String.ofList (upTo text read.close.rest)
      let name := String.ofList (lowercase read.name)
      let after := afterStartTag tag name read.close.selfClosing read.close.rest
      (.startTag tag name (attributes (read.attributes.flatMap (·.source))) :: after.1, after.2) := by
  by_cases bracket : ∃ inside, text = '<' :: inside
  · obtain ⟨inside, rfl⟩ := bracket
    simp only [readStartTag?, tagReading?, StartTag.findClose?_eq, ← StartTag.map_reading?]
    split
    · rfl
    · rw [Option.map_map, Option.map_map]
      refine Option.map_congr fun pair found => ?_
      have whole := (StartTag.proper_of_reading? found).2
      simp only [Function.comp_apply]
      rw [whole, upTo_append]
  · have noStart : readStartTag? text = none := by
      unfold readStartTag?
      split
      · exact absurd ⟨_, rfl⟩ bracket
      · rfl
    have noReading : tagReading? text = none := by
      unfold tagReading?
      split
      · exact absurd ⟨_, rfl⟩ bracket
      · rfl
    rw [noStart, noReading]
    rfl

section

variable {text rest : List Char} {event : Event}

theorem Single.isStart (single : Single text event rest) : event.isStart = false := by
  cases single <;> rfl

theorem isStart_of_textEvents (member : event ∈ textEvents text) : event.isStart = false := by
  unfold textEvents at member
  split at member
  · cases member
  · cases List.mem_singleton.1 member
    rfl

/-- Only a start tag has an event of a start tag, and it is the first one. -/
theorem isStart_of_afterStartTag {tag name : String} {selfClosing : Bool}
    (member : event ∈ (afterStartTag tag name selfClosing rest).1) : event.isStart = false := by
  unfold afterStartTag at member
  split at member
  · split at member
    · cases member
    · cases List.mem_singleton.1 member
      rfl
  · split at member
    · exact isStart_of_textEvents member
    · cases member

end

theorem exists_split_of_not_mem {α : Type} {x : α} {left right front back : List α} (absent : x ∉ left)
    (split : left ++ right = front ++ x :: back) : ∃ front, right = front ++ x :: back := by
  rcases List.append_eq_append_iff.1 split with ⟨front, -, same⟩ | ⟨kept, rfl, same⟩
  · exact ⟨front, same⟩
  · cases kept with
    | nil => exact ⟨[], same.symm⟩
    | cons y kept =>
        obtain ⟨rfl, -⟩ := List.cons.inj same
        exact absurd (by simp) absent

/-- The start tag at the start of a text, and what is reported of it. -/
def Reports (text : List Char) (tag name : String) (reported : List (String × Option String)) : Prop :=
  ∃ read, tagReading? text = some read ∧ tag = String.ofList (upTo text read.close.rest) ∧
    name = String.ofList (lowercase read.name) ∧ reported = attributes (read.attributes.flatMap (·.source))

theorem reports_of_eventsFrom {before text : List Char} {front back : List Event} {tag name : String}
    {reported : List (String × Option String)}
    (split : eventsFrom before text = front ++ .startTag tag name reported :: back) :
    Reports ((.startTag tag name reported :: back : List Event).flatMap Event.source) tag name reported := by
  have absent {events : List Event} (others : ∀ event ∈ events, event.isStart = false) :
      .startTag tag name reported ∉ events := fun member => nomatch others _ member
  fun_induction eventsFrom before text generalizing front with
  | case1 before =>
      have member : .startTag tag name reported ∈ textEvents before.reverse := by simp [split]
      exact absurd member (absent fun _ => isStart_of_textEvents)
  | case2 before c rest plain ih => exact ih split
  | case3 before c rest bracket events after found shorter ih =>
      rw [List.append_assoc] at split
      obtain ⟨front, split⟩ := exists_split_of_not_mem (absent fun _ => isStart_of_textEvents) split
      rcases single_or_readStartTag? found with ⟨event, rfl, single⟩ | start
      · have others := absent (List.forall_mem_singleton.2 single.isStart)
        obtain ⟨front, split⟩ := exists_split_of_not_mem others split
        exact ih split
      · have whole := ((readTag?_takes found).tiles (tiles_eventsFrom [] after)).flatMap_source
        rw [readStartTag?_eq] at start
        obtain ⟨read, reading, same⟩ := Option.map_eq_some_iff.1 start
        obtain ⟨rfl, rfl⟩ := Prod.mk.inj same
        cases front with
        | nil =>
            rw [split, List.nil_append] at whole
            obtain ⟨same, -⟩ := List.cons.inj split
            obtain ⟨rfl, rfl, rfl⟩ := Event.startTag.inj same
            rw [whole]
            exact ⟨read, reading, rfl, rfl, rfl⟩
        | cons first front =>
            obtain ⟨-, split⟩ := List.cons.inj split
            obtain ⟨front, split⟩ := exists_split_of_not_mem (absent fun _ => isStart_of_afterStartTag) split
            exact ih split
  | case4 before c rest bracket none ih => exact ih split

/-- An attribute is reported without a value just if nothing is written after its name. -/
theorem report_eq_none_iff (entry : TagAttribute) : entry.report.2 = none ↔ entry.value = .absent := by
  obtain ⟨source, name, value⟩ := entry
  cases value <;> simp [TagAttribute.report, TagValue.text?]

/-- What is reported of a start tag is what it was read with just if all its values are clear of
what comes after them. Then only an attribute without an equals sign is true by itself. -/
theorem startTag_reported {source : String} {front back : List Event} {tag name : String}
    {reported : List (String × Option String)}
    (split : events source = front ++ .startTag tag name reported :: back) :
    ∃ read, tagReading? ((.startTag tag name reported :: back : List Event).flatMap Event.source) = some read ∧
      (reported = read.attributes.map (·.report) ↔ AllClear read.attributes) ∧
      ∀ (compiler : Compiler) (context : ViewContext), ∀ entry ∈ read.attributes,
        compiler.attributeFor context entry.report.1 entry.report.2 = .ok (.literal (.bool true)) ↔
          entry.value = .absent ∨ ∃ value expression, entry.report.2 = some value ∧ value ≠ "" ∧
            compiler.compileString context (unescapeEntities value) = .ok [.dynamic expression] ∧
            expression.expr = .literal (.bool true) := by
  obtain ⟨read, found, -, -, rfl⟩ := reports_of_eventsFrom split
  obtain ⟨region, -, -, -, inside⟩ := StartTag.exists_of_tagReading? found
  refine ⟨read, found, StartTag.attributes_flatMap_eq_iff (StartTag.proper_of_reading? inside).1, ?_⟩
  intro compiler context entry member
  rw [Compiler.attributeFor_eq_true_iff, report_eq_none_iff]

theorem startTag_reported_quoted :
    ∃ read, tagReading? ("<a b='c' d>".toList ++ []) = some read ∧
      ([("b", some "c"), ("d", none)] = read.attributes.map (·.report) ↔ AllClear read.attributes) ∧
      ∀ (compiler : Compiler) (context : ViewContext), ∀ entry ∈ read.attributes,
        compiler.attributeFor context entry.report.1 entry.report.2 = .ok (.literal (.bool true)) ↔
          entry.value = .absent ∨ ∃ value expression, entry.report.2 = some value ∧ value ≠ "" ∧
            compiler.compileString context (unescapeEntities value) = .ok [.dynamic expression] ∧
            expression.expr = .literal (.bool true) := by
  have tagged : ProperTag ['a'] := ⟨by decide, List.all_eq_true.1 (by decide)⟩
  have proper : ∀ entry ∈ ([⟨['b'], .quoted '\'' ['c']⟩, ⟨['d'], .absent⟩] : List WrittenAttribute),
      entry.Proper := by decide
  have split : events "<a b='c' d>" = [] ++ [.startTag "<a b='c' d>" "a" [("b", some "c"), ("d", none)]] := by
    have read := eventsFrom_writtenStart tagged proper (by decide) [] []
    rw [eventsFrom_nil] at read
    exact read
  exact startTag_reported split

theorem tagReading?_missing : tagReading? ['<', 'a', ' ', 'b', '=', '>'] =
    some ⟨['a'], [⟨[' ', 'b', '='], ['b'], .missing⟩], ⟨['>'], false, []⟩⟩ := by
  have reading : reading? [' ', 'b', '=', '>'] =
      some ([⟨[' ', 'b', '='], ['b'], .missing⟩], ⟨['>'], false, []⟩) := by
    have last : reading? ['>'] = some ([], ⟨['>'], false, []⟩) := by
      rw [StartTag.reading?_eq]
      rfl
    have entries : StartTag.attributeReadings [' ', 'b', '=', '>'] =
        [(⟨[' ', 'b', '='], ['b'], .missing⟩, ['>'])] := by decide
    have ending : StartTag.ending? [' ', 'b', '=', '>'] = none := by decide
    rw [StartTag.reading?_eq, ending, entries]
    simp [last]
  have tagged : tagReading? ['<', 'a', ' ', 'b', '=', '>'] =
      (reading? [' ', 'b', '=', '>']).map fun read => ⟨['a'], read.1, read.2⟩ := rfl
  rw [tagged, reading]
  rfl

/-- After an equals sign alone no value is reported, so that the attribute is true. -/
theorem startTag_reported_missing :
    events "<a b=>" = [.startTag "<a b=>" "a" [("b", none)]] ∧
      tagReading? ['<', 'a', ' ', 'b', '=', '>'] =
        some ⟨['a'], [⟨[' ', 'b', '='], ['b'], .missing⟩], ⟨['>'], false, []⟩⟩ ∧
      ∀ (compiler : Compiler) (context : ViewContext),
        compiler.attributeFor context "b" none = .ok (.literal (.bool true)) := by
  have reported : attributes [' ', 'b', '='] = [("b", none)] := by
    have named : [' ', 'b', '='].dropWhile (!StartTag.isAttributeNameChar ·) = ['b', '='] := rfl
    have value : StartTag.value? (['='].dropWhile StartTag.isAttributeNameChar) = none := rfl
    have last : attributes (['='].dropWhile StartTag.isAttributeNameChar) = [] := StartTag.attributes_eq ['=']
    rw [StartTag.attributes_eq, named]
    simp only [value, last]
    rfl
  have start : readTag? ['<', 'a', ' ', 'b', '=', '>'] = some ([.startTag "<a b=>" "a" [("b", none)]], []) := by
    rw [readTag?_eq (by decide) (by decide), readStartTag?_eq, tagReading?_missing]
    simp only [Option.map_some, List.flatMap_cons, List.flatMap_nil, List.append_nil, reported]
    rfl
  refine ⟨?_, tagReading?_missing, fun _ _ => rfl⟩
  rw [events]
  exact (eventsFrom_tag start []).trans (by rw [eventsFrom_nil]; rfl)

end Markup

end Stencil
