import Stencil.Markup.Event
import Stencil.Markup.StartTag.Search
import Stencil.Text.Search

/-! Reading the events of markup.

At an opening angle bracket stands a comment, an end tag, a start tag or another
declaration, in this order of preference, or else the bracket is text. Text
between two of them is one event.
-/

set_option autoImplicit false

namespace Stencil.Markup

def lowercase (name : List Char) : List Char :=
  name.map Char.toLower

/-- The part of a text before what follows it. -/
def upTo (text rest : List Char) : List Char :=
  text.take (text.length - rest.length)

theorem upTo_append (text rest : List Char) : upTo (text ++ rest) rest = text := by
  simp [upTo]

/-- A comment at the start of a text, and what follows it. -/
def readComment? (text : List Char) : Option (Event × List Char) :=
  match Text.strip? ['<', '!', '-', '-'] text with
  | none => none
  | some inside =>
      (Text.split? ['-', '-', '>'] inside).map fun (data, rest) =>
        (.comment (String.ofList (upTo text rest)) (String.ofList data), rest)

/-- The text after the next closing angle bracket. -/
def afterBracket? (text : List Char) : Option (List Char) :=
  match text.dropWhile (· != '>') with
  | _ :: rest => some rest
  | [] => none

/-- An end tag at the start of a text, and what follows it. -/
def readEndTag? (text : List Char) : Option (Event × List Char) :=
  match Text.strip? ['<', '/'] text with
  | none => none
  | some inside =>
      let name := inside.takeWhile StartTag.isTagNameChar
      if name.isEmpty then none
      else (afterBracket? (inside.dropWhile StartTag.isTagNameChar)).map fun rest =>
        (.endTag (String.ofList (upTo text rest)) (String.ofList (lowercase name)), rest)

/-- A declaration at the start of a text, and what follows it. -/
def readOther? : List Char → Option (Event × List Char)
  | '<' :: mark :: inside =>
      if mark = '!' || mark = '?' then
        (afterBracket? inside).map fun rest =>
          (.other (String.ofList (upTo ('<' :: mark :: inside) rest)), rest)
      else none
  | _ => none

/-- The text before the first place where a name stands in either case, and
what stands from there on. -/
def rawBody (closing : List Char) : List Char → List Char × List Char
  | [] => ([], [])
  | c :: rest =>
      if lowercase ((c :: rest).take closing.length) = closing then ([], c :: rest)
      else
        let (body, after) := rawBody closing rest
        (c :: body, after)

theorem rawBody_append (closing text : List Char) :
    (rawBody closing text).1 ++ (rawBody closing text).2 = text := by
  induction text with
  | nil => rfl
  | cons c rest ih =>
      simp only [rawBody]
      split
      · rfl
      · exact congrArg (c :: ·) ih

/-- A text event, unless there is no text. -/
def textEvents (data : List Char) : List Event :=
  if data.isEmpty then [] else [.text (String.ofList data)]

/-- The events that follow a start tag at once, and the text after them: the
end of an element that closes itself, or the content of raw text. -/
def afterStartTag (tag name : String) (selfClosing : Bool) (rest : List Char) :
    List Event × List Char :=
  if selfClosing then (if isVoid name then [] else [.endTag tag name], rest)
  else if isRawText name then
    let (body, after) := rawBody ('<' :: '/' :: name.toList) rest
    (textEvents body, after)
  else ([], rest)

/-- A start tag at the start of a text with the events that follow it at once,
and the text after them. -/
def readStartTag? : List Char → Option (List Event × List Char)
  | '<' :: inside =>
      let name := inside.takeWhile StartTag.isTagNameChar
      let region := inside.dropWhile StartTag.isTagNameChar
      if name.isEmpty then none
      else (StartTag.findClose? region).map fun close =>
        let tag := String.ofList (upTo ('<' :: inside) close.rest)
        let name := String.ofList (lowercase name)
        let (events, rest) := afterStartTag tag name close.selfClosing close.rest
        (.startTag tag name (StartTag.attributes (upTo region close.tail)) :: events, rest)
  | _ => none

def single (found : Option (Event × List Char)) : Option (List Event × List Char) :=
  found.map fun (event, rest) => ([event], rest)

/-- The constructs that start with an opening angle bracket, in order of
preference. -/
def constructs : List (List Char → Option (List Event × List Char)) :=
  [fun text => single (readComment? text), fun text => single (readEndTag? text), readStartTag?,
   fun text => single (readOther? text)]

/-- The events of what stands at an opening angle bracket, and the text after
them. -/
def readTag? (text : List Char) : Option (List Event × List Char) :=
  constructs.findSome? fun read => read text

theorem afterBracket?_suffix {text rest : List Char} (found : afterBracket? text = some rest) :
    rest <:+ text := by
  unfold afterBracket? at found
  split at found
  · rename_i c tail dropped
    obtain rfl := Option.some.inj found
    exact (List.suffix_cons c tail).trans (dropped ▸ List.dropWhile_suffix _)
  · exact absurd found (by simp)

/-- A construct with a single event, and what follows it in a text. -/
inductive Single : List Char → Event → List Char → Prop where
  | comment {tag rest : List Char} {data : String} (filled : tag ≠ []) :
      Single (tag ++ rest) (.comment (String.ofList tag) data) rest
  | endTag {inner rest : List Char} {name : String} :
      Single ('<' :: '/' :: inner ++ rest) (.endTag (String.ofList ('<' :: '/' :: inner)) name) rest
  | other {tag rest : List Char} (filled : tag ≠ []) :
      Single (tag ++ rest) (.other (String.ofList tag)) rest

section

variable {text rest : List Char} {event : Event}

theorem Single.length_lt (single : Single text event rest) : rest.length < text.length := by
  cases single with
  | comment filled | other filled =>
      have := List.length_pos_iff.2 filled
      rw [List.length_append]
      omega
  | endTag =>
      simp only [List.length_append, List.length_cons]
      omega

theorem single_of_readComment? (found : readComment? text = some (event, rest)) :
    Single text event rest := by
  unfold readComment? at found
  split at found
  · cases found
  · rename_i inside opened
    obtain ⟨⟨data, after⟩, closed, same⟩ := Option.map_eq_some_iff.1 found
    cases same
    obtain rfl := Text.strip?_eq_some_iff.1 opened
    obtain rfl := Text.split?_append closed
    rw [← List.append_assoc, upTo_append]
    exact .comment (by simp)

theorem single_of_readEndTag? (found : readEndTag? text = some (event, rest)) :
    Single text event rest := by
  unfold readEndTag? at found
  split at found
  · cases found
  · rename_i inside opened
    simp only at found
    split at found
    · cases found
    · obtain ⟨after, closed, same⟩ := Option.map_eq_some_iff.1 found
      cases same
      obtain rfl := Text.strip?_eq_some_iff.1 opened
      obtain ⟨inner, split⟩ := (afterBracket?_suffix closed).trans (List.dropWhile_suffix _)
      generalize lowercase (inside.takeWhile StartTag.isTagNameChar) = name
      subst split
      rw [← List.append_assoc, upTo_append]
      exact .endTag

theorem single_of_readOther? (found : readOther? text = some (event, rest)) :
    Single text event rest := by
  unfold readOther? at found
  split at found
  · rename_i mark inside
    split at found
    · obtain ⟨after, closed, same⟩ := Option.map_eq_some_iff.1 found
      cases same
      obtain ⟨inner, rfl⟩ := afterBracket?_suffix closed
      rw [← List.cons_append, ← List.cons_append, upTo_append]
      exact .other (List.cons_ne_nil _ _)
    · cases found
  · cases found

theorem readComment?_length (found : readComment? text = some (event, rest)) :
    rest.length < text.length :=
  (single_of_readComment? found).length_lt

theorem readEndTag?_length (found : readEndTag? text = some (event, rest)) :
    rest.length < text.length :=
  (single_of_readEndTag? found).length_lt

theorem readOther?_length (found : readOther? text = some (event, rest)) :
    rest.length < text.length :=
  (single_of_readOther? found).length_lt

end

theorem afterStartTag_length (tag name : String) (selfClosing : Bool) (rest : List Char) :
    (afterStartTag tag name selfClosing rest).2.length ≤ rest.length := by
  unfold afterStartTag
  split
  · exact Nat.le_refl _
  · split
    · have := congrArg List.length (rawBody_append ('<' :: '/' :: name.toList) rest)
      simp only [List.length_append] at this ⊢
      omega
    · exact Nat.le_refl _

/-- A start tag is the text up to where it closes, and begins with a name. -/
theorem exists_of_readStartTag? {text rest : List Char} {events : List Event}
    (found : readStartTag? text = some (events, rest)) :
    ∃ front later name attributes selfClosing, text = '<' :: front ++ later ∧
      (front ++ later).takeWhile StartTag.isTagNameChar ≠ [] ∧
      events = .startTag (String.ofList ('<' :: front)) name attributes ::
        (afterStartTag (String.ofList ('<' :: front)) name selfClosing later).1 ∧
      rest = (afterStartTag (String.ofList ('<' :: front)) name selfClosing later).2 := by
  unfold readStartTag? at found
  split at found
  · rename_i inside
    simp only at found
    split at found
    · cases found
    · rename_i named
      rw [StartTag.findClose?_eq] at found
      obtain ⟨close, closed, same⟩ := Option.map_eq_some_iff.1 found
      obtain ⟨tailed, ended⟩ := StartTag.close?_suffix _ closed
      have within : close.rest <:+ inside :=
        (StartTag.ending?_suffix ended).1.trans (tailed.trans (List.dropWhile_suffix _))
      obtain ⟨front, split⟩ := within
      have tag : upTo ('<' :: inside) close.rest = '<' :: front := by
        rw [← split, ← List.cons_append, upTo_append]
      rw [tag] at same
      obtain ⟨rfl, rfl⟩ := Prod.mk.inj same
      refine ⟨front, close.rest, _, _, close.selfClosing, ?_, ?_, rfl, rfl⟩
      · rw [List.cons_append, split]
      · simpa [split] using named
  · cases found

theorem readStartTag?_length {text rest : List Char} {events : List Event}
    (found : readStartTag? text = some (events, rest)) : rest.length < text.length := by
  obtain ⟨front, later, name, attributes, selfClosing, rfl, -, -, rfl⟩ := exists_of_readStartTag? found
  have := afterStartTag_length (String.ofList ('<' :: front)) name selfClosing later
  simp only [List.length_append, List.length_cons]
  omega

/-- What stands at a bracket is a start tag, or has a single event. -/
theorem single_or_readStartTag? {text rest : List Char} {events : List Event}
    (found : readTag? text = some (events, rest)) :
    (∃ event, events = [event] ∧ Single text event rest) ∨ readStartTag? text = some (events, rest) := by
  have alone {part? : Option (Event × List Char)} (same : single part? = some (events, rest))
      (reads : ∀ {event rest}, part? = some (event, rest) → Single text event rest) :
      ∃ event, events = [event] ∧ Single text event rest := by
    obtain ⟨⟨event, after⟩, part, same⟩ := Option.map_eq_some_iff.1 same
    cases same
    exact ⟨event, rfl, reads part⟩
  obtain ⟨read, member, found⟩ := List.exists_of_findSome?_eq_some found
  simp only [constructs, List.mem_cons, List.not_mem_nil, or_false] at member
  rcases member with rfl | rfl | rfl | rfl
  · exact .inl (alone found single_of_readComment?)
  · exact .inl (alone found single_of_readEndTag?)
  · exact .inr found
  · exact .inl (alone found single_of_readOther?)

theorem readTag?_length {text rest : List Char} {events : List Event}
    (found : readTag? text = some (events, rest)) : rest.length < text.length := by
  rcases single_or_readStartTag? found with ⟨event, -, single⟩ | start
  · exact single.length_lt
  · exact readStartTag?_length start

/-- The events of a text after some text, which is kept backwards. -/
def eventsFrom (before : List Char) : List Char → List Event
  | [] => textEvents before.reverse
  | c :: rest =>
      if c ≠ '<' then eventsFrom (c :: before) rest
      else match found : readTag? (c :: rest) with
        | some (events, after) =>
            have := readTag?_length found
            textEvents before.reverse ++ events ++ eventsFrom [] after
        | none => eventsFrom (c :: before) rest
termination_by text => text.length
decreasing_by
  · exact Nat.lt_succ_self _
  · assumption
  · exact Nat.lt_succ_self _

/-- The events of a source in order. -/
def events (source : String) : List Event :=
  eventsFrom [] source.toList

/-- The events of a source handed on one by one, up to the first that fails. -/
def feed {σ ε : Type} (handle : σ → Event → Except ε σ) (state : σ) (source : String) : Except ε σ :=
  (events source).foldlM handle state

end Stencil.Markup
