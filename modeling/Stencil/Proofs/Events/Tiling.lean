import Stencil.Proofs.Events

/-! What the events of a source hold of it.

Each event takes a part of the source, one after another and with nothing between
them. A run of text is a single event, and what comes next is a tag; only the body of
raw text is an event by itself, whatever comes next.
-/

set_option autoImplicit false

namespace Stencil

/-- Whether a tag is written as the end of an element. -/
def Markup.EndsElement (tag : String) : Prop :=
  ['<', '/'] <+: tag.toList

instance (tag : String) : Decidable (Markup.EndsElement tag) :=
  inferInstanceAs (Decidable (['<', '/'] <+: tag.toList))

/-- The part of the source that an event takes. An element that closes itself has one
tag for its start and its end, and the start takes it. -/
def Event.source : Event → List Char
  | .startTag tag _ _ => tag.toList
  | .endTag tag _ => if Markup.EndsElement tag then tag.toList else []
  | .text data => data.toList
  | .comment tag _ => tag.toList
  | .other tag => tag.toList

namespace Markup

/-- The content of raw text from its first character on, and what follows it. -/
def rawText (name : String) (rest : List Char) : List Char × List Char :=
  rawBody ('<' :: '/' :: name.toList) rest

/-- Events one after another, each with its part of a text. -/
inductive Tiles : List Event → List Char → Prop where
  | nil : Tiles [] []
  | text {data : List Char} {events : List Event} {rest : List Char} (filled : data ≠ [])
      (stops : ∀ next, events.head? ≠ some (.text next)) :
      Tiles events rest → Tiles (.text (String.ofList data) :: events) (data ++ rest)
  | comment {tag : List Char} {data : String} {events : List Event} {rest : List Char} :
      Tiles events rest → Tiles (.comment (String.ofList tag) data :: events) (tag ++ rest)
  | other {tag : List Char} {events : List Event} {rest : List Char} :
      Tiles events rest → Tiles (.other (String.ofList tag) :: events) (tag ++ rest)
  | endTag {tag : List Char} {name : String} {events : List Event} {rest : List Char}
      (ends : EndsElement (String.ofList tag)) :
      Tiles events rest → Tiles (.endTag (String.ofList tag) name :: events) (tag ++ rest)
  | startTag {tag : List Char} {name : String} {attributes : List (String × Option String)}
      {events : List Event} {rest : List Char} (starts : ¬ EndsElement (String.ofList tag)) :
      Tiles events rest →
      Tiles (.startTag (String.ofList tag) name attributes :: events) (tag ++ rest)
  | selfClosed {tag : List Char} {name : String} {attributes : List (String × Option String)}
      {events : List Event} {rest : List Char} (starts : ¬ EndsElement (String.ofList tag)) :
      Tiles events rest →
      Tiles (.startTag (String.ofList tag) name attributes :: .endTag (String.ofList tag) name :: events)
        (tag ++ rest)
  | rawText {tag body : List Char} {name : String} {attributes : List (String × Option String)}
      {events : List Event} {rest : List Char} (starts : ¬ EndsElement (String.ofList tag))
      (isRaw : isRawText name = true) (filled : body ≠ [])
      (cut : rawText name (body ++ rest) = (body, rest)) :
      Tiles events rest →
      Tiles (.startTag (String.ofList tag) name attributes :: .text (String.ofList body) :: events)
        (tag ++ (body ++ rest))

theorem text_ne_empty {data : List Char} (filled : data ≠ []) :
    Event.text (String.ofList data) ≠ .text "" := by
  intro same
  exact filled (by simpa using congrArg String.toList (Event.text.inj same))

namespace Tiles

variable {events : List Event} {text : List Char}

theorem flatMap_source (tiles : Tiles events text) : events.flatMap Event.source = text := by
  induction tiles with
  | nil => rfl
  | text _ _ _ ih => simp [Event.source, ih]
  | comment _ ih => simp [Event.source, ih]
  | other _ ih => simp [Event.source, ih]
  | endTag ends _ ih => simp [Event.source, ends, ih]
  | startTag _ _ ih => simp [Event.source, ih]
  | selfClosed starts _ ih => simp [Event.source, starts, ih]
  | rawText _ _ _ _ _ ih => simp [Event.source, ih]

theorem filled (tiles : Tiles events text) : .text "" ∉ events := by
  induction tiles with
  | nil => simp
  | text filled _ _ ih => exact List.not_mem_cons_of_ne_of_not_mem (text_ne_empty filled).symm ih
  | comment _ ih | other _ ih | endTag _ _ ih | startTag _ _ ih | selfClosed _ _ ih => simpa using ih
  | rawText _ _ filled _ _ ih =>
      have others := List.not_mem_cons_of_ne_of_not_mem (text_ne_empty filled).symm ih
      simpa using others

theorem starts (tiles : Tiles events text) {tag name : String}
    {attributes : List (String × Option String)} (member : .startTag tag name attributes ∈ events) :
    ¬ EndsElement tag := by
  induction tiles with
  | nil => simp at member
  | text _ _ _ ih => exact ih (by simpa using member)
  | comment _ ih => exact ih (by simpa using member)
  | other _ ih => exact ih (by simpa using member)
  | endTag _ _ ih => exact ih (by simpa using member)
  | startTag starts _ ih | selfClosed starts _ ih | rawText starts _ _ _ _ ih =>
      simp only [List.mem_cons, Event.startTag.injEq, reduceCtorEq, false_or] at member
      rcases member with ⟨rfl, _⟩ | later
      · exact starts
      · exact ih later

theorem not_text_text {first second : String} {rest : List Event} :
    ¬ Tiles (.text first :: .text second :: rest) text := by
  rintro (_ | ⟨_, stops, _⟩)
  exact stops second rfl

/-- The events from any place on are tiles again, or they are from the one before. -/
-- A tile has at most two events, so from the third event on a tile is over.
theorem suffix {front back : List Event} {text : List Char} (tiles : Tiles (front ++ back) text) :
    (∃ rest, Tiles back rest) ∨
      ∃ before first rest, front = before ++ [first] ∧ Tiles (first :: back) rest := by
  match front, tiles with
  | [], tiles => exact .inl ⟨text, tiles⟩
  | [first], tiles => exact .inr ⟨[], first, text, rfl, tiles⟩
  | first :: second :: front, tiles =>
      have longer {shorter : List Event} (added : List Event) :
          ((∃ rest, Tiles back rest) ∨
            ∃ before first rest, shorter = before ++ [first] ∧ Tiles (first :: back) rest) →
          (∃ rest, Tiles back rest) ∨
            ∃ before first rest, added ++ shorter = before ++ [first] ∧ Tiles (first :: back) rest := by
        rintro (found | ⟨before, first, rest, rfl, found⟩)
        · exact .inl found
        · exact .inr ⟨added ++ before, first, rest, by simp, found⟩
      cases tiles with
      | text _ _ later | comment later | other later | endTag _ later | startTag _ later =>
          exact longer [_] (Tiles.suffix later)
      | selfClosed _ later | rawText _ _ _ _ later => exact longer [_, _] (Tiles.suffix later)
termination_by front.length

/-- Two texts come one after another only where the first is the content of raw text. -/
theorem adjacent {front back : List Event} {first second : String}
    (tiles : Tiles (front ++ .text first :: .text second :: back) text) :
    ∃ before tag name attributes, front = before ++ [.startTag tag name attributes] ∧
      isRawText name = true ∧
      Markup.rawText name ((.text first :: .text second :: back : List Event).flatMap Event.source) =
        (first.toList, (.text second :: back : List Event).flatMap Event.source) := by
  rcases tiles.suffix with ⟨rest, again⟩ | ⟨before, start, rest, rfl, again⟩
  · exact absurd again not_text_text
  · cases again with
    | text _ _ later | comment later | other later | endTag _ later | startTag _ later =>
        exact absurd later not_text_text
    | rawText _ isRaw _ cut later =>
        refine ⟨before, _, _, _, rfl, isRaw, ?_⟩
        rw [List.flatMap_cons, later.flatMap_source]
        simpa [Event.source] using cut

/-- An end that takes no text stands right after the start that its tag is of. -/
theorem ends {front back : List Event} {tag name : String}
    (tiles : Tiles (front ++ .endTag tag name :: back) text) :
    EndsElement tag ∨ ∃ before attributes, front = before ++ [.startTag tag name attributes] := by
  have written {rest : List Char} : Tiles (.endTag tag name :: back) rest → EndsElement tag := by
    rintro (_ | _ | _ | _ | ⟨ends, _⟩)
    exact ends
  rcases tiles.suffix with ⟨rest, again⟩ | ⟨before, start, rest, rfl, again⟩
  · exact .inl (written again)
  · cases again with
    | text _ _ later | comment later | other later | endTag _ later | startTag _ later =>
        exact .inl (written later)
    | selfClosed _ _ => exact .inr ⟨before, _, rfl⟩

end Tiles

/-- The events are those of a tag that stands before `rest`, whatever that holds. -/
structure Takes (events : List Event) (text rest : List Char) : Prop where
  opens : ∀ later data, (events ++ later).head? ≠ some (.text data)
  tiles : ∀ {later}, Tiles later rest → Tiles (events ++ later) text

section

variable {text rest : List Char} {events : List Event} {event : Event}

theorem Single.takes (single : Single text event rest) : Takes [event] text rest := by
  refine ⟨fun later data same => ?_, fun tiles => ?_⟩
  · cases single <;> cases same
  · cases single with
    | comment => exact tiles.comment
    | other => exact tiles.other
    | @endTag inner =>
        have ends : EndsElement (String.ofList ('<' :: '/' :: inner)) := by
          rw [EndsElement, String.toList_ofList]
          exact List.prefix_append ['<', '/'] inner
        exact tiles.endTag ends

/-- No name begins with the mark of an end tag. -/
theorem not_endsElement_of_named {front later : List Char}
    (named : (front ++ later).takeWhile StartTag.isTagNameChar ≠ []) :
    ¬ EndsElement (String.ofList ('<' :: front)) := by
  rw [EndsElement, String.toList_ofList]
  rintro ⟨more, same⟩
  obtain rfl : front = '/' :: more := by simpa using same.symm
  exact named rfl

/-- Raw text is an event, or there is none. -/
theorem tiles_rawText {tag later : List Char} {name : String} {attributes : List (String × Option String)}
    (starts : ¬ EndsElement (String.ofList tag)) (isRaw : isRawText name = true) :
    Tiles events (rawText name later).2 →
      Tiles (.startTag (String.ofList tag) name attributes :: textEvents (rawText name later).1 ++ events)
        (tag ++ later) := by
  have joined : (rawText name later).1 ++ (rawText name later).2 = later := rawBody_append _ later
  generalize cut : rawText name later = parts at joined ⊢
  obtain ⟨body, after⟩ := parts
  subst joined
  intro tiles
  by_cases filled : body = []
  · subst filled
    exact tiles.startTag starts
  · rw [show textEvents body = [.text (String.ofList body)] by simp [textEvents, filled]]
    exact tiles.rawText starts isRaw filled cut

theorem afterStartTag_takes {tag : List Char} {name : String} {attributes : List (String × Option String)}
    {selfClosing : Bool} (starts : ¬ EndsElement (String.ofList tag)) (whole : tag ++ rest = text) :
    Takes (.startTag (String.ofList tag) name attributes ::
        (afterStartTag (String.ofList tag) name selfClosing rest).1)
      text (afterStartTag (String.ofList tag) name selfClosing rest).2 := by
  subst whole
  refine ⟨by simp, fun {later} tiles => ?_⟩
  unfold afterStartTag at tiles ⊢
  cases selfClosing with
  | true =>
      cases isVoid name with
      | true => exact tiles.startTag starts
      | false => exact tiles.selfClosed starts
  | false =>
      by_cases isRaw : isRawText name = true
      · simp only [Bool.false_eq_true, if_false, if_pos isRaw] at tiles ⊢
        exact tiles_rawText starts isRaw tiles
      · simp only [Bool.false_eq_true, if_false, if_neg isRaw] at tiles ⊢
        exact tiles.startTag starts

theorem readTag?_takes (found : readTag? text = some (events, rest)) : Takes events text rest := by
  rcases single_or_readStartTag? found with ⟨event, rfl, single⟩ | start
  · exact single.takes
  · obtain ⟨front, later, name, attributes, selfClosing, whole, named, rfl, rfl⟩ :=
      exists_of_readStartTag? start
    exact afterStartTag_takes (not_endsElement_of_named named) whole.symm

/-- A run of text before tiles is one more. -/
theorem tiles_textEvents (run : List Char) (stops : ∀ data, events.head? ≠ some (.text data))
    (tiles : Tiles events text) : Tiles (textEvents run ++ events) (run ++ text) := by
  unfold textEvents
  cases run with
  | nil => exact tiles
  | cons c run => exact .text (List.cons_ne_nil c run) stops tiles

/-- The events of a text are its tiles. -/
-- The text since the last tag stands before the rest, and no tag begins in it.
theorem tiles_eventsFrom (before text : List Char) :
    Tiles (eventsFrom before text) (before.reverse ++ text) := by
  fun_induction eventsFrom before text with
  | case1 before => simpa using tiles_textEvents before.reverse (by simp) .nil
  | case2 before c rest plain ih => simpa using ih
  | case3 before c rest bracket events after found shorter ih =>
      have takes := readTag?_takes found
      have tiles := tiles_textEvents before.reverse (takes.opens _) (takes.tiles ih)
      simpa using tiles
  | case4 before c rest bracket absent ih => simpa using ih

end

/-- A source is cut into its events, and a handler that never fails gets them all. -/
theorem events_lossless (source : String) :
    (∀ {σ ε : Type} (handle : σ → Event → σ) (state : σ),
        feed (fun state event => .ok (handle state event)) state source =
          (.ok ((events source).foldl handle state) : Except ε σ)) ∧
      (events source).flatMap Event.source = source.toList ∧
      (∀ tag name attributes, .startTag tag name attributes ∈ events source → ¬ EndsElement tag) ∧
      (∀ front tag name back, events source = front ++ .endTag tag name :: back →
        EndsElement tag ∨ ∃ before attributes, front = before ++ [.startTag tag name attributes]) ∧
      .text "" ∉ events source ∧
      ∀ front first second back, events source = front ++ .text first :: .text second :: back →
        ∃ before tag name attributes, front = before ++ [.startTag tag name attributes] ∧
          isRawText name = true ∧
          rawText name ((.text first :: .text second :: back : List Event).flatMap Event.source) =
            (first.toList, (.text second :: back : List Event).flatMap Event.source) := by
  have tiles : Tiles (events source) source.toList := tiles_eventsFrom [] source.toList
  refine ⟨fun handle state => ?_, tiles.flatMap_source, fun _ _ _ => tiles.starts, ?_, tiles.filled, ?_⟩
  · exact List.foldlM_pure
  · intro front tag name back split
    exact (split ▸ tiles).ends
  · intro front first second back split
    exact (split ▸ tiles).adjacent

/-- An element that closes itself, and raw text before an end tag that is not complete. -/
def brokenSource : String :=
  "<b/><script>x</script"

def brokenEvents : List Event :=
  [.startTag "<b/>" "b" [], .endTag "<b/>" "b", .startTag "<script>" "script" [], .text "x",
    .text "</script"]

theorem events_brokenSource : events brokenSource = brokenEvents := by
  have bold : ProperTag ['b'] := ⟨by decide, List.all_eq_true.1 (by decide)⟩
  have script : ProperTag ['s', 'c', 'r', 'i', 'p', 't'] := ⟨by decide, List.all_eq_true.1 (by decide)⟩
  have source : brokenSource.toList =
      writtenStart ['b'] [] true ++ (writtenStart ['s', 'c', 'r', 'i', 'p', 't'] [] false ++
        ['x', '<', '/', 's', 'c', 'r', 'i', 'p', 't']) := by
    simp [brokenSource, writtenStart, closing]
  have named : String.ofList (lowercase ['s', 'c', 'r', 'i', 'p', 't']) = "script" := rfl
  have after (tag : String) :
      afterStartTag tag "script" false ['x', '<', '/', 's', 'c', 'r', 'i', 'p', 't'] =
        ([.text "x"], ['<', '/', 's', 'c', 'r', 'i', 'p', 't']) := rfl
  -- The end tag is not complete, so that it is text.
  have rest : eventsFrom [] ['<', '/', 's', 'c', 'r', 'i', 'p', 't'] = [.text "</script"] := by
    rw [eventsFrom_bracket rfl, ← List.append_nil ['/', 's', 'c', 'r', 'i', 'p', 't'],
      eventsFrom_append (by decide), eventsFrom_nil]
    rfl
  rw [events, source, eventsFrom_start bold (by simp)]
  simp only [afterStartTag, if_true]
  rw [eventsFrom_start script (by simp)]
  simp only [named, after, rest]
  rfl

theorem events_lossless_broken :
    brokenEvents.flatMap Event.source = brokenSource.toList ∧ .text "" ∉ brokenEvents ∧
      (EndsElement "<b/>" ∨ ∃ before attributes,
        [Event.startTag "<b/>" "b" []] = before ++ [.startTag "<b/>" "b" attributes]) ∧
      ∃ before tag name attributes,
        [.startTag "<b/>" "b" [], .endTag "<b/>" "b", .startTag "<script>" "script" []] =
          before ++ [Event.startTag tag name attributes] ∧
        isRawText name = true ∧
        rawText name (([.text "x", .text "</script"] : List Event).flatMap Event.source) =
          (['x'], ([.text "</script"] : List Event).flatMap Event.source) := by
  obtain ⟨_, whole, _, ends, filled, adjacent⟩ := events_lossless brokenSource
  refine ⟨events_brokenSource ▸ whole, events_brokenSource ▸ filled, ?_, ?_⟩
  · exact ends [.startTag "<b/>" "b" []] "<b/>" "b" _ events_brokenSource
  · exact adjacent [.startTag "<b/>" "b" [], .endTag "<b/>" "b", .startTag "<script>" "script" []] "x"
      "</script" [] events_brokenSource

end Markup

end Stencil
