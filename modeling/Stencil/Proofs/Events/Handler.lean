import Stencil.Proofs.Events.StartTags

/-! Handing events on while a source is read.

The handler is called from each place where something was read, often twice for one tag, and
the reading stops at once when it fails. Whatever it does, what it is given is a beginning of
the list of events, up to the first that it fails on.
-/

set_option autoImplicit false

namespace Stencil.Markup

open StartTag (attributes tagReading?)

/-- What is done with an event. The state that a failing call leaves is kept. -/
abbrev Handler (ε σ : Type) :=
  Event → EStateM ε σ Unit

variable {ε σ : Type}

namespace Handler

/-- Hands text on, unless there is none. -/
def text (handle : Handler ε σ) (data : List Char) : EStateM ε σ Unit :=
  if data.isEmpty then pure () else handle (.text (String.ofList data))

/-- The handler with a list of the events that it is given, the one that it fails on included. -/
def recorded (handle : Handler ε σ) : Handler ε (σ × List Event) := fun event (state, given) =>
  match handle event state with
  | .ok _ next => .ok () (next, given ++ [event])
  | .error error next => .error error (next, given ++ [event])

/-- The handler takes all of the events, one after another. -/
inductive Accepts (handle : Handler ε σ) : σ → List Event → σ → Prop where
  | nil {state : σ} : Accepts handle state [] state
  | cons {state next last : σ} {event : Event} {events : List Event}
      (here : handle event state = .ok () next) :
      Accepts handle next events last → Accepts handle state (event :: events) last

/-- The handler never fails. -/
def Total (handle : Handler ε σ) : Prop :=
  ∀ event state, ∃ next, handle event state = .ok () next

/-- Where the one handler does not fail, the other does the same. -/
def Continues (handle other : Handler ε σ) : Prop :=
  ∀ event state next, handle event state = .ok () next → other event state = .ok () next

end Handler

/-- The result of a run, without the list of its events. -/
def withoutRecord : EStateM.Result ε (σ × List Event) Unit → EStateM.Result ε σ Unit
  | .ok _ (last, _) => .ok () last
  | .error error (last, _) => .error error last

/-- The result of a run as a value. -/
def ended : EStateM.Result ε σ Unit → Except (ε × σ) σ
  | .ok _ last => .ok last
  | .error error last => .error (error, last)

theorem length_of_tagReading? {text : List Char} {read : StartTag.TagReading}
    (found : tagReading? text = some read) : read.close.rest.length < text.length := by
  obtain ⟨region, rfl, -, -, inside⟩ := StartTag.exists_of_tagReading? found
  have closed : StartTag.close? region = some read.close := by
    rw [← StartTag.map_reading?, inside, Option.map_some]
  obtain ⟨tailed, ended⟩ := StartTag.close?_suffix _ closed
  have shorter := (StartTag.ending?_suffix ended).2
  have := tailed.length_le
  simp only [List.length_cons, List.length_append]
  omega

theorem length_rawText_le (name : String) (rest : List Char) :
    (rawText name rest).2.length ≤ rest.length := by
  have whole := congrArg List.length (rawBody_append ('<' :: '/' :: name.toList) rest)
  rw [List.length_append] at whole
  unfold rawText
  omega

/-- Reads a text after some text, which is kept backwards, and hands its events on one by one. -/
def tokenizeFrom (handle : Handler ε σ) (before : List Char) : List Char → EStateM ε σ Unit
  | [] => handle.text before.reverse
  | c :: rest =>
      if c ≠ '<' then tokenizeFrom handle (c :: before) rest
      else match comment : readComment? (c :: rest) with
      | some (event, after) => do
          have := readComment?_length comment
          handle.text before.reverse
          handle event
          tokenizeFrom handle [] after
      | none =>
      match finish : readEndTag? (c :: rest) with
      | some (event, after) => do
          have := readEndTag?_length finish
          handle.text before.reverse
          handle event
          tokenizeFrom handle [] after
      | none =>
      match start : tagReading? (c :: rest) with
      | some read => do
          have := length_of_tagReading? start
          let tag := String.ofList (upTo (c :: rest) read.close.rest)
          let name := String.ofList (lowercase read.name)
          have := length_rawText_le name read.close.rest
          handle.text before.reverse
          handle (.startTag tag name (attributes (read.attributes.flatMap (·.source))))
          if read.close.selfClosing && !isVoid name then do
            handle (.endTag tag name)
            tokenizeFrom handle [] read.close.rest
          else if !read.close.selfClosing && isRawText name then do
            handle.text (rawText name read.close.rest).1
            tokenizeFrom handle [] (rawText name read.close.rest).2
          else tokenizeFrom handle [] read.close.rest
      | none =>
      match other : readOther? (c :: rest) with
      | some (event, after) => do
          have := readOther?_length other
          handle.text before.reverse
          handle event
          tokenizeFrom handle [] after
      | none => tokenizeFrom handle (c :: before) rest
termination_by text => text.length
decreasing_by
  · exact Nat.lt_succ_self _
  · assumption
  · assumption
  · assumption
  · exact Nat.lt_of_le_of_lt (length_rawText_le _ _) ‹_›
  · assumption
  · assumption
  · exact Nat.lt_succ_self _

/-- Reads a source, handing its events on. -/
def tokenize (handle : Handler ε σ) (source : String) : EStateM ε σ Unit :=
  tokenizeFrom handle [] source.toList

variable (handle : Handler ε σ)

theorem forM_textEvents (data : List Char) : forM (textEvents data) handle = handle.text data := by
  unfold textEvents Handler.text
  split
  · exact List.forM_nil
  · rw [List.forM_cons, List.forM_nil, bind_pure_unit]

/-- The events of a tag are handed on after the text before it, -/
theorem forM_eventsFrom_tag {text rest : List Char} {events : List Event}
    (found : readTag? ('<' :: text) = some (events, rest)) (before : List Char) :
    forM (eventsFrom before ('<' :: text)) handle = (do
      handle.text before.reverse
      forM events handle
      forM (eventsFrom [] rest) handle) := by
  rw [eventsFrom_tag found, List.forM_append, List.forM_append, forM_textEvents, bind_assoc]

/-- and a single one is handed on as it is. -/
theorem forM_eventsFrom_single {text rest : List Char} {event : Event}
    (found : readTag? ('<' :: text) = some ([event], rest)) (before : List Char) :
    forM (eventsFrom before ('<' :: text)) handle = (do
      handle.text before.reverse
      handle event
      forM (eventsFrom [] rest) handle) := by
  rw [forM_eventsFrom_tag handle found, List.forM_cons, List.forM_nil, bind_pure_unit]

/-- What follows a start tag at once is its end or raw text, or else there is nothing. -/
theorem forM_afterStartTag (tag name : String) (selfClosing : Bool) (rest : List Char) :
    (do
      forM (afterStartTag tag name selfClosing rest).1 handle
      forM (eventsFrom [] (afterStartTag tag name selfClosing rest).2) handle) =
      if selfClosing && !isVoid name then do
        handle (.endTag tag name)
        forM (eventsFrom [] rest) handle
      else if !selfClosing && isRawText name then do
        handle.text (rawText name rest).1
        forM (eventsFrom [] (rawText name rest).2) handle
      else forM (eventsFrom [] rest) handle := by
  unfold afterStartTag rawText
  cases selfClosing with
  | true => cases isVoid name <;> simp
  | false => cases isRawText name <;> simp [forM_textEvents]

theorem tokenizeFrom_eq (before text : List Char) :
    tokenizeFrom handle before text = forM (eventsFrom before text) handle := by
  fun_induction tokenizeFrom handle before text with
  | case1 before => rw [eventsFrom_nil, forM_textEvents]
  | case2 before c rest plain ih => rw [eventsFrom, if_pos plain, ih]
  | case3 before c rest bracket event after comment shorter ih =>
      obtain rfl := not_ne_iff.1 bracket
      have found : readTag? ('<' :: rest) = some ([event], after) := by
        simp [readTag?, constructs, single, comment]
      rw [forM_eventsFrom_single handle found, ih]
  | case4 before c rest bracket noComment event after finish shorter ih =>
      obtain rfl := not_ne_iff.1 bracket
      have found : readTag? ('<' :: rest) = some ([event], after) := by
        simp [readTag?, constructs, single, noComment, finish]
      rw [forM_eventsFrom_single handle found, ih]
  | case5 before c rest bracket noComment noEnd read start shorter tag name body ihRest ihBody =>
      obtain rfl := not_ne_iff.1 bracket
      have found : readTag? ('<' :: rest) = readStartTag? ('<' :: rest) := by
        simp [readTag?, constructs, single, noComment, noEnd, readStartTag?_eq, start]
      rw [readStartTag?_eq, start, Option.map_some] at found
      rw [forM_eventsFrom_tag handle found, List.forM_cons, bind_assoc, forM_afterStartTag, ihRest, ihBody]
  | case6 before c rest bracket noComment noEnd noStart event after other shorter ih =>
      obtain rfl := not_ne_iff.1 bracket
      have found : readTag? ('<' :: rest) = some ([event], after) := by
        simp [readTag?, constructs, single, noComment, noEnd, readStartTag?_eq, noStart, other]
      rw [forM_eventsFrom_single handle found, ih]
  | case7 before c rest bracket noComment noEnd noStart noOther ih =>
      obtain rfl := not_ne_iff.1 bracket
      have absent : readTag? ('<' :: rest) = none := by
        simp [readTag?, constructs, single, noComment, noEnd, readStartTag?_eq, noStart, noOther]
      rw [eventsFrom_bracket absent, ih]

theorem tokenize_eq (source : String) : tokenize handle source = forM (events source) handle :=
  tokenizeFrom_eq handle [] source.toList

/-! Events in a list, handed on one after another. -/

section

variable {handle : Handler ε σ} {state next last mid : σ} {given : List Event} {events : List Event}
  {event : Event} {error : ε}

theorem forM_of_ok (here : handle event state = .ok () next) (events : List Event) :
    forM (event :: events) handle state = forM events handle next := by
  rw [List.forM_cons]
  simp only [bind, EStateM.bind, here]

theorem forM_of_error (here : handle event state = .error error last) (events : List Event) :
    forM (event :: events) handle state = .error error last := by
  rw [List.forM_cons]
  simp only [bind, EStateM.bind, here]

/-- After the events that are accepted, the run goes on with the others. -/
theorem Handler.Accepts.forM_append (accepts : handle.Accepts state events mid) (others : List Event) :
    forM (events ++ others) handle state = forM others handle mid := by
  induction accepts with
  | nil => rfl
  | cons here _ ih => rw [List.cons_append, forM_of_ok here, ih]

theorem forM_eq_ok_iff : forM events handle state = .ok () last ↔ handle.Accepts state events last := by
  constructor
  · intro run
    induction events generalizing state with
    | nil =>
        cases run
        exact .nil
    | cons event events ih =>
        cases here : handle event state with
        | ok _ next => exact .cons here (ih (forM_of_ok here events ▸ run))
        | error error next => cases (forM_of_error here events).symm.trans run
  · intro accepts
    rw [← List.append_nil events, accepts.forM_append]
    rfl

/-- A run fails where the first event is that the handler fails on. -/
theorem forM_eq_error_iff : forM events handle state = .error error last ↔
    ∃ n mid event, handle.Accepts state (events.take n) mid ∧ events[n]? = some event ∧
      handle event mid = .error error last := by
  constructor
  · intro run
    induction events generalizing state with
    | nil => cases run
    | cons first events ih =>
        cases here : handle first state with
        | ok _ next =>
            obtain ⟨n, mid, event, accepts, found, failed⟩ := ih (forM_of_ok here events ▸ run)
            exact ⟨n + 1, mid, event, .cons here accepts, found, failed⟩
        | error error next =>
            have same := (forM_of_error here events).symm.trans run
            exact ⟨0, state, first, .nil, rfl, here.trans same⟩
  · rintro ⟨n, mid, event, accepts, found, failed⟩
    have split : events.take n ++ event :: events.drop (n + 1) = events := by
      obtain ⟨short, rfl⟩ := List.getElem?_eq_some_iff.1 found
      rw [List.cons_getElem_drop_succ, List.take_append_drop]
    rw [← split, accepts.forM_append, forM_of_error failed]

theorem recorded_eq_ok_iff {record : List Event} :
    handle.recorded event (state, given) = .ok () (next, record) ↔
      handle event state = .ok () next ∧ record = given ++ [event] := by
  simp only [Handler.recorded]
  cases handle event state <;> simp [eq_comm]

theorem recorded_eq_error_iff {record : List Event} :
    handle.recorded event (state, given) = .error error (last, record) ↔
      handle event state = .error error last ∧ record = given ++ [event] := by
  simp only [Handler.recorded]
  cases handle event state <;> simp [eq_comm, and_assoc]

theorem Handler.Accepts.recorded (accepts : handle.Accepts state events last) :
    handle.recorded.Accepts (state, given) events (last, given ++ events) := by
  induction accepts generalizing given with
  | nil =>
      rw [List.append_nil]
      exact .nil
  | cons here _ ih =>
      rw [List.append_cons]
      exact .cons (recorded_eq_ok_iff.2 ⟨here, rfl⟩) ih

/-- The run is the same with a list of its events. -/
theorem withoutRecord_forM (handle : Handler ε σ) (events : List Event) (state : σ) (given : List Event) :
    withoutRecord (forM events handle.recorded (state, given)) = forM events handle state := by
  induction events generalizing state given with
  | nil => rfl
  | cons event events ih =>
      cases here : handle event state with
      | ok _ next => rw [forM_of_ok here, forM_of_ok (recorded_eq_ok_iff.2 ⟨here, rfl⟩), ih]
      | error error last =>
          rw [forM_of_error here, forM_of_error (recorded_eq_error_iff.2 ⟨here, rfl⟩)]
          rfl

/-- The event that the handler fails on is the last one in the list. -/
theorem forM_recorded_eq_error_iff :
    forM events handle.recorded (state, []) = .error error (last, given) ↔
      ∃ n mid event, handle.Accepts state (events.take n) mid ∧ events[n]? = some event ∧
        handle event mid = .error error last ∧ given = events.take n ++ [event] := by
  have fails {n : Nat} {mid : σ} {event : Event} (accepts : handle.Accepts state (events.take n) mid)
      (found : events[n]? = some event) (failed : handle event mid = .error error last) :
      forM events handle.recorded (state, []) = .error error (last, events.take n ++ [event]) :=
    forM_eq_error_iff.2 ⟨n, _, event, accepts.recorded, found, recorded_eq_error_iff.2 ⟨failed, rfl⟩⟩
  constructor
  · intro run
    have plain := withoutRecord_forM handle events state []
    rw [run] at plain
    obtain ⟨n, mid, event, accepts, found, failed⟩ := forM_eq_error_iff.1 plain.symm
    have same := run.symm.trans (fails accepts found failed)
    simp only [EStateM.Result.error.injEq, Prod.mk.injEq, true_and] at same
    exact ⟨n, mid, event, accepts, found, failed, same⟩
  · rintro ⟨n, mid, event, accepts, found, failed, rfl⟩
    exact fails accepts found failed

/-- The run over values is the same, too. -/
theorem foldlM_ended (handle : Handler ε σ) (events : List Event) (state : σ) :
    events.foldlM (fun state event => ended (handle event state)) state =
      ended (forM events handle state) := by
  induction events generalizing state with
  | nil => rfl
  | cons event events ih =>
      rw [List.foldlM_cons]
      cases here : handle event state with
      | ok _ next => rw [forM_of_ok here, ← ih]; rfl
      | error error last => rw [forM_of_error here]; rfl

theorem Handler.Total.exists_accepts (total : handle.Total) (events : List Event) (state : σ) :
    ∃ last, handle.Accepts state events last := by
  induction events generalizing state with
  | nil => exact ⟨state, .nil⟩
  | cons event events ih =>
      obtain ⟨next, here⟩ := total event state
      obtain ⟨last, later⟩ := ih next
      exact ⟨last, .cons here later⟩

theorem Handler.Accepts.continued {other : Handler ε σ} (continues : handle.Continues other)
    (accepts : handle.Accepts state events last) : other.Accepts state events last := by
  induction accepts with
  | nil => exact .nil
  | cons here _ ih => exact .cons (continues _ _ _ here) ih

end

/-- A run fails with the first event that the handler fails on, and nothing is given to it
after that one. Until then it is given what a handler is given that never fails. -/
theorem tokenize_failFast (source : String) (start : σ) :
    (∀ {ε' σ' : Type} (other : Handler ε' σ'), other.Total → ∀ first, ∃ last,
        tokenize other.recorded source (first, []) = .ok () (last, events source)) ∧
      (∀ error last given, tokenize handle.recorded source (start, []) = .error error (last, given) ↔
        ∃ n mid event, handle.Accepts start ((events source).take n) mid ∧
          (events source)[n]? = some event ∧ handle event mid = .error error last ∧
          given = (events source).take n ++ [event]) ∧
      (∀ n mid, handle.Accepts start ((events source).take n) mid → (events source).length ≤ n →
        tokenize handle.recorded source (start, []) = .ok () (mid, events source) ∧
          ∀ other, handle.Continues other →
            tokenize other.recorded source (start, []) = tokenize handle.recorded source (start, [])) ∧
      withoutRecord (tokenize handle.recorded source (start, [])) = tokenize handle source start ∧
      feed (fun state event => ended (handle event state)) start source =
        ended (tokenize handle source start) := by
  simp only [tokenize_eq]
  refine ⟨fun other total first => ?_, fun _ _ _ => forM_recorded_eq_error_iff,
    fun n mid accepts short => ?_, withoutRecord_forM handle _ start [], foldlM_ended handle _ start⟩
  · obtain ⟨last, accepts⟩ := total.exists_accepts (events source) first
    exact ⟨last, forM_eq_ok_iff.2 accepts.recorded⟩
  · rw [List.take_of_length_le short] at accepts
    have all : forM (events source) handle.recorded (start, []) = .ok () (mid, events source) :=
      forM_eq_ok_iff.2 accepts.recorded
    refine ⟨all, fun other continues => ?_⟩
    rw [all]
    exact forM_eq_ok_iff.2 (accepts.continued continues).recorded

/-- Takes as many events as are left, and then fails. -/
def Handler.limited (error : ε) : Handler ε Nat := fun _ left =>
  match left with
  | 0 => .error error 0
  | left + 1 => .ok () left

/-- Three of the events are taken, of which two are of one tag. -/
theorem tokenize_failFast_limited :
    tokenize (Handler.limited "full").recorded brokenSource (3, []) =
        .error "full" (0, brokenEvents.take 3 ++ [.text "x"]) ∧
      tokenize (Handler.limited "full").recorded brokenSource (5, []) = .ok () (0, brokenEvents) := by
  obtain ⟨-, fails, -⟩ := tokenize_failFast (Handler.limited "full") brokenSource 3
  obtain ⟨-, -, whole, -⟩ := tokenize_failFast (Handler.limited "full") brokenSource 5
  rw [events_brokenSource] at fails whole
  exact ⟨(fails ..).2 ⟨3, 0, _, .cons rfl (.cons rfl (.cons rfl .nil)), rfl, rfl, rfl⟩,
    (whole 5 0 (.cons rfl (.cons rfl (.cons rfl (.cons rfl (.cons rfl .nil))))) (by decide)).1⟩

end Stencil.Markup
