import Stencil.Proofs.Walk.Attributes

/-! A template tells the events of its source again.

Without references to views, the walk of a template goes through the events of the source one
by one. A start tag is told by its name and by what the attributes are of the written ones, so
the values that a repeated name had before its last one are not in the template.
-/

set_option autoImplicit false

namespace Stencil

open List (Forall₂)

/-- What is read as text in an event: a text, or the values of a start tag. -/
def Event.texts : Event → List String
  | .startTag _ _ written => written.filterMap (·.2)
  | .text data => [data]
  | .endTag _ _ | .comment _ _ | .other _ => []

/-- The name of a start tag, with the attributes as they are written. -/
def Event.written? : Event → Option (String × List (String × Option String))
  | .startTag _ name written => some (name, written)
  | _ => none

theorem Event.mem_texts_of_mem {tag name key value : String} {written : List (String × Option String)}
    (member : (key, some value) ∈ written) : value ∈ (Event.startTag tag name written).texts :=
  List.mem_filterMap.2 ⟨_, member, rfl⟩

namespace Compiler

variable (compiler : Compiler)

/-- What is walked in the place of an event. -/
inductive Retells : Event → List Visit → Prop where
  | start {tag name : String} {written : List (String × Option String)} {attributes : Dict Attribute} :
      compiler.Collects written attributes →
      Retells (.startTag tag name written) [.start name attributes]
  | finish {tag name : String} : Markup.isVoid name = false →
      Retells (.endTag tag name) [.finish name]
  | void {tag name : String} : Markup.isVoid name = true → Retells (.endTag tag name) []
  -- Delimiters with nothing between them are no piece.
  | text {data : String} {pieces : List Piece} {visits : List Visit} :
      compiler.textPieces (unescapeEntities data) = .ok pieces → Forall₂ Recalls visits pieces →
      Retells (.text data) visits
  | kept {tag data : String} : compiler.conditionalComments = true → Markup.isConditional tag = true →
      Retells (.comment tag data) [.comment data]
  | dropped {tag data : String} :
      ¬ (compiler.conditionalComments = true ∧ Markup.isConditional tag = true) →
      Retells (.comment tag data) []
  | other {tag : String} : Retells (.other tag) [.expression (declaration tag)]

/-- Neither a tag nor an expression of a source, in an attribute or not, refers to a view. -/
structure Viewless (source : String) : Prop where
  tags : ∀ tag written, .startTag tag "view" written ∉ Markup.events source
  texts : ∀ event ∈ Markup.events source, ∀ text ∈ event.texts, compiler.ViewlessText text

variable {compiler} {context : ViewContext}

/-- Without views there are only plain pieces. -/
theorem Viewless.plain {source : String} {pieces : List Piece} (viewless : compiler.Viewless source)
    (noViews : ∀ tag, context.lookup.element? tag = none)
    (read : compiler.markupPieces context source = .ok pieces) :
    ∀ piece ∈ pieces, compiler.Plain context piece := by
  intro piece member
  obtain ⟨event, occurs, brings⟩ := exists_brings_of_mem_markupPieces read member
  cases brings with
  | @start _ name =>
      refine keeps_of_element?_eq_none ?_ (noViews name)
      rintro rfl
      exact viewless.tags _ _ occurs
  | text here among =>
      exact plain_of_textPieces here (viewless.texts _ occurs _ List.mem_cons_self _ here) _ among
  | other => rfl
  | finish | comment => trivial

theorem viewlessText_of_textPieces {text : String} {pieces : List Piece}
    (read : compiler.textPieces (unescapeEntities text) = .ok pieces)
    (noView : ∀ expression, .expression expression ∈ pieces → expression.marks.isView = false) :
    compiler.ViewlessText text := by
  intro others same
  obtain rfl := Except.ok.inj (read.symm.trans same)
  exact noView

/-- One piece is visited once. -/
theorem exists_visit_of_recalls {piece : Piece} {visits : List Visit}
    (recalls : Forall₂ Recalls visits [piece]) : ∃ visit, Recalls visit piece ∧ visits = [visit] := by
  cases recalls with
  | cons here others =>
      cases others
      exact ⟨_, here, rfl⟩

/-- One event. -/
theorem retells_of_eventPieces {event : Event} {pieces : List Piece} {visits : List Visit}
    (viewless : ∀ text ∈ event.texts, compiler.ViewlessText text)
    (read : compiler.eventPieces context event = .ok pieces) (recalls : Forall₂ Recalls visits pieces) :
    compiler.Retells event visits := by
  cases event with
  | startTag tag name written =>
      obtain ⟨attributes, compiled, same⟩ := bind_eq_ok_iff.1 read
      obtain rfl := Except.ok.inj same
      obtain ⟨_, here, rfl⟩ := exists_visit_of_recalls recalls
      cases here
      refine .start (collects_of_attributes (fun key value member => ?_) compiled)
      exact viewless value (Event.mem_texts_of_mem member)
  | endTag tag name =>
      simp only [eventPieces] at read
      split at read
      · rename_i isVoid
        obtain rfl := Except.ok.inj read
        cases recalls
        exact .void isVoid
      · rename_i isOpen
        obtain rfl := Except.ok.inj read
        obtain ⟨_, here, rfl⟩ := exists_visit_of_recalls recalls
        cases here
        exact .finish (Bool.eq_false_iff.2 isOpen)
  | text data => exact .text read recalls
  | comment tag data =>
      simp only [eventPieces, Bool.and_eq_true] at read
      split at read
      · rename_i kept
        obtain rfl := Except.ok.inj read
        obtain ⟨_, here, rfl⟩ := exists_visit_of_recalls recalls
        cases here
        exact .kept kept.1 kept.2
      · rename_i unkept
        obtain rfl := Except.ok.inj read
        cases recalls
        exact .dropped unkept
  | other tag =>
      obtain rfl := Except.ok.inj read
      obtain ⟨_, here, rfl⟩ := exists_visit_of_recalls recalls
      cases here with
      | expression => exact .other
      | otherwise isElse => cases isElse.2
      | ending closes => cases closes.1

/-- All events, in order. -/
theorem retells_of_gather {events : List Event} {pieces : List Piece} {visits : List Visit}
    (viewless : ∀ event ∈ events, ∀ text ∈ event.texts, compiler.ViewlessText text)
    (read : gather (compiler.eventPieces context) events = .ok pieces)
    (recalls : Forall₂ Recalls visits pieces) :
    ∃ parts, Forall₂ compiler.Retells events parts ∧ visits = parts.flatten := by
  induction events generalizing pieces visits with
  | nil =>
      obtain rfl := Except.ok.inj read
      cases recalls
      exact ⟨[], .nil, rfl⟩
  | cons event rest ih =>
      obtain ⟨own, others, here, later, rfl⟩ := gather_cons_eq_ok_iff.1 read
      obtain ⟨first, after⟩ := List.forall_mem_cons.1 viewless
      obtain ⟨parts, retells, same⟩ := ih after later (List.forall₂_drop_append _ _ _ recalls)
      have told := retells_of_eventPieces first here (List.forall₂_take_append _ _ _ recalls)
      refine ⟨visits.take own.length :: parts, .cons told retells, ?_⟩
      rw [List.flatten_cons, ← same, List.take_append_drop]

/-- The template of a source without views, walked in document order, tells the events of the
source: none is lost, doubled or moved, and of its attributes a start tag has every name once,
in its first place and with its last value. -/
theorem walkAll_retells_of_compileMarkup {source : String} {nodes : Template}
    (noViews : ∀ tag, context.lookup.element? tag = none) (viewless : compiler.Viewless source)
    (accepted : compiler.compileMarkup context source = .ok nodes) :
    ∃ parts, Forall₂ compiler.Retells (Markup.events source) parts ∧
      Node.walkAll nodes = parts.flatten := by
  obtain ⟨pieces, read⟩ := markupPieces_of_compileMarkup accepted
  rw [compileMarkup_eq read, addPieces_finish_eq_ok_iff (viewless.plain noViews read)] at accepted
  exact retells_of_gather viewless.texts read accepted.recalls

/-- An element that writes a name again, around a loop, and a comment that is not kept. -/
def toldSource : String :=
  "<p a=1 b a='x{{a}}'>{{each a}}<br>{{else}}&lt;{{/}}</p><!--c-->"

def toldEvents : List Event :=
  [.startTag "<p a=1 b a='x{{a}}'>" "p" [("a", some "1"), ("b", none), ("a", some "x{{a}}")],
    .text "{{each a}}", .startTag "<br>" "br" [], .text "{{else}}&lt;{{/}}", .endTag "</p>" "p",
    .comment "<!--c-->" "c"]

def toldAttributes : Dict Attribute :=
  ⟨[("a", .template [.text "x", .dynamic .valueA]), ("b", .literal (.bool true))]⟩

def toldNodes : Template :=
  [.element ⟨"p", toldAttributes, [.each .eachA [.element ⟨"br", .empty, [], true⟩] (some [.text "<"])],
    false⟩]

def toldPieces : List Piece :=
  [.start "p" toldAttributes, .expression .eachA, .start "br" .empty, .expression .bareElse, .text "<",
    .expression .bareEnd, .finish "</p>" "p"]

set_option maxRecDepth 20000 in
theorem events_toldSource : Markup.events toldSource = toldEvents := by
  have paragraph : Markup.readTag?
      ('<' :: "p a=1 b a='x{{a}}'>{{each a}}<br>{{else}}&lt;{{/}}</p><!--c-->".toList) =
        some ([.startTag "<p a=1 b a='x{{a}}'>" "p" [("a", some "1"), ("b", none), ("a", some "x{{a}}")]],
          "{{each a}}".toList ++ '<' :: "br>{{else}}&lt;{{/}}</p><!--c-->".toList) := by
    cbv
  have lineBreak : Markup.readTag? ('<' :: "br>{{else}}&lt;{{/}}</p><!--c-->".toList) =
      some ([.startTag "<br>" "br" []],
        "{{else}}&lt;{{/}}".toList ++ '<' :: "/p><!--c-->".toList) := by
    cbv
  have closing : Markup.readTag? ('<' :: "/p><!--c-->".toList) =
      some ([.endTag "</p>" "p"], '<' :: "!--c-->".toList) := by
    cbv
  have comment : Markup.readTag? ('<' :: "!--c-->".toList) = some ([.comment "<!--c-->" "c"], []) := by
    cbv
  have source : toldSource.toList =
      '<' :: "p a=1 b a='x{{a}}'>{{each a}}<br>{{else}}&lt;{{/}}</p><!--c-->".toList := by
    cbv
  rw [Markup.events, source, Markup.eventsFrom_tag paragraph, Markup.eventsFrom_append (by decide),
    Markup.eventsFrom_tag lineBreak, Markup.eventsFrom_append (by decide),
    Markup.eventsFrom_tag closing, Markup.eventsFrom_tag comment, Markup.eventsFrom_nil]
  cbv

section

-- The texts of the source, between its tags and in its attributes.
set_option maxRecDepth 20000

theorem textPieces_number : Compiler.standard.textPieces (unescapeEntities "1") = .ok [.text "1"] := by
  cbv

theorem textPieces_value : Compiler.standard.textPieces (unescapeEntities "x{{a}}") =
    .ok [.text "x", .expression .valueA] := by
  have split : Fragment.split (unescapeEntities "x{{a}}") =
      ⟨[.literal "x", .delimited "a"], none⟩ := by
    cbv
  rw [textPieces_eq_ok_iff, split]
  refine ⟨rfl, ?_⟩
  simp only [gather, fragmentPieces_valueA]
  rfl

theorem textPieces_opener :
    Compiler.standard.textPieces (unescapeEntities "{{each a}}") = .ok [.expression .eachA] := by
  have split : Fragment.split (unescapeEntities "{{each a}}") = ⟨[.delimited "each a"], none⟩ := by
    cbv
  rw [textPieces_eq_ok_iff, split]
  refine ⟨rfl, ?_⟩
  simp only [gather, fragmentPieces_eachA]
  rfl

theorem textPieces_otherwise : Compiler.standard.textPieces (unescapeEntities "{{else}}&lt;{{/}}") =
    .ok [.expression .bareElse, .text "<", .expression .bareEnd] := by
  have split : Fragment.split (unescapeEntities "{{else}}&lt;{{/}}") =
      ⟨[.delimited "else", .literal "<", .delimited "/"], none⟩ := by
    cbv
  rw [textPieces_eq_ok_iff, split]
  refine ⟨rfl, ?_⟩
  simp only [gather, fragmentPieces_else, fragmentPieces_slash]
  rfl

theorem attributes_toldAttributes : Compiler.standard.attributes .detached
    [("a", some "1"), ("b", none), ("a", some "x{{a}}")] = .ok toldAttributes := by
  cbv

end

theorem markupPieces_toldSource :
    Compiler.standard.markupPieces .detached toldSource = .ok toldPieces := by
  have kept : Markup.isConditional "<!--c-->" = false := by cbv
  have bare : Compiler.standard.attributes .detached [] = .ok .empty := rfl
  have isOpen : Markup.isVoid "p" = false := by decide
  rw [markupPieces, events_toldSource]
  simp only [toldEvents, gather, eventPieces, attributes_toldAttributes, bare, textPieces_opener,
    textPieces_otherwise, isOpen, kept, Bool.and_false]
  rfl

theorem viewless_toldSource : Compiler.standard.Viewless toldSource where
  tags tag written := by
    rw [events_toldSource]
    simp [toldEvents]
  texts event occurs text among := by
    rw [events_toldSource] at occurs
    simp only [toldEvents, List.mem_cons, List.not_mem_nil, or_false] at occurs
    rcases occurs with rfl | rfl | rfl | rfl | rfl | rfl
    · obtain rfl | rfl : text = "1" ∨ text = "x{{a}}" := by simpa [Event.texts] using among
      · exact viewlessText_of_textPieces textPieces_number (by simp)
      · exact viewlessText_of_textPieces textPieces_value (by simp [Expression.valueA, Marks.plain])
    · obtain rfl := List.mem_singleton.1 among
      exact viewlessText_of_textPieces textPieces_opener (by simp [Expression.eachA, Marks.plain])
    · cases among
    · obtain rfl := List.mem_singleton.1 among
      refine viewlessText_of_textPieces textPieces_otherwise ?_
      simp [Expression.bareElse, Expression.bareEnd, Marks.plain]
    · cases among
    · cases among

theorem walkAll_retells_toldNodes :
    (∀ tag, ViewContext.detached.lookup.element? tag = none) ∧
      Compiler.standard.Viewless toldSource ∧
      Compiler.standard.compileMarkup .detached toldSource = .ok toldNodes ∧
      ∃ parts, Forall₂ Compiler.standard.Retells toldEvents parts ∧
        Node.walkAll toldNodes = parts.flatten := by
  have noViews : ∀ tag, ViewContext.detached.lookup.element? tag = none := fun _ => rfl
  have accepted : Compiler.standard.compileMarkup .detached toldSource = .ok toldNodes := by
    rw [compileMarkup_eq markupPieces_toldSource]
    cbv
  have told := walkAll_retells_of_compileMarkup noViews viewless_toldSource accepted
  rw [events_toldSource] at told
  exact ⟨noViews, viewless_toldSource, accepted, told⟩

/-- An element with one attribute. -/
def againNodes : Template :=
  [.element ⟨"p", ⟨[("a", .literal (.string "2"))]⟩, [], false⟩]

set_option maxRecDepth 20000 in
theorem events_again : Markup.events "<p a=1 a=2></p>" =
    [.startTag "<p a=1 a=2>" "p" [("a", some "1"), ("a", some "2")], .endTag "</p>" "p"] := by
  have opening : Markup.readTag? ('<' :: "p a=1 a=2></p>".toList) =
      some ([.startTag "<p a=1 a=2>" "p" [("a", some "1"), ("a", some "2")]], '<' :: "/p>".toList) := by
    cbv
  have closing : Markup.readTag? ('<' :: "/p>".toList) = some ([.endTag "</p>" "p"], []) := by cbv
  have source : "<p a=1 a=2></p>".toList = '<' :: "p a=1 a=2></p>".toList := by cbv
  rw [Markup.events, source, Markup.eventsFrom_tag opening, Markup.eventsFrom_tag closing,
    Markup.eventsFrom_nil]
  cbv

set_option maxRecDepth 20000 in
theorem events_once : Markup.events "<p a=2></p>" =
    [.startTag "<p a=2>" "p" [("a", some "2")], .endTag "</p>" "p"] := by
  have opening : Markup.readTag? ('<' :: "p a=2></p>".toList) =
      some ([.startTag "<p a=2>" "p" [("a", some "2")]], '<' :: "/p>".toList) := by
    cbv
  have closing : Markup.readTag? ('<' :: "/p>".toList) = some ([.endTag "</p>" "p"], []) := by cbv
  have source : "<p a=2></p>".toList = '<' :: "p a=2></p>".toList := by cbv
  rw [Markup.events, source, Markup.eventsFrom_tag opening, Markup.eventsFrom_tag closing,
    Markup.eventsFrom_nil]
  cbv

set_option maxRecDepth 20000 in
/-- A value before the last one of its name is not in the template, so the start tags of a source
cannot be told from it as they are written. -/
theorem not_exists_tells_written :
    Compiler.standard.compileMarkup .detached "<p a=1 a=2></p>" = .ok againNodes ∧
      Compiler.standard.compileMarkup .detached "<p a=2></p>" = .ok againNodes ∧
      ¬ ∃ tells : Template → List (String × List (String × Option String)), ∀ source nodes,
        Compiler.standard.Viewless source →
          Compiler.standard.compileMarkup .detached source = .ok nodes →
            tells nodes = (Markup.events source).filterMap Event.written? := by
  have one : Compiler.standard.ViewlessText "1" := viewlessText_of_textPieces textPieces_number (by simp)
  have two : Compiler.standard.ViewlessText "2" := by
    have read : Compiler.standard.textPieces (unescapeEntities "2") = .ok [.text "2"] := by cbv
    exact viewlessText_of_textPieces read (by simp)
  have again : Compiler.standard.compileMarkup .detached "<p a=1 a=2></p>" = .ok againNodes := by
    rw [compileMarkup, Markup.feed, events_again]
    cbv
  have once : Compiler.standard.compileMarkup .detached "<p a=2></p>" = .ok againNodes := by
    rw [compileMarkup, Markup.feed, events_once]
    cbv
  refine ⟨again, once, ?_⟩
  rintro ⟨tells, tellsAll⟩
  have first := tellsAll "<p a=1 a=2></p>" againNodes
    ⟨by simp [events_again], by simp [events_again, Event.texts, one, two]⟩ again
  have second := tellsAll "<p a=2></p>" againNodes
    ⟨by simp [events_once], by simp [events_once, Event.texts, two]⟩ once
  rw [events_again] at first
  rw [events_once, first] at second
  simp [Event.written?] at second

end Compiler

end Stencil
