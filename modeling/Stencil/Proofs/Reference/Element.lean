import Stencil.Proofs.Reference
import Stencil.Proofs.Rendering.RoundTrip

/-! References that are elements.

The attributes of a start tag are compiled each by itself, and the bag takes them in
their order when the element closes.
-/

set_option autoImplicit false

namespace Stencil

namespace Passed

open Token Printed Grammar

variable {value : Passed} {first : String} {others : List String}

/-- A path is none of the words that mean something alone. -/
theorem path_not_mem_words (alone : others = [] → first ∉ ["else", "unbound", "bound"]) :
    String.ofList (path first others).written ∉ ["else", "unbound", "bound"] := by
  cases others with
  | nil =>
      rw [written, List.flatMap_nil, List.append_nil, String.ofList_toList]
      exact alone rfl
  | cons next others =>
      have point : '.' ∈ (path first (next :: others)).written := by simp [written]
      have plain : ["else", "unbound", "bound"].all (fun word => !word.toList.contains '.') = true := by
        decide
      intro member
      exact absurd point (by simpa using List.all_eq_true.1 plain _ member)

variable {compiler : Compiler}

/-- A path between delimiters is read as a value. -/
theorem spells_path (proper : (path first others).Proper) :
    compiler.Spells (.ofExpr (path first others).tree) := by
  have noOpen : '{' ∉ (path first others).written := proper.not_mem_written (by decide) (by decide)
  have noClose : '}' ∉ (path first others).written := proper.not_mem_written (by decide) (by decide)
  cases proper with
  | path isFirst areOthers unreserved alone =>
      have source : (Expression.ofExpr (path first others).tree).marks.source.toList =
          (path first others).written := text_path first others
      have dark : ∀ c ∈ (path first others).written, Text.isBlank c = false := by
        intro c member
        rw [Bool.eq_false_iff]
        refine fun blank => not_mem_path isFirst areOthers (isNameChar_of_isBlank blank) ?_ member
        rintro rfl
        cases blank
      have opens : Opens (path first others).written := (name_opens isFirst.isName).append _
      have some : (path first others).written ≠ [] := by
        obtain ⟨c, rest, same, _⟩ := opens
        simp [same]
      have shuts : Shuts (path first others).written := shuts_of_forall some dark
      have trimmed : Text.trim (path first others).written = (path first others).written :=
        trim_eq opens shuts
      obtain ⟨tokens, spelled, operand⟩ := exists_operand_path isFirst areOthers unreserved 254
      have tree : Expr.parse (String.ofList (path first others).written) = .ok (path first others).tree :=
        Expr.parse_of_spelled opens shuts spelled (.one (conditional_of_operand operand))
      have bare := Marks.read_of_dark compiler.blocks.openers (List.any_eq_false.2 (by simpa using dark))
        (path_not_mem_words alone) fun slash =>
          not_mem_path isFirst areOthers (show isNameChar '/' = false by decide) (by decide)
            (List.mem_of_head? slash)
      refine ⟨by rw [source, trimmed], ?_, by rwa [source], by rwa [source], ?_⟩
      · intro empty
        rw [empty] at source
        exact some source.symm
      · refine Expression.parse_eq_ok_iff.2 ⟨(path first others).written, ?_, ?_⟩
        · rw [source, trimmed, bare, ← source, String.ofList_toList]
          rfl
        · rw [Expression.pathTree, if_neg (by simpa using some), tree]
          rfl

/-- Between the quotes of an attribute no character needs a reference. -/
theorem Proper.encode_quoted (proper : value.Proper) : Entity.encode true value.quoted = value.quoted :=
  Entity.encode_of_plain (proper.not_mem_quoted (by decide) (by decide) (by decide))
    (proper.not_mem_quoted (by decide) (by decide) (by decide))
    fun _ => proper.not_mem_quoted (by decide) (by decide) (by decide)

theorem Proper.written_toAttribute (proper : value.Proper) :
    value.toAttribute.written = .quoted '"' value.quoted := by
  have same := proper.encode_quoted
  cases value with
  | text data => exact congrArg _ same
  | path first others =>
      have source : (Expression.ofExpr (Passed.path first others).tree).marks.source.toList =
          (Passed.path first others).written := text_path first others
      rw [toAttribute, Attribute.written, Fragment.written, source]
      exact congrArg _ same

theorem Proper.writesValue (proper : value.Proper) : compiler.WritesValue value.toAttribute := by
  cases proper with
  | text plain => exact .text (plain '{' (by decide))
  | path isFirst areOthers unreserved alone =>
      have spells : compiler.Spells (.ofExpr (Passed.path _ _).tree) :=
        spells_path (.path isFirst areOthers unreserved alone)
      exact .dynamic spells ⟨rfl, rfl⟩ (by simp [Expression.ofExpr, tree])

end Passed

/-- Without dashes there is nothing to join. -/
theorem camelCase_of_not_mem {text : List Char} (noDash : '-' ∉ text) : camelCase text = text := by
  fun_induction camelCase text with
  | case1 | case2 => rfl
  | case3 c next rest joins =>
      simp only [Bool.and_eq_true, decide_eq_true_eq] at joins
      exact absurd (joins.1 ▸ List.mem_cons_self) noDash
  | case4 c next rest _ ih => rw [ih fun later => noDash (List.mem_cons_of_mem c later)]

theorem IsIdentifier.properName {name : String} (identifier : IsIdentifier name) :
    StartTag.ProperName name.toList := by
  refine ⟨?_, fun c member => ?_⟩
  · obtain ⟨first, others, same, _⟩ := identifier
    simp [same]
  · by_contra ends
    refine identifier.not_mem ?_ member
    simp only [StartTag.isAttributeNameChar, Bool.not_eq_true', Bool.or_eq_true, beq_iff_eq,
      Bool.not_eq_false] at ends
    rcases ends with ((blank | rfl) | rfl) | rfl
    · exact Token.isNameChar_of_isBlank blank
    all_goals decide

namespace Reference

variable {entries : Entries}

/-- The attributes of an element that passes the values. -/
def attributes (entries : Entries) : Dict Attribute :=
  ⟨entries.map fun entry => (entry.1, entry.2.toAttribute)⟩

theorem keys_attributes (entries : Entries) : (attributes entries).keys = entries.map (·.1) := by
  simp [attributes, Dict.keys]

/-- An attribute that comes before the others is taken away again. -/
theorem erase_attributes {key : String} (absent : key ∉ entries.map (·.1)) (value : Passed) :
    (attributes ((key, value) :: entries)).erase key = attributes entries := by
  have others : ∀ entry ∈ (attributes entries).entries, (entry.1 != key) = true := by
    refine List.forall_mem_map.2 fun entry member => ?_
    rw [bne_iff_ne]
    rintro rfl
    exact absent (List.mem_map_of_mem member)
  exact congrArg Dict.mk ((List.filter_cons_of_neg (by simp)).trans (List.filter_eq_self.2 others))

theorem Proper.writesAttributes (proper : Proper entries) {compiler : Compiler} :
    compiler.WritesAttributes (attributes entries) where
  distinct := by
    rw [keys_attributes]
    exact proper.distinct
  named := List.forall_mem_map.2 fun entry member => (proper.named entry member).properName
  valued := List.forall_mem_map.2 fun entry member => (proper.valued entry member).writesValue

/-- The source of an element is what is written for its two tags. -/
theorem Proper.element_eq (proper : Proper entries) (tag : String) :
    element tag entries =
      String.ofList ((Visit.start tag (attributes entries)).written ++ (Visit.finish tag).written) := by
  have same : (Visit.entries (attributes entries)).flatMap (·.written) =
      entries.flatMap attributeText := by
    rw [Visit.entries, attributes, List.map_map, List.flatMap_map]
    refine List.flatMap_congr fun entry member => ?_
    simp only [Function.comp, StartTag.WrittenAttribute.written,
      (proper.valued entry member).written_toAttribute, StartTag.WrittenValue.written, attributeText]
  simp [element, Visit.written, Markup.writtenStart, Markup.writtenEnd, Markup.closing, same]

/-- Identifiers stay as they are when names are put in camel case. -/
theorem Proper.ofAttributes (proper : Proper entries) :
    Bag.ofAttributes (attributes entries) = bag entries := by
  have kept : ∀ bag : Bag, ∀ entry ∈ entries,
      bag.insert (String.ofList (camelCase entry.1.toList)) (.ofAttribute entry.2.toAttribute) =
        bag.insert entry.1 (.ofAttribute entry.2.toAttribute) := by
    intro bag entry member
    have noDash : '-' ∉ entry.1.toList := (proper.named entry member).not_mem (by decide)
    rw [camelCase_of_not_mem noDash, String.ofList_toList]
  calc
    Bag.ofAttributes (attributes entries)
        = entries.foldl (fun bag entry => bag.insert (String.ofList (camelCase entry.1.toList))
            (.ofAttribute entry.2.toAttribute)) .empty := List.foldl_map
    _ = entries.foldl (fun bag entry => bag.insert entry.1 (.ofAttribute entry.2.toAttribute)) .empty :=
        List.foldl_ext _ _ _ kept
    _ = bag entries := Dict.foldl_insert_map _ proper.distinct

end Reference

namespace Compiler

variable {compiler : Compiler} {context : ViewContext}

/-- An empty element compiles to what it stands for when it closes. -/
theorem compileMarkup_element {tag : String} {attributes : Dict Attribute} {node : Node}
    (tagged : Markup.ProperTag tag.toList) (lower : Markup.lowercase tag.toList = tag.toList)
    (notRaw : Markup.isRawText tag = false) (isOpen : Markup.isVoid tag = false)
    (writes : compiler.WritesAttributes attributes)
    (closed : compiler.closed context ⟨tag, attributes, [], false⟩ = .ok node) :
    compiler.compileMarkup context (String.ofList
        ((Visit.start tag attributes).written ++ (Visit.finish tag).written)) = .ok [node] := by
  let ending := String.ofList (Markup.writtenEnd tag.toList)
  have named : String.ofList (Markup.lowercase tag.toList) = tag := by rw [lower, String.ofList_toList]
  have events : Markup.events (String.ofList
      ((Visit.start tag attributes).written ++ (Visit.finish tag).written)) =
      [.startTag (String.ofList (Visit.start tag attributes).written) tag
        ((Visit.entries attributes).map (·.read)), .endTag ending tag] := by
    have noText : Markup.textEvents [] = [] := rfl
    rw [Markup.events, String.toList_ofList, Visit.written, Visit.written,
      ← List.append_nil (Markup.writtenEnd _),
      Markup.eventsFrom_writtenStart tagged writes.proper (by rwa [named]),
      Markup.eventsFrom_writtenEnd tagged, Markup.eventsFrom_nil, named]
    simp [noText, ending]
  have pieces : compiler.markupPieces context (String.ofList
      ((Visit.start tag attributes).written ++ (Visit.finish tag).written)) =
      .ok [.start tag attributes, .finish ending tag] := by
    rw [markupPieces, events]
    simp only [gather, eventPieces, writes.attributes, isOpen]
    rfl
  have opened : compiler.addPiece context .root (.start tag attributes) =
      .ok ⟨[], [[.element ⟨tag, attributes, [], false⟩]]⟩ := addPiece_start isOpen
  have finished : compiler.addPiece context ⟨[], [[.element ⟨tag, attributes, [], false⟩]]⟩
      (.finish ending tag) = .ok ⟨[node], []⟩ :=
    closeElement_eq_ok_iff.2 ⟨_, [], [], node, rfl, rfl, closed, rfl⟩
  rw [compileMarkup_eq pieces, addPieces_cons_of_ok opened, addPieces_cons_of_ok finished]
  rfl

end Compiler

namespace Reference

variable {entries : Entries} {compiler : Compiler} {context : ViewContext} {view : View}

/-- An empty element passes its attributes only. -/
theorem Proper.ofViewElement (proper : Proper entries) (tag : String) (view : View) :
    Node.ofViewElement view ⟨tag, attributes entries, [], false⟩ = .ok (.view view (bag entries)) := by
  simp [Node.ofViewElement, claimContent, proper.ofAttributes, Bag.addContent, bind, Except.bind, pure,
    Except.pure]

/-- An element of its own compiles to a reference to its view, -/
theorem Proper.compileMarkup_element (proper : Proper entries) {tag : String}
    (elementViews : compiler.elementViews = true) (tagged : IsTagName tag)
    (isOpen : Markup.isVoid tag = false) (other : tag ∉ ["view", "script", "style"])
    (known : context.lookup.element? tag = some view) :
    compiler.compileMarkup context (element tag entries) = .ok [.view view (bag entries)] := by
  have plain := Compiler.PlainName.of_isTagName tagged other
  rw [proper.element_eq]
  refine Compiler.compileMarkup_element plain.proper plain.lower plain.notRaw isOpen
    proper.writesAttributes ?_
  simp only [Compiler.closed, plain.notView, elementViews, known, if_false, if_true]
  exact proper.ofViewElement tag view

/-- and so does an element that names the view. -/
theorem Proper.compileMarkup_viewElement (proper : Proper entries) {name : String}
    (unnamed : "name" ∉ entries.map (·.1)) (filled : name ≠ "") (plain : IsPlainText name)
    (known : context.lookup.find? name context.home = some view) :
    compiler.compileMarkup context (viewElement name entries) = .ok [.view view (bag entries)] := by
  have whole : Proper (("name", .text name) :: entries) := by
    have identifier : IsIdentifier "name" := by decide
    exact ⟨List.nodup_cons.2 ⟨unnamed, proper.distinct⟩,
      List.forall_mem_cons.2 ⟨identifier, proper.named⟩,
      List.forall_mem_cons.2 ⟨.text plain, proper.valued⟩⟩
  rw [viewElement, whole.element_eq]
  refine Compiler.compileMarkup_element ?_ rfl (by decide) (by decide) whole.writesAttributes ?_
  · exact ⟨by decide, List.all_eq_true.1 (by decide)⟩
  have found : (attributes (("name", .text name) :: entries)).find? "name" =
      some (.literal (.string name)) := rfl
  simp only [Compiler.closed, if_true, ViewContext.viewElement, found, erase_attributes unnamed, ViewContext.findView,
    known, String.isEmpty_iff, filled, if_false]
  exact proper.ofViewElement "view" view

end Reference

end Stencil
