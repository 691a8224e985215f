import Stencil.Proofs.Events.StartTags
import Stencil.Proofs.Rendering.Reading

/-! Compiling a rendered template gives the template back.

The walk of a template that can be rendered is legible step by step, and no two
texts meet in it; and the pieces of its steps derive the template.
-/

set_option autoImplicit false

namespace Stencil

open Node (walkAll walkBranches walkOtherwise)

theorem isTagNameChar_of_isLower {c : Char}
    (kind : c.isLower = true ∨ c.isDigit = true ∨ c = '-') :
    StartTag.isTagNameChar c = true ∧ c.toLower = c := by
  refine ⟨Markup.isTagNameChar_of_isAlphanum ?_, Char.toLower_eq_of_not_isUpper ?_⟩
  · simp only [Char.isAlphanum, Char.isAlpha, Bool.or_eq_true]
    tauto
  · rcases kind with lower | digit | rfl
    · exact Char.not_isUpper_of_isLower lower
    · intro upper
      simp only [Char.isDigit, Char.isUpper, Bool.and_eq_true, decide_eq_true_eq] at digit upper
      exact absurd (UInt32.le_trans upper.1 digit.2) (by decide)
    · decide

namespace Compiler

theorem PlainName.of_isVoid {name : String} (isVoid : Markup.isVoid name = true) : PlainName name := by
  have member : name ∈ Markup.voidElements := by simpa [Markup.isVoid] using isVoid
  have all : (Markup.voidElements.all fun name => !name.toList.isEmpty &&
      name.toList.all StartTag.isTagNameChar && Markup.lowercase name.toList == name.toList &&
        !Markup.isRawText name && name != "view") = true := by
    decide +kernel
  have here := List.all_eq_true.1 all name member
  simp only [Bool.and_eq_true, Bool.not_eq_true', List.isEmpty_eq_false_iff, List.all_eq_true,
    beq_iff_eq, bne_iff_ne] at here
  obtain ⟨⟨⟨⟨filled, letters⟩, lower⟩, notRaw⟩, notView⟩ := here
  exact ⟨⟨filled, letters⟩, lower, notRaw, notView⟩

theorem PlainName.of_isTagName {name : String} (tagged : IsTagName name)
    (other : name ∉ ["view", "script", "style"]) : PlainName name := by
  obtain ⟨first, others, same, lower, letters⟩ := tagged
  have all : ∀ c ∈ name.toList, c.isLower = true ∨ c.isDigit = true ∨ c = '-' := by
    rw [same]
    exact List.forall_mem_cons.2 ⟨Or.inl lower, letters⟩
  have kinds := fun c member => isTagNameChar_of_isLower (all c member)
  simp only [List.mem_cons, List.not_mem_nil, or_false, not_or] at other
  refine ⟨⟨by simp [same], fun c member => (kinds c member).1⟩, ?_, ?_, other.1⟩
  · exact (List.map_congr_left fun c member => (kinds c member).2).trans (List.map_id _)
  · simp [Markup.isRawText, Markup.rawTextElements, other.2]

end Compiler

namespace Visit

def isText : Visit → Bool
  | .text _ => true
  | _ => false

theorem beside_of_not_isText {visit : Visit} (plain : visit.isText = false) (other : Option Fragment) :
    Fragment.Beside visit.fragment? other := by
  cases visit with
  | text => cases plain
  | start | finish | comment | expression | otherwise | ending =>
      rcases other with _ | ⟨_ | _⟩ <;> trivial

theorem beside_isText_left {visit : Visit} (plain : visit.isText = false) (other : Option Fragment) :
    Fragment.Beside other visit.fragment? := by
  cases visit with
  | text => cases plain
  | start | finish | comment | expression | otherwise | ending =>
      rcases other with _ | ⟨_ | _⟩ <;> trivial

end Visit

/-- The steps do not begin with a text. -/
def Fresh (visits : List Visit) : Prop :=
  ∀ visit ∈ visits.head?, visit.isText = false

theorem fresh_nil : Fresh [] :=
  fun _ absent => by cases absent

theorem fresh_of_not_isText {visit : Visit} (plain : visit.isText = false) (rest : List Visit) :
    Fresh (visit :: rest) := by
  rintro other same
  cases same
  exact plain

theorem Fresh.append {front back : List Visit} (first : Fresh front) (second : Fresh back) :
    Fresh (front ++ back) := by
  cases front with
  | nil => exact second
  | cons visit rest => exact first

/-- Steps that are read back when they are written one after another. -/
structure Compiler.LegibleAll (compiler : Compiler) (visits : List Visit) : Prop where
  each : ∀ visit ∈ visits, compiler.Legible visit
  apart : (visits.map Visit.fragment?).IsChain Fragment.Beside

namespace Compiler.LegibleAll

variable {compiler : Compiler} {visit : Visit} {front rest : List Visit}

theorem nil : compiler.LegibleAll [] :=
  ⟨by simp, by simp⟩

theorem cons (here : compiler.Legible visit) (plain : visit.isText = false)
    (later : compiler.LegibleAll rest) : compiler.LegibleAll (visit :: rest) := by
  refine ⟨List.forall_mem_cons.2 ⟨here, later.each⟩, ?_⟩
  rw [List.map_cons, List.isChain_cons]
  exact ⟨fun other _ => Visit.beside_of_not_isText plain other, later.apart⟩

theorem cons_text {data : String} (here : compiler.Legible (.text data)) (fresh : Fresh rest)
    (later : compiler.LegibleAll rest) : compiler.LegibleAll (.text data :: rest) := by
  refine ⟨List.forall_mem_cons.2 ⟨here, later.each⟩, ?_⟩
  rw [List.map_cons, List.isChain_cons]
  refine ⟨fun other among => ?_, later.apart⟩
  rw [List.head?_map] at among
  obtain ⟨next, head, rfl⟩ := Option.map_eq_some_iff.1 among
  exact Visit.beside_isText_left (fresh next head) _

theorem append (earlier : compiler.LegibleAll front) (fresh : Fresh rest)
    (later : compiler.LegibleAll rest) : compiler.LegibleAll (front ++ rest) := by
  refine ⟨List.forall_mem_append.2 ⟨earlier.each, later.each⟩, ?_⟩
  rw [List.map_append, List.isChain_append]
  refine ⟨earlier.apart, later.apart, fun last _ other among => ?_⟩
  rw [List.head?_map] at among
  obtain ⟨next, head, rfl⟩ := Option.map_eq_some_iff.1 among
  exact Visit.beside_isText_left (fresh next head) last

/-- A block, with all of its parts after the first in one. -/
theorem block {opener : Expression} {inside more : List Visit}
    (here : compiler.Legible (.expression opener)) (body : compiler.LegibleAll inside)
    (fresh : Fresh more) (parts : compiler.LegibleAll more) (later : compiler.LegibleAll rest) :
    compiler.LegibleAll (.expression opener :: (inside ++ (more ++ .ending opener :: rest))) := by
  have ended : Fresh (.ending opener :: rest) := fresh_of_not_isText rfl rest
  apply cons here rfl
  apply body.append (fresh.append ended)
  exact parts.append ended (.cons .ending rfl later)

end Compiler.LegibleAll

section

variable {compiler : Compiler}

theorem Compiler.Writes.fresh {nodes : List Node}
    (noText : ∀ data after, nodes ≠ .text data :: after) (writes : compiler.Writes nodes) :
    Fresh (walkAll nodes) := by
  cases writes with
  | nil => exact fresh_nil
  | text => exact absurd rfl (noText _ _)
  | value | void | element | conditional | each | block =>
      rintro visit same
      cases same
      rfl

theorem fresh_walkBranches (guards : List Expression) (contents : List (List Node)) :
    Fresh (walkBranches guards contents) := by
  cases guards with
  | nil => simpa only [walkBranches] using fresh_nil
  | cons =>
      cases contents with
      | nil => exact fresh_nil
      | cons => exact fresh_of_not_isText rfl _

theorem fresh_walkOtherwise (otherwise : Option (List Node)) : Fresh (walkOtherwise otherwise) := by
  cases otherwise with
  | none => exact fresh_nil
  | some content => exact fresh_of_not_isText rfl _

/-- An expression that opens or continues a block is written as it is. -/
theorem Compiler.Spells.legible {expression : Expression} (spells : compiler.Spells expression)
    {keyword : Keyword} (keyed : expression.marks.keyword = some keyword) :
    compiler.Legible (.expression expression) :=
  .expression spells (Expression.isView_of_parse spells.parsed keyed)

-- Only texts could run together, and no text comes first in what follows a text.
mutual
theorem Compiler.Writes.legible {nodes : List Node} :
    compiler.Writes nodes → compiler.LegibleAll (walkAll nodes)
  | .nil => .nil
  | .text filled noOpen noText rest => .cons_text (.text filled noOpen) (rest.fresh noText) rest.legible
  | .value spells isValue rest => .cons (.expression spells isValue.2) rfl rest.legible
  | .void isVoid writes rest => .cons (.start (.of_isVoid isVoid) writes) rfl rest.legible
  | .element isOpen tagged other writes inside rest => by
      have named := PlainName.of_isTagName tagged other
      simp only [walkAll, Node.walk, Bool.false_eq_true, if_false, List.cons_append, List.nil_append,
        List.append_assoc]
      refine .cons (.start named writes) rfl (inside.legible.append (fresh_of_not_isText rfl _) ?_)
      exact .cons (.finish named isOpen) rfl rest.legible
  | .conditional spells opens inside more rest => by
      obtain ⟨keyword, keyed, -⟩ := opens
      simp only [walkAll, Branches.ofList, Node.walk, List.map_cons, walkBranches, List.head?_cons,
        Option.map_some, Option.toList_some, List.cons_append, List.nil_append, List.append_assoc]
      exact .block (spells.legible keyed) inside.legible (fresh_walkBranches _ _) more.legible
        rest.legible
  | .each spells opens inside more rest => by
      obtain ⟨keyword, keyed, -⟩ := opens
      simp only [walkAll, Node.walk, List.cons_append, List.nil_append, List.append_assoc]
      exact .block (spells.legible keyed) inside.legible (fresh_walkOtherwise _) more.legible
        rest.legible
  | .block spells opens inside rest => by
      obtain ⟨keyword, keyed, -⟩ := opens
      simp only [walkAll, Node.walk, List.cons_append, List.nil_append, List.append_assoc]
      exact .block (spells.legible keyed) inside.legible fresh_nil .nil rest.legible

theorem Compiler.WritesBranches.legible {branches : List Branch} :
    compiler.WritesBranches branches →
      compiler.LegibleAll (walkBranches (branches.map (·.guard)) (branches.map (·.content)))
  | .nil => .nil
  | .cons spells continues inside more => by
      obtain ⟨keyword, keyed, -⟩ := continues.keyword
      exact .cons (spells.legible keyed) rfl
        (inside.legible.append (fresh_walkBranches _ _) more.legible)

theorem Compiler.WritesElse.legible {otherwise : Option (List Node)} :
    compiler.WritesElse otherwise → compiler.LegibleAll (walkOtherwise otherwise)
  | .none => .nil
  | .some inside => .cons .otherwise rfl inside.legible
end

-- The endings of a rendering name no keyword, so they close whatever is open.
mutual
theorem Compiler.Writes.derives {nodes : List Node} :
    compiler.Writes nodes → Derives compiler.blocks ((walkAll nodes).map Visit.piece) nodes
  | .nil => .nil
  | .text _ _ _ rest => .text rest.derives
  | .value _ isValue rest => .value isValue rest.derives
  | .void isVoid _ rest => .void isVoid rest.derives
  | .element isOpen _ _ _ inside rest => by
      simp only [walkAll, Node.walk, Bool.false_eq_true, if_false, List.map_append, List.map_cons,
        List.cons_append, List.append_assoc]
      exact .element isOpen inside.derives rest.derives
  | .conditional _ opens inside more rest => by
      have derived := Derives.conditional opens (Expression.bareEnd_closes _) inside.derives more.derives
        rest.derives
      simpa [walkAll, Branches.ofList, Node.walk, walkBranches, Visit.piece] using derived
  | .each _ opens inside more rest => by
      have derived := Derives.each opens (Expression.bareEnd_closes _) inside.derives more.derives
        rest.derives
      simpa [walkAll, Node.walk, Visit.piece] using derived
  | .block _ opens inside rest => by
      have derived := Derives.block opens (Expression.bareEnd_closes _) inside.derives rest.derives
      simpa [walkAll, Node.walk, Visit.piece] using derived

theorem Compiler.WritesBranches.derives {branches : List Branch} : compiler.WritesBranches branches →
    DerivesBranches compiler.blocks
      ((walkBranches (branches.map (·.guard)) (branches.map (·.content))).map Visit.piece) branches
  | .nil => .nil
  | .cons _ continues inside more => by
      have derived := DerivesBranches.cons continues inside.derives more.derives
      simpa [walkBranches, Visit.piece] using derived

theorem Compiler.WritesElse.derives {otherwise : Option (List Node)} : compiler.WritesElse otherwise →
    DerivesElse compiler.blocks ((walkOtherwise otherwise).map Visit.piece) otherwise
  | .none => .none
  | .some inside => .some ⟨rfl, rfl⟩ inside.derives
end

variable {context : ViewContext}

theorem Compiler.Legible.plain (noViews : ∀ tag, context.lookup.element? tag = none) {visit : Visit}
    (legible : compiler.Legible visit) : compiler.Plain context visit.piece := by
  cases legible with
  | start named => exact keeps_of_element?_eq_none named.notView (noViews _)
  | expression _ noView => exact noView
  | finish | text => trivial
  | otherwise | ending => rfl

/-- Compiling undoes rendering. -/
theorem Compiler.compileMarkup_render (compiler : Compiler) {nodes : List Node}
    (noViews : ∀ tag, context.lookup.element? tag = none) (writes : compiler.Writes nodes) :
    compiler.compileMarkup context (render nodes) = .ok nodes := by
  obtain ⟨each, apart⟩ := writes.legible
  have plain : ∀ piece ∈ (walkAll nodes).map Visit.piece, compiler.Plain context piece := by
    intro piece member
    obtain ⟨visit, visited, rfl⟩ := List.mem_map.1 member
    exact (each visit visited).plain noViews
  rw [render, compileMarkup_eq (markupPieces_written each apart), addPieces_finish_eq_ok_iff plain]
  exact writes.derives

end

/-- An element with every kind of attribute, around a loop with an else part. -/
def renderedNodes : List Node :=
  [.element ⟨"p", ⟨[("title", .dynamic .valueA), ("alt", .literal (.string "x<y")),
      ("hidden", .literal (.bool true))]⟩,
    [.text "a & b", .each .eachA [.dynamic .valueA, .element ⟨"br", .empty, [], true⟩]
      (some [.text "none"])], false⟩]

set_option maxRecDepth 20000 in
theorem Expression.valueA_spells : Compiler.standard.Spells .valueA where
  trimmed := by cbv
  filled := by decide
  noOpen := by decide
  noClose := by decide
  parsed := by cbv

set_option maxRecDepth 20000 in
theorem Expression.eachA_spells : Compiler.standard.Spells .eachA where
  trimmed := by cbv
  filled := by decide
  noOpen := by decide
  noClose := by decide
  parsed := by cbv

theorem renderedNodes_writes : Compiler.standard.Writes renderedNodes := by
  have value : Expression.valueA.IsValue := ⟨rfl, rfl⟩
  have noAttributes : Compiler.standard.WritesAttributes .empty :=
    ⟨by decide, by simp [Dict.empty], by simp [Dict.empty]⟩
  have isName (name : String) (letters : name.toList.all StartTag.isAttributeNameChar = true)
      (filled : name ≠ "") : StartTag.ProperName name.toList :=
    ⟨by simpa using filled, List.all_eq_true.1 letters⟩
  refine .element (by decide) ⟨'p', [], rfl, rfl, by simp⟩ (by decide) ?_ ?_ .nil
  · refine ⟨by decide, ?_, ?_⟩
    · simp only [List.forall_mem_cons]
      exact ⟨isName _ (by decide) (by decide), isName _ (by decide) (by decide),
        isName _ (by decide) (by decide), by simp⟩
    · simp only [List.forall_mem_cons]
      exact ⟨.dynamic Expression.valueA_spells value (by simp [Expression.valueA, Expr.ofName]),
        .text (by decide), .absent, by simp⟩
  · refine .text (by decide) (by decide) (by simp) (.each Expression.eachA_spells Expression.eachA_opens ?_ ?_ .nil)
    · exact .value Expression.valueA_spells value (.void (by decide) noAttributes .nil)
    · exact .some (.text (by decide) (by decide) (by simp) .nil)

theorem Compiler.compileMarkup_render_loop :
    (∀ tag, ViewContext.detached.lookup.element? tag = none) ∧ Compiler.standard.Writes renderedNodes ∧
      Compiler.standard.compileMarkup .detached (render renderedNodes) = .ok renderedNodes :=
  ⟨fun _ => rfl, renderedNodes_writes,
    Compiler.compileMarkup_render .standard (fun _ => rfl) renderedNodes_writes⟩

end Stencil
