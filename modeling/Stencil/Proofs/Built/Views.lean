import Stencil.Proofs.Built.Compile
import Stencil.Proofs.Events

/-! Elements that stand for views.

Such an element gives way to a reference when it closes. Whatever moves its content or
its attributes elsewhere moves nodes that are built already, so no such element is left
at any depth.
-/

set_option autoImplicit false

namespace Stencil.Compiler

variable {compiler : Compiler} {context : ViewContext}

/-- Elements stand for themselves if neither their tag nor a view of their tag makes
them a reference. -/
theorem keeps_element_iff {name : String} :
    compiler.Keeps context name ↔
      name ≠ "view" ∧ (compiler.elementViews = true → context.lookup.element? name = none) := by
  constructor
  · intro keeps
    -- Already the element without attributes and content would be a reference.
    have bare := keeps ⟨name, .empty, [], false⟩ rfl
    refine ⟨?_, fun elementViews => ?_⟩
    · rintro rfl
      cases bare
    · cases found : context.lookup.element? name with
      | none => rfl
      | some view =>
          by_cases named : name = "view"
          · subst named
            cases bare
          · simp only [closed, if_neg named, elementViews, if_true, found] at bare
            cases bare
  · rintro ⟨notView, unknown⟩ element rfl
    by_cases elementViews : compiler.elementViews = true
    · exact keeps_of_element?_eq_none notView (unknown elementViews) element rfl
    · simp only [closed, if_neg notView, if_neg elementViews]

/-- No node at any depth of a template is a `view` element, or an element that a view
is registered for. -/
theorem noViewElement_of_compileMarkup {source : String} {nodes : Template}
    (accepted : compiler.compileMarkup context source = .ok nodes) :
    ∀ element : Element, (∃ root ∈ nodes, root.Reaches (.element element)) →
      element.tag ≠ "view" ∧
        (compiler.elementViews = true → Markup.isVoid element.tag = false →
          context.lookup.element? element.tag = none) := by
  rintro element ⟨root, member, reaches⟩
  have built := (built_of_compileMarkup accepted root member).reaches reaches
  cases built with
  | element _ keeps _ _ _ =>
      cases isVoid : Markup.isVoid element.tag with
      | true =>
          refine ⟨?_, fun _ isOpen => absurd isOpen (by simp)⟩
          intro named
          rw [named] at isVoid
          exact absurd isVoid (by decide)
      | false =>
          obtain ⟨notView, unknown⟩ := keeps_element_iff.1 (keeps isVoid)
          exact ⟨notView, fun elementViews _ => unknown elementViews⟩

/-- One view, known by its name and by a tag, which collects its `tab` children. -/
def tabs : View :=
  ⟨"tabs", "", false, [], ["tab"], some "tab-set"⟩

def tabsContext : ViewContext :=
  ⟨⟨fun name _ => if name = "tabs" then some tabs else none,
    fun tag => if tag = "tab-set" then some tabs else none⟩, none⟩

/-- An element of the view around a child that it collects, with references in it. -/
def nestedSource : String :=
  "<tab-set><tab><b><view name=\"tabs\"></view></b></tab></tab-set>"

def nestedNodes : Template :=
  [.view tabs ⟨[("tab", .array [⟨[("content",
    .ofContent [.element ⟨"b", .empty, [.view tabs .empty], false⟩])]⟩])]⟩]

def nestedName : StartTag.WrittenAttribute :=
  ⟨['n', 'a', 'm', 'e'], .quoted '"' ['t', 'a', 'b', 's']⟩

theorem nestedName_proper : ∀ entry ∈ [nestedName], entry.Proper := by
  intro entry member
  obtain rfl := List.mem_singleton.1 member
  exact ⟨⟨by decide, List.all_eq_true.1 (by decide)⟩, Or.inl rfl, by decide⟩

open Markup (writtenStart writtenEnd ProperTag)

set_option maxRecDepth 20000 in
theorem events_nestedSource : Markup.events nestedSource =
    [.startTag "<tab-set>" "tab-set" [], .startTag "<tab>" "tab" [], .startTag "<b>" "b" [],
      .startTag "<view name=\"tabs\">" "view" [("name", some "tabs")], .endTag "</view>" "view",
      .endTag "</b>" "b", .endTag "</tab>" "tab", .endTag "</tab-set>" "tab-set"] := by
  have tabSet : ProperTag ['t', 'a', 'b', '-', 's', 'e', 't'] := ⟨by decide, List.all_eq_true.1 (by decide)⟩
  have tab : ProperTag ['t', 'a', 'b'] := ⟨by decide, List.all_eq_true.1 (by decide)⟩
  have bold : ProperTag ['b'] := ⟨by decide, List.all_eq_true.1 (by decide)⟩
  have view : ProperTag ['v', 'i', 'e', 'w'] := ⟨by decide, List.all_eq_true.1 (by decide)⟩
  have source : nestedSource.toList =
      writtenStart ['t', 'a', 'b', '-', 's', 'e', 't'] [] false ++ (writtenStart ['t', 'a', 'b'] [] false ++
        (writtenStart ['b'] [] false ++ (writtenStart ['v', 'i', 'e', 'w'] [nestedName] false ++
          (writtenEnd ['v', 'i', 'e', 'w'] ++ (writtenEnd ['b'] ++ (writtenEnd ['t', 'a', 'b'] ++
            (writtenEnd ['t', 'a', 'b', '-', 's', 'e', 't'] ++ []))))))) := by
    cbv
  rw [Markup.events, source, Markup.eventsFrom_writtenStart tabSet (by simp) (by decide),
    Markup.eventsFrom_writtenStart tab (by simp) (by decide),
    Markup.eventsFrom_writtenStart bold (by simp) (by decide),
    Markup.eventsFrom_writtenStart view nestedName_proper (by decide), Markup.eventsFrom_writtenEnd view,
    Markup.eventsFrom_writtenEnd bold, Markup.eventsFrom_writtenEnd tab,
    Markup.eventsFrom_writtenEnd tabSet, Markup.eventsFrom_nil]
  cbv

set_option maxRecDepth 20000 in
theorem noViewElement_nestedNodes :
    Compiler.standard.compileMarkup tabsContext nestedSource = .ok nestedNodes ∧
      ∀ element : Element, (∃ root ∈ nestedNodes, root.Reaches (.element element)) →
        element.tag ≠ "view" ∧
          (Compiler.standard.elementViews = true → Markup.isVoid element.tag = false →
            tabsContext.lookup.element? element.tag = none) := by
  have accepted : Compiler.standard.compileMarkup tabsContext nestedSource = .ok nestedNodes := by
    rw [compileMarkup, Markup.feed, events_nestedSource]
    cbv
  exact ⟨accepted, noViewElement_of_compileMarkup accepted⟩

end Stencil.Compiler
