import Stencil.Embed.Expansion
import Stencil.Proofs.Alike.Compile
import Stencil.Proofs.Piece
import Stencil.Proofs.Registry

/-! Compiling a template alone, as against compiling it with the views around it.

Alone, every name stands for an empty view. That makes no difference to a template whose
references all resolve, as long as the views around it declare nothing.
-/

set_option autoImplicit false

namespace Stencil

open List (Forall₂)

/-- The view declares nothing besides its name and source. -/
def View.IsPlain (view : View) : Prop :=
  view = .ofSource view.name view.source {}

namespace Registry

/-- The registry gives the view for some name or some tag. -/
def Holds (registry : Registry) (view : View) : Prop :=
  (∃ name, registry.names.find? name = some view) ∨ ∃ tag, registry.elements.find? tag = some view

theorem exists_call_of_holds {calls : List Registration} {view : View}
    (held : (ofCalls calls).Holds view) : ∃ call ∈ calls, call.view = view := by
  rcases held with ⟨name, found⟩ | ⟨tag, found⟩
  · rw [find?_names_ofCalls] at found
    obtain ⟨call, last, made⟩ := Option.map_eq_some_iff.1 found
    exact ⟨call, List.mem_reverse.1 (List.mem_of_find?_eq_some last), made⟩
  · rw [find?_elements_ofCalls] at found
    obtain ⟨call, last, made⟩ := Option.map_eq_some_iff.1 found
    exact ⟨call, List.mem_reverse.1 (List.mem_of_find?_eq_some last), made⟩

theorem isPlain_of_holds {calls : List Registration} (defaults : ∀ call ∈ calls, call.options = {})
    {view : View} (held : (ofCalls calls).Holds view) : view.IsPlain := by
  obtain ⟨call, member, rfl⟩ := exists_call_of_holds held
  simp only [View.IsPlain, Registration.view, defaults call member]
  rfl

/-- A tag stands for a view that has an element. -/
theorem element?_eq_none {calls : List Registration}
    (plain : ∀ view, (ofCalls calls).Holds view → view.IsPlain) (tag : String) :
    (ofCalls calls).elements.find? tag = none := by
  rw [Option.eq_none_iff_forall_ne_some]
  intro view found
  have same := plain view (Or.inr ⟨tag, found⟩)
  rw [find?_elements_ofCalls] at found
  obtain ⟨call, last, rfl⟩ := Option.map_eq_some_iff.1 found
  have binds := List.find?_some last
  rw [same] at binds
  exact absurd binds (by simp [View.tag?, View.ofSource])

theorem exists_name_of_find? {registry : Registry} {name : String} {home : Option String} {view : View}
    (found : registry.find? name home = some view) : ∃ full, registry.names.find? full = some view := by
  obtain ⟨full, -, there⟩ := List.exists_of_findSome?_eq_some found
  exact ⟨full, there⟩

end Registry

theorem View.compile_lockstep (compiler : Compiler) {first second : ViewLookup} (view : View)
    (covered : ViewContext.CoveredBy ⟨first, view.home?⟩ ⟨second, view.home?⟩) :
    Lockstep (Forall₂ Node.Alike) (view.compile compiler first) (view.compile compiler second) := by
  unfold View.compile
  refine Lockstep.within ?_ _
  split
  · exact compiler.compileString_lockstep covered view.source
  · exact compiler.compileMarkup_lockstep covered view.source

namespace Embed

open Registry (ofCalls)

theorem coveredBy_unchecked {calls : List Registration}
    (plain : ∀ view, (ofCalls calls).Holds view → view.IsPlain) (home : Option String) :
    ViewContext.CoveredBy ⟨(ofCalls calls).lookup, home⟩ ⟨unchecked, home⟩ where
  views := by
    intro name view found
    have same := plain view (Or.inl (Registry.exists_name_of_find? found))
    exact ⟨.ofSource name "" {}, rfl, by rw [same]; exact ⟨rfl, rfl⟩⟩
  elements := by
    intro tag
    change Option.Rel _ ((ofCalls calls).elements.find? tag) none
    rw [Registry.element?_eq_none plain tag]
    exact .none

/-- A template whose references all resolve among views that declare nothing compiles
with them exactly if it compiles alone, and otherwise fails in the same way. -/
theorem validate_agrees (calls : List Registration)
    (plain : ∀ view, (ofCalls calls).Holds view → view.IsPlain) (name source : String) :
    (∃ failure, (View.ofSource name source {}).compile .standard (ofCalls calls).lookup = .error failure ∧
      failure.IsUnknownView) ∨
    ((∃ template, (View.ofSource name source {}).compile .standard (ofCalls calls).lookup = .ok template) ∧
      validate name source = .ok ()) ∨
    ∃ failure, (View.ofSource name source {}).compile .standard (ofCalls calls).lookup = .error failure ∧
      validate name source = .error failure := by
  have together := View.compile_lockstep .standard (.ofSource name source {})
    (coveredBy_unchecked plain (View.ofSource name source {}).home?)
  unfold validate
  generalize (View.ofSource name source {}).compile .standard (ofCalls calls).lookup = around,
    (View.ofSource name source {}).compile .standard unchecked = alone at together ⊢
  cases together with
  | unknown missing => exact Or.inl ⟨_, rfl, missing⟩
  | failed => exact Or.inr (Or.inr ⟨_, rfl, rfl⟩)
  | done => exact Or.inr (Or.inl ⟨⟨_, rfl⟩, rfl⟩)

/-- One view, for a page to refer to. -/
def cardCalls : List Registration :=
  [⟨"card", "<p>{{@title}}</p>", {}⟩]

/-- A page that shows the card: {{view 'card', {title: t}}}. -/
def cardPage : String :=
  "\x7b\x7bview 'card', \x7btitle: t\x7d\x7d\x7d"

def cardReference : Expression :=
  ⟨.sequence [.literal (.string "card"), .operator Operator.object [.literal (.string "title"), .ofName "t"]],
    { Marks.plain "view 'card', {title: t}" with isView := true }⟩

set_option maxRecDepth 20000 in
theorem markupPieces_cardPage (context : ViewContext) :
    Compiler.standard.markupPieces context cardPage = .ok [.expression cardReference] := by
  have events : Markup.events cardPage = [.text cardPage] := by cbv
  have split : Fragment.split (unescapeEntities cardPage) =
      ⟨[.delimited "view 'card', {title: t}"], none⟩ := by
    cbv
  have marked : "view 'card', {title: t}".toList.all Text.isBlank = false := by cbv
  have parsed : Compiler.standard.expression "view 'card', {title: t}" = .ok cardReference := by cbv
  simp only [Compiler.markupPieces, events, gather, Compiler.eventPieces, Compiler.textPieces, split,
    Compiler.fragmentPieces_delimited marked parsed]
  rfl

theorem validate_agrees_card :
    (∀ view, (ofCalls cardCalls).Holds view → view.IsPlain) ∧ validate "page" cardPage = .ok () := by
  have plain : ∀ view, (ofCalls cardCalls).Holds view → view.IsPlain := by
    intro view
    exact Registry.isPlain_of_holds fun call member => by rw [List.mem_singleton.1 member]
  have compiled : (View.ofSource "page" cardPage {}).compile .standard (ofCalls cardCalls).lookup =
      .ok [.view (.ofSource "card" "<p>{{@title}}</p>" {})
        ⟨[("title", .ofExpression ⟨.ofName "t", .plain "t"⟩)]⟩] := by
    have home : (View.ofSource "page" cardPage {}).home? = none := by cbv
    rw [View.compile, home]
    simp only [View.ofSource, Bool.false_eq_true, if_false,
      Compiler.compileMarkup_eq (markupPieces_cardPage _)]
    cbv
  refine ⟨plain, ?_⟩
  rcases validate_agrees cardCalls plain "page" cardPage with ⟨_, failed, -⟩ | ⟨-, valid⟩ | ⟨_, failed, -⟩
  · exact absurd (compiled.symm.trans failed) (by simp)
  · exact valid
  · exact absurd (compiled.symm.trans failed) (by simp)

end Embed

end Stencil
