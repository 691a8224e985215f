import Stencil.Proofs.Reference.Element
import Stencil.Proofs.Reference.Expression

/-! The ways to refer to a view agree.

Each of them compiles to one node: the view, with the values under their names in the
order in which they are written.
-/

set_option autoImplicit false

namespace Stencil

/-- A view that can be referred to by a name and by a tag. -/
structure ViewContext.Knows (context : ViewContext) (name tag : String) (view : View) : Prop where
  filled : name ≠ ""
  plain : IsPlainText name
  named : context.lookup.find? name context.home = some view
  tagged : IsTagName tag
  isOpen : Markup.isVoid tag = false
  other : tag ∉ ["view", "script", "style"]
  byTag : context.lookup.element? tag = some view

/-- A `view` element, an element of its own and an expression refer to a view in the
same way: they pass the same values under the same names, in the same order. -/
theorem Compiler.compileMarkup_reference {compiler : Compiler} {context : ViewContext} {name tag : String}
    {view : View} {entries : Reference.Entries} (elementViews : compiler.elementViews = true)
    (leaves : compiler.blocks.LeavesView) (knows : context.Knows name tag view)
    (proper : Reference.Proper entries) (unnamed : "name" ∉ entries.map (·.1)) :
    compiler.compileMarkup context (Reference.viewElement name entries) =
        .ok [.view view (Reference.bag entries)] ∧
      compiler.compileMarkup context (Reference.element tag entries) =
        .ok [.view view (Reference.bag entries)] ∧
      compiler.compileMarkup context (Reference.expression name entries) =
        .ok [.view view (Reference.bag entries)] :=
  ⟨proper.compileMarkup_viewElement unnamed knows.filled knows.plain knows.named,
    proper.compileMarkup_element elementViews knows.tagged knows.isOpen knows.other knows.byTag,
    proper.compileMarkup_expression leaves knows.plain knows.named⟩

namespace Reference

def card : View :=
  ⟨"shop:card", "", false, [], [], some "shop-card"⟩

/-- The view is known within its namespace only, and by its tag everywhere. -/
def cardContext : ViewContext :=
  ⟨⟨fun name home => if name = "card" ∧ home = some "shop" then some card else none,
    fun tag => if tag = "shop-card" then some card else none⟩, some "shop"⟩

/-- A text, a path and a name. -/
def cardEntries : Entries :=
  [("title", .text "On sale!"), ("owner", .path "user" ["name"]), ("$id", .path "card_1" [])]

example : viewElement "card" cardEntries =
      "<view name=\"card\" title=\"On sale!\" owner=\"\x7b\x7buser.name\x7d\x7d\" " ++
        "$id=\"\x7b\x7bcard_1\x7d\x7d\"></view>" ∧
    expression "card" cardEntries =
      "\x7b\x7bview \"card\", \x7btitle: \"On sale!\", owner: user.name, $id: card_1\x7d\x7d\x7d" := by
  decide

end Reference

open Reference (card cardContext cardEntries) in
theorem Compiler.compileMarkup_reference_card :
    BlockMap.builtins.LeavesView ∧ cardContext.Knows "card" "shop-card" card ∧
      Reference.Proper cardEntries ∧ "name" ∉ cardEntries.map (·.1) ∧
      Compiler.standard.compileMarkup cardContext (Reference.viewElement "card" cardEntries) =
        .ok [.view card (Reference.bag cardEntries)] ∧
      Compiler.standard.compileMarkup cardContext (Reference.element "shop-card" cardEntries) =
        .ok [.view card (Reference.bag cardEntries)] ∧
      Compiler.standard.compileMarkup cardContext (Reference.expression "card" cardEntries) =
        .ok [.view card (Reference.bag cardEntries)] := by
  have leaves : BlockMap.builtins.LeavesView := by decide
  have knows : cardContext.Knows "card" "shop-card" card := by
    refine ⟨by decide, by decide, rfl, ⟨'s', "hop-card".toList, by decide, rfl, ?_⟩,
      by decide, by decide, rfl⟩
    simp
  have proper : Reference.Proper cardEntries := by
    refine ⟨by decide, by decide, ?_⟩
    simp only [cardEntries, List.forall_mem_cons]
    exact ⟨.text (by decide), .path (by decide) (by decide) (by decide) (by decide),
      .path (by decide) (by decide) (by decide) (by decide), by simp⟩
  have unnamed : "name" ∉ cardEntries.map (·.1) := by decide
  exact ⟨leaves, knows, proper, unnamed, Compiler.compileMarkup_reference rfl leaves knows proper unnamed⟩

end Stencil
