import Mathlib
import Stencil.View.Registry

/-! Registries as calls make them.

A name stands for the view of the last call with that name, and a tag for the view of
the last call with that tag. Only the tag of a view goes on to stand for it when a later
call takes its name.
-/

set_option autoImplicit false

namespace Stencil

/-- The tag of a view's element, as a registry binds it. -/
def View.tag? (view : View) : Option String :=
  view.element.map fun tag => String.ofList (tag.toList.map Char.toLower)

/-- A call that registers a view. -/
structure Registration where
  name : String
  source : String
  options : ViewOptions

def Registration.view (call : Registration) : View :=
  .ofSource call.name call.source call.options

/-- The last of some items holds what it does, and no later one does. -/
theorem find?_reverse_eq_some_iff {α : Type} {test : α → Bool} {items : List α} {item : α} :
    items.reverse.find? test = some item ↔
      test item = true ∧ ∃ before after, items = before ++ item :: after ∧
        ∀ later ∈ after, test later = false := by
  rw [List.find?_eq_some_iff_append]
  refine and_congr_right fun _ => ?_
  constructor
  · rintro ⟨after, before, same, others⟩
    refine ⟨before.reverse, after.reverse, ?_, ?_⟩
    · simpa using congrArg List.reverse same
    · intro later member
      simpa using others later (List.mem_reverse.1 member)
  · rintro ⟨before, after, rfl, others⟩
    refine ⟨after.reverse, before.reverse, by simp, ?_⟩
    intro later member
    simp [others later (List.mem_reverse.1 member)]

namespace Registry

/-- The registry that some calls make, one after another. -/
def ofCalls (calls : List Registration) : Registry :=
  calls.foldl (fun registry call => registry.register call.name call.source call.options) .empty

theorem ofCalls_concat (calls : List Registration) (call : Registration) :
    ofCalls (calls ++ [call]) = (ofCalls calls).add call.view := by
  simp [ofCalls, register, Registration.view]

theorem find?_elements_add (registry : Registry) (view : View) (tag : String) :
    (registry.add view).elements.find? tag =
      if view.tag? = some tag then some view else registry.elements.find? tag := by
  obtain ⟨name, source, isString, attributes, arrays, element⟩ := view
  cases element with
  | none => simp [add, View.tag?]
  | some element => simp [add, View.tag?, @eq_comm _ tag]

theorem find?_names_ofCalls (calls : List Registration) (name : String) :
    (ofCalls calls).names.find? name =
      (calls.reverse.find? (·.name == name)).map Registration.view := by
  induction calls using List.reverseRecOn with
  | nil => rfl
  | append_singleton calls call ih =>
      have named : call.view.name = call.name := rfl
      rw [ofCalls_concat, List.reverse_concat, List.find?_cons]
      simp only [add, Dict.find?_insert, named, ih]
      by_cases same : call.name = name
      · simp [same]
      · simp [Ne.symm same, beq_eq_false_iff_ne.2 same]

theorem find?_elements_ofCalls (calls : List Registration) (tag : String) :
    (ofCalls calls).elements.find? tag =
      (calls.reverse.find? (·.view.tag? == some tag)).map Registration.view := by
  induction calls using List.reverseRecOn with
  | nil => rfl
  | append_singleton calls call ih =>
      rw [ofCalls_concat, List.reverse_concat, List.find?_cons, find?_elements_add, ih]
      by_cases same : call.view.tag? = some tag
      · simp [same]
      · simp [same, beq_eq_false_iff_ne.2 same]

theorem find?_none (registry : Registry) (name : String) :
    registry.find? name none = registry.names.find? name := by
  simp [find?, candidatesFrom]

/-- Every tag stands for a view that its own name stands for, exactly if no call that has
the last word on a tag is followed by one that gives its name to another view for good. -/
theorem element?_current_iff (calls : List Registration) :
    (∀ tag view, (ofCalls calls).lookup.element? tag = some view →
      (ofCalls calls).lookup.find? view.name none = some view) ↔
    ∀ before call after tag, calls = before ++ call :: after → call.view.tag? = some tag →
      (∀ later ∈ after, later.view.tag? ≠ some tag) →
      ∀ last, after.reverse.find? (·.name == call.name) = some last → last.view = call.view := by
  simp only [lookup, find?_none, find?_elements_ofCalls, find?_names_ofCalls]
  constructor
  · intro current before call after tag same binds others last found
    -- The call is the last with its tag, and the last one of its name comes after it.
    have bound : calls.reverse.find? (·.view.tag? == some tag) = some call := by
      rw [find?_reverse_eq_some_iff]
      exact ⟨by simp [binds], before, after, same, fun later member => by simpa using others later member⟩
    have named := current tag call.view (by rw [bound]; rfl)
    have lasts : calls.reverse.find? (·.name == call.name) = some last := by
      rw [same]
      simp [List.find?_append, found]
    simpa [Registration.view, View.ofSource, lasts] using named
  · intro lasting tag view found
    obtain ⟨call, bound, rfl⟩ := Option.map_eq_some_iff.1 found
    obtain ⟨binds, before, after, same, others⟩ := find?_reverse_eq_some_iff.1 bound
    have kept := lasting before call after tag same (by simpa using binds)
      (fun later member => by simpa using others later member)
    have named : call.view.name = call.name := rfl
    rw [named, same]
    cases found : after.reverse.find? (·.name == call.name) with
    | none => simp [List.find?_append, found]
    | some last => simp [List.find?_append, found, kept last found]

/-- The second call takes the name of the first one and no tag. -/
def renewedCalls : List Registration :=
  [⟨"card", "a", { element := some "x-card" }⟩, ⟨"card", "b", {}⟩]

theorem element?_renewedCalls :
    (ofCalls renewedCalls).lookup.element? "x-card" =
        some (.ofSource "card" "a" { element := some "x-card" }) ∧
      (ofCalls renewedCalls).lookup.find? "card" none = some (.ofSource "card" "b" {}) ∧
      ¬ ∀ tag view, (ofCalls renewedCalls).lookup.element? tag = some view →
        (ofCalls renewedCalls).lookup.find? view.name none = some view := by
  have older : (ofCalls renewedCalls).lookup.element? "x-card" =
      some (.ofSource "card" "a" { element := some "x-card" }) := by cbv
  have newer : (ofCalls renewedCalls).lookup.find? "card" none = some (.ofSource "card" "b" {}) := by
    cbv
  refine ⟨older, newer, fun current => ?_⟩
  have same := (current _ _ older).symm.trans newer
  exact absurd (congrArg View.source (Option.some.inj same)) (by decide)

end Registry

end Stencil
