import Stencil.Markup.StartTag

/-! Searching the end of a start tag without looking at any place twice.

The choices between values make the plain search visit a place once for every
way that leads to it. Keeping the places from which no tag ends gives the same
answer.
-/

set_option autoImplicit false

namespace Stencil.StartTag

/-- The first place of some from which a search finds something, when the search
also keeps the lengths of the texts from which it found nothing. -/
def firstFound {α : Type} (search : α → List Nat → Option Close × List Nat) :
    List α → List Nat → Option Close × List Nat
  | [], failed => (none, failed)
  | place :: places, failed =>
      match search place failed with
      | (some close, failed) => (some close, failed)
      | (none, failed) => firstFound search places failed

/-- `close?` that looks at no place twice: it keeps the lengths of the texts
from which no tag ends. -/
def closeKeeping (text : List Char) (failed : List Nat) : Option Close × List Nat :=
  if text.length ∈ failed then (none, failed)
  else match ending? text with
    | some (selfClosing, rest) => (some ⟨text, selfClosing, rest⟩, failed)
    | none =>
        match firstFound (fun after => closeKeeping after.1) (attributeEnds text).attach failed with
        | (some close, failed) => (some close, failed)
        | (none, failed) => (none, text.length :: failed)
termination_by text.length
decreasing_by exact length_of_mem_attributeEnds after.2

theorem firstFound_map {α β : Type} (f : α → β) (search : β → List Nat → Option Close × List Nat)
    (items : List α) (failed : List Nat) :
    firstFound search (items.map f) failed = firstFound (fun item => search (f item)) items failed := by
  induction items generalizing failed with
  | nil => rfl
  | cons item items ih => simp only [List.map_cons, firstFound, ih]

theorem firstFound_attach {α : Type} (search : α → List Nat → Option Close × List Nat)
    (items : List α) (failed : List Nat) :
    firstFound (fun item : { item // item ∈ items } => search item.1) items.attach failed =
      firstFound search items failed := by
  conv => rhs; rw [← List.attach_map_subtype_val items, firstFound_map]

theorem closeKeeping_eq (text : List Char) (failed : List Nat) : closeKeeping text failed =
    if text.length ∈ failed then (none, failed)
    else match ending? text with
      | some (selfClosing, rest) => (some ⟨text, selfClosing, rest⟩, failed)
      | none =>
          match firstFound closeKeeping (attributeEnds text) failed with
          | (some close, failed) => (some close, failed)
          | (none, failed) => (none, text.length :: failed) := by
  rw [closeKeeping, firstFound_attach closeKeeping]

/-- Every text of a whole whose length is kept is one from which no tag ends. -/
def Fails (whole : List Char) (failed : List Nat) : Prop :=
  ∀ text, text <:+ whole → text.length ∈ failed → close? text = none

theorem eq_of_suffix_of_length {first second whole : List Char} (left : first <:+ whole)
    (right : second <:+ whole) (same : first.length = second.length) : first = second :=
  (List.suffix_of_suffix_length_le left right (Nat.le_of_eq same)).eq_of_length same

theorem firstFound_eq {whole : List Char} (places : List (List Char))
    (search : List Char → List Nat → Option Close × List Nat)
    (sound : ∀ place ∈ places, ∀ failed, Fails whole failed →
      (search place failed).1 = close? place ∧ Fails whole (search place failed).2)
    (failed : List Nat) (fails : Fails whole failed) :
    (firstFound search places failed).1 = places.findSome? close? ∧
      Fails whole (firstFound search places failed).2 := by
  induction places generalizing failed with
  | nil => exact ⟨rfl, fails⟩
  | cons place places ih =>
      obtain ⟨same, kept⟩ := sound place (by simp) failed fails
      simp only [firstFound, List.findSome?_cons]
      cases found : search place failed with
      | mk result left =>
          rw [found] at same kept
          cases result with
          | some close => simp only at same; rw [← same]; exact ⟨rfl, kept⟩
          | none =>
              simp only at same; rw [← same]
              exact ih (fun other member => sound other (List.mem_cons_of_mem _ member)) left kept

theorem closeKeeping_fst_eq {whole : List Char} (text : List Char) (within : text <:+ whole)
    (failed : List Nat) (fails : Fails whole failed) :
    (closeKeeping text failed).1 = close? text ∧ Fails whole (closeKeeping text failed).2 := by
  rw [closeKeeping_eq]
  split
  · rename_i kept
    exact ⟨(fails text within kept).symm, fails⟩
  rw [close?_eq]
  cases ended : ending? text with
  | some pair => exact ⟨rfl, fails⟩
  | none =>
      have searched := firstFound_eq (attributeEnds text) closeKeeping
        (fun place member => closeKeeping_fst_eq place ((attributeEnds_suffix member).trans within))
        failed fails
      cases found : firstFound closeKeeping (attributeEnds text) failed with
      | mk result left =>
          rw [found] at searched
          obtain ⟨same, kept⟩ := searched
          simp only at same ⊢
          rw [← same]
          cases result with
          | some close => exact ⟨rfl, kept⟩
          | none =>
              refine ⟨rfl, fun other suffix member => ?_⟩
              rcases List.mem_cons.1 member with equal | earlier
              · rw [eq_of_suffix_of_length suffix within equal, close?_eq, ended]
                exact same.symm
              · exact kept other suffix earlier
termination_by text.length
decreasing_by exact length_of_mem_attributeEnds member

theorem mem_of_close? {text : List Char} {close : Close} (found : close? text = some close) :
    '>' ∈ text := by
  obtain ⟨tailed, ended⟩ := close?_suffix text found
  exact tailed.subset (mem_of_ending? ended)

/-- The rest of a tag from a place between attributes. A text without a closing
angle bracket is not searched. -/
def findClose? (text : List Char) : Option Close :=
  if '>' ∈ text then (closeKeeping text []).1 else none

@[simp] theorem findClose?_eq (text : List Char) : findClose? text = close? text := by
  unfold findClose?
  split
  · exact (closeKeeping_fst_eq text (List.suffix_refl text) [] fun _ _ member => by simp at member).1
  · rename_i absent
    cases found : close? text with
    | none => rfl
    | some close => exact absurd (mem_of_close? found) absent

end Stencil.StartTag
