/-! Beginnings of a text, and the first place where a mark stands in it. -/

set_option autoImplicit false

namespace Stencil.Text

section

variable {α : Type} [DecidableEq α]

/-- What follows a beginning, if the list begins so. -/
def strip? : List α → List α → Option (List α)
  | [], text => some text
  | _ :: _, [] => none
  | m :: mark, c :: rest => if m = c then strip? mark rest else none

theorem strip?_eq_some_iff {mark text after : List α} :
    strip? mark text = some after ↔ mark ++ after = text := by
  induction mark generalizing text with
  | nil => simp [strip?, eq_comm]
  | cons m mark ih =>
      cases text with
      | nil => simp [strip?]
      | cons c rest =>
          simp only [strip?, List.cons_append, List.cons.injEq]
          split
          · simp_all
          · simp_all

@[simp] theorem strip?_append (mark after : List α) : strip? mark (mark ++ after) = some after :=
  strip?_eq_some_iff.2 rfl

end

/-- The text before the first mark, and what follows the mark. -/
def split? (mark : List Char) : List Char → Option (List Char × List Char)
  | [] => (strip? mark []).map ([], ·)
  | c :: rest =>
      match strip? mark (c :: rest) with
      | some after => some ([], after)
      | none => (split? mark rest).map fun (before, after) => (c :: before, after)

theorem split?_append {mark text before after : List Char}
    (found : split? mark text = some (before, after)) : before ++ mark ++ after = text := by
  induction text generalizing before with
  | nil =>
      obtain ⟨rest, stripped, same⟩ := Option.map_eq_some_iff.1 found
      obtain ⟨rfl, rfl⟩ := Prod.mk.inj same
      exact strip?_eq_some_iff.1 stripped
  | cons c rest ih =>
      simp only [split?] at found
      split at found
      · rename_i tail stripped
        obtain ⟨rfl, rfl⟩ := Prod.mk.inj (Option.some.inj found)
        exact strip?_eq_some_iff.1 stripped
      · obtain ⟨⟨inner, tail⟩, inside, same⟩ := Option.map_eq_some_iff.1 found
        obtain ⟨rfl, rfl⟩ := Prod.mk.inj same
        exact congrArg (c :: ·) (ih inside)

end Stencil.Text
