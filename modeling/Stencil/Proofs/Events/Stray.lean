import Stencil.Proofs.Events
import Stencil.Proofs.Fragment
import Stencil.Template.Compile

/-! Brackets at which no tag begins.

A name or a mark has to follow a bracket at once, so before a blank, an equals sign or a
closing bracket it is text like any other character.
-/

set_option autoImplicit false

namespace Stencil

namespace Markup

open StartTag (isTagNameChar)

/-- No opening bracket in the text has the beginning of a tag after it. -/
def Stray (text : List Char) : Prop :=
  ∀ before after, text = before ++ '<' :: after →
    ∀ c ∈ after.head?, Text.isBlank c = true ∨ c = '=' ∨ c = '>'

theorem stray_nil : Stray [] := by
  rintro before after split
  cases before <;> cases split

theorem stray_cons_iff {c : Char} {text : List Char} : Stray (c :: text) ↔
    (c = '<' → ∀ d ∈ text.head?, Text.isBlank d = true ∨ d = '=' ∨ d = '>') ∧ Stray text := by
  constructor
  · intro stray
    refine ⟨fun bracket => stray [] text (by rw [bracket]; rfl), fun before after split => ?_⟩
    exact stray (c :: before) after (by rw [split, List.cons_append])
  · rintro ⟨here, later⟩ before after split
    cases before with
    | nil =>
        obtain ⟨bracket, rfl⟩ := List.cons.inj split
        exact here bracket
    | cons d before => exact later before after (List.cons.inj split).2

/-- No construct of markup begins with such a bracket. -/
theorem readTag?_stray {text : List Char}
    (stray : ∀ c ∈ text.head?, Text.isBlank c = true ∨ c = '=' ∨ c = '>') :
    readTag? ('<' :: text) = none := by
  cases text with
  | nil => rfl
  | cons c text =>
      have kind := stray c rfl
      have noLetter : isTagNameChar c = false := by
        rcases kind with blank | rfl | rfl
        · simp [isTagNameChar, blank]
        · rfl
        · rfl
      have apart {mark : Char} (dark : Text.isBlank mark = false) (other : mark ≠ '=' ∧ mark ≠ '>') :
          c ≠ mark := by
        rintro rfl
        rcases kind with blank | same | same
        · cases blank.symm.trans dark
        · exact other.1 same
        · exact other.2 same
      have noStart : readStartTag? ('<' :: c :: text) = none := by
        simp [readStartTag?, noLetter]
      have noOther : readOther? ('<' :: c :: text) = none := by
        simp [readOther?, apart (by decide : Text.isBlank '!' = false) (by decide),
          apart (by decide : Text.isBlank '?' = false) (by decide)]
      rw [readTag?_eq (apart rfl (by decide)) (apart rfl (by decide)), noStart, noOther]
      rfl

theorem eventsFrom_stray {text : List Char} (stray : Stray text) (before : List Char) :
    eventsFrom before text = textEvents (before.reverse ++ text) := by
  induction text generalizing before with
  | nil => rw [eventsFrom_nil, List.append_nil]
  | cons c text ih =>
      obtain ⟨here, later⟩ := stray_cons_iff.1 stray
      have kept : eventsFrom before (c :: text) = eventsFrom (c :: before) text := by
        by_cases bracket : c = '<'
        · subst bracket
          exact eventsFrom_bracket (readTag?_stray (here rfl)) before
        · rw [eventsFrom, if_pos bracket]
      rw [kept, ih later, List.reverse_cons, List.append_assoc, List.singleton_append]

theorem events_stray {source : String} (stray : Stray source.toList) :
    events source = if source = "" then [] else [.text source] := by
  rw [events, eventsFrom_stray stray, textEvents, List.reverse_nil, List.nil_append, String.ofList_toList]
  simp

end Markup

namespace Compiler

open Markup (Stray events)

theorem addText_empty (compiler : Compiler) (context : ViewContext) (scope : Scope) :
    compiler.addText context scope "" = .ok scope := by
  have nothing : Fragment.split "" = .nil := by
    rw [Fragment.split, Fragment.splitFrom_unopened _ rfl]
    rfl
  rw [addText, nothing]
  rfl

/-- A source whose brackets are all stray is a single text, so that markup in it and text without
markup are the same. -/
theorem compileMarkup_stray {source : String} (stray : Stray source.toList) :
    events source = (if source = "" then [] else [.text source]) ∧
      ∀ (compiler : Compiler) (context : ViewContext),
        compiler.compileMarkup context source =
          compiler.compileString context (unescapeEntities source) := by
  have single := Markup.events_stray stray
  refine ⟨single, fun compiler context => ?_⟩
  rw [compileMarkup, compileString, Markup.feed, single]
  split
  · rename_i empty
    have same : unescapeEntities source = "" := by
      rw [empty, unescapeEntities, show "".toList = [] from rfl, Entity.decode]
    rw [same, addText_empty]
    rfl
  · rw [List.foldlM_cons]
    simp only [List.foldlM_nil, bind_pure, addEvent]

theorem compileMarkup_stray_comparison :
    events "{{if a <= b}}&lt;{{/if}}<" = [.text "{{if a <= b}}&lt;{{/if}}<"] ∧
      standard.compileMarkup .detached "{{if a <= b}}&lt;{{/if}}<" =
        standard.compileString .detached "{{if a <= b}}<{{/if}}<" := by
  have stray : Stray "{{if a <= b}}&lt;{{/if}}<".toList := by simp [Markup.stray_cons_iff, Markup.stray_nil]
  obtain ⟨single, same⟩ := compileMarkup_stray stray
  have decoded : unescapeEntities "{{if a <= b}}&lt;{{/if}}<" = "{{if a <= b}}<{{/if}}<" := by cbv
  exact ⟨single, decoded ▸ same standard .detached⟩

end Compiler

end Stencil
