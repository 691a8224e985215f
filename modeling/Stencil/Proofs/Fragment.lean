import Mathlib.Data.List.Chain
import Stencil.Fragment

/-! Fragments written one after another, which splitting takes apart again. -/

set_option autoImplicit false

namespace Stencil

namespace Text

variable {m : Char} {mark : List Char}

theorem split?_eq_none_of_not_mem {text : List Char} (absent : m ∉ text) :
    split? (m :: mark) text = none := by
  induction text with
  | nil => rfl
  | cons c rest ih =>
      obtain ⟨differs, later⟩ := List.ne_and_not_mem_of_not_mem_cons absent
      simp [split?, strip?, differs, ih later]

theorem split?_of_not_mem {before : List Char} (absent : m ∉ before) (after : List Char) :
    split? (m :: mark) (before ++ (m :: mark ++ after)) = some (before, after) := by
  induction before with
  | nil =>
      have stripped := strip?_append (m :: mark) after
      rw [List.cons_append] at stripped
      simp only [List.nil_append, List.cons_append, split?, stripped]
  | cons c rest ih =>
      obtain ⟨differs, later⟩ := List.ne_and_not_mem_of_not_mem_cons absent
      simp only [List.cons_append, split?, strip?, if_neg differs]
      rw [← List.cons_append, ih later]
      rfl

end Text

namespace Fragment

-- The definition keeps the equation of its match for termination, which no proof
-- can rewrite under.
theorem splitFrom_eq (whole : String) (text : List Char) : splitFrom whole text =
    match segment? whole text with
    | .error cause => .failed cause
    | .ok none => if text.isEmpty then .nil else ⟨[.literal (String.ofList text)], none⟩
    | .ok (some segment) =>
        let reading := (splitFrom whole segment.rest).cons (.delimited (String.ofList segment.content))
        if segment.before.isEmpty then reading
        else reading.cons (.literal (String.ofList segment.before)) := by
  rw [splitFrom]
  split
  all_goals
    rename_i found
    simp only [found]

theorem segment?_unopened (whole : String) {text : List Char}
    (plain : Text.split? opening text = none) : segment? whole text = .ok none := by
  rw [segment?, plain]

/-- What follows the opening decides about the delimiter. -/
theorem segment?_opened (whole : String) {text before after : List Char}
    (opened : Text.split? opening text = some (before, after)) : segment? whole text =
      match balance 2 after with
      | none => .error (.openBraces whole)
      | some (inside, rest) =>
          match content? inside with
          | none => .error (.cutCharacter whole)
          | some content => .ok (some ⟨before, content, rest⟩) := by
  have found := segment?.eq_def whole text
  rw [opened] at found
  exact found

theorem splitFrom_unopened (whole : String) {text : List Char}
    (plain : Text.split? opening text = none) :
    splitFrom whole text = if text.isEmpty then .nil else ⟨[.literal (String.ofList text)], none⟩ := by
  rw [splitFrom_eq, segment?_unopened whole plain]

theorem splitFrom_opened (whole : String) {text before after : List Char}
    (opened : Text.split? opening text = some (before, after)) : splitFrom whole text =
      match balance 2 after with
      | none => .failed (.openBraces whole)
      | some (inside, rest) =>
          match content? inside with
          | none => .failed (.cutCharacter whole)
          | some content =>
              let reading := (splitFrom whole rest).cons (.delimited (String.ofList content))
              if before.isEmpty then reading else reading.cons (.literal (String.ofList before)) := by
  rw [splitFrom_eq, segment?_opened whole opened]
  cases balance 2 after with
  | none => rfl
  | some found => cases cut : content? found.1 <;> simp only [cut]

def written : Fragment → List Char
  | .literal text => text.toList
  | .delimited content => opening ++ (content.toList ++ ['}', '}'])

/-- The braces of a content are such that it ends at the two braces after it. -/
def Encloses (content : List Char) : Prop :=
  ∀ rest, balance 2 (content ++ '}' :: '}' :: rest) = some (content ++ ['}', '}'], rest)

theorem balance_append_of_plain {text : List Char} (noOpen : '{' ∉ text) (noClose : '}' ∉ text)
    (depth : Nat) (rest : List Char) : balance (depth + 1) (text ++ rest) =
      (balance (depth + 1) rest).map fun found => (text ++ found.1, found.2) := by
  induction text with
  | nil => simp
  | cons c text ih =>
      obtain ⟨notOpen, openLater⟩ := List.ne_and_not_mem_of_not_mem_cons noOpen
      obtain ⟨notClose, closeLater⟩ := List.ne_and_not_mem_of_not_mem_cons noClose
      rw [List.cons_append, balance, if_neg notOpen.symm, if_neg notClose.symm, ih openLater closeLater,
        Option.map_map]
      rfl

/-- Text without braces stands between delimiters as it is. -/
theorem encloses_of_plain {text : List Char} (noOpen : '{' ∉ text) (noClose : '}' ∉ text) :
    Encloses text := by
  intro rest
  rw [balance_append_of_plain noOpen noClose]
  simp [balance]

/-- One group in braces may end the text. -/
theorem encloses_of_group {front inside : List Char} (noOpen : '{' ∉ front) (noClose : '}' ∉ front)
    (openNone : '{' ∉ inside) (closeNone : '}' ∉ inside) :
    Encloses (front ++ '{' :: (inside ++ ['}'])) := by
  intro rest
  have group : balance 2 ('{' :: (inside ++ '}' :: '}' :: '}' :: rest)) =
      some ('{' :: (inside ++ ['}', '}', '}']), rest) := by
    rw [balance, if_pos rfl, balance_append_of_plain openNone closeNone]
    simp [balance]
  have whole : front ++ '{' :: (inside ++ ['}']) ++ '}' :: '}' :: rest =
      front ++ '{' :: (inside ++ '}' :: '}' :: '}' :: rest) := by simp
  rw [whole, balance_append_of_plain noOpen noClose, group]
  simp

theorem content?_concat (content : List Char) (c last : Char) :
    content? (content ++ [c, last]) = if c.utf8Size = 1 then some content else none := by
  have shorter : (content ++ [c, last]).dropLast = content ++ [c] := by
    rw [List.append_cons, List.dropLast_concat]
  simp [content?, shorter]

/-- Fragments that splitting tells from what stands around them. -/
def Proper : Fragment → Prop
  | .literal text => text ≠ "" ∧ '{' ∉ text.toList
  | .delimited content => Encloses content.toList

/-- Texts side by side would be one text. -/
def Apart : Fragment → Fragment → Prop
  | .literal _, .literal _ => False
  | _, _ => True

theorem splitFrom_literal (whole : String) {text : String} (proper : Proper (.literal text)) :
    splitFrom whole text.toList = ⟨[.literal text], none⟩ := by
  have filled : text.toList.isEmpty = false := by simpa using proper.1
  rw [splitFrom_unopened whole (Text.split?_eq_none_of_not_mem proper.2)]
  simp only [filled, Bool.false_eq_true, if_false, String.ofList_toList]

theorem splitFrom_delimited (whole : String) {before : List Char} (noOpen : '{' ∉ before)
    {content : String} (encloses : Encloses content.toList) (rest : List Char) :
    splitFrom whole (before ++ (written (.delimited content) ++ rest)) =
      let reading := (splitFrom whole rest).cons (.delimited content)
      if before.isEmpty then reading else reading.cons (.literal (String.ofList before)) := by
  have found : Text.split? ['{', '{'] (before ++ (['{', '{'] ++ (content.toList ++ '}' :: '}' :: rest))) =
      some (before, content.toList ++ '}' :: '}' :: rest) :=
    Text.split?_of_not_mem noOpen _
  have opened : Text.split? opening (before ++ (written (.delimited content) ++ rest)) =
      some (before, content.toList ++ '}' :: '}' :: rest) := by
    simpa [written, opening] using found
  have ended : content? (content.toList ++ ['}', '}']) = some content.toList :=
    content?_concat content.toList '}' '}'
  rw [splitFrom_opened whole opened]
  simp only [encloses rest, ended, String.ofList_toList]

/-- Splitting takes apart what was put together. -/
theorem splitFrom_flatMap_written (whole : String) {fragments : List Fragment}
    (proper : ∀ fragment ∈ fragments, fragment.Proper) (apart : fragments.IsChain Apart) :
    splitFrom whole (fragments.flatMap written) = ⟨fragments, none⟩ := by
  induction fragments with
  | nil =>
      rw [List.flatMap_nil, splitFrom_unopened whole rfl]
      rfl
  | cons first rest ih =>
      obtain ⟨here, others⟩ := List.forall_mem_cons.1 proper
      have later := ih others apart.tail
      rw [List.flatMap_cons]
      cases first with
      | delimited content =>
          rw [← List.nil_append (written _ ++ _), splitFrom_delimited whole List.not_mem_nil here, later]
          rfl
      | literal text =>
          cases rest with
          | nil => simpa [written] using splitFrom_literal whole here
          | cons second rest =>
              -- A delimiter is found behind the literal, and the rest was split after it.
              cases second with
              | literal other => exact absurd (List.isChain_cons_cons.1 apart).1 id
              | delimited content =>
                  have filled : text.toList.isEmpty = false := by simpa using here.1
                  have between := others (.delimited content) List.mem_cons_self
                  rw [List.flatMap_cons] at later ⊢
                  rw [← List.nil_append (written (.delimited content) ++ _),
                    splitFrom_delimited whole List.not_mem_nil between] at later
                  rw [written, splitFrom_delimited whole here.2 between, filled]
                  simpa [Reading.cons] using congrArg (Reading.cons (.literal text)) later

end Fragment

end Stencil
