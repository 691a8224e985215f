import Mathlib
import Stencil.Markup.Entity

/-! Writing text with character references, which decoding takes back. -/

set_option autoImplicit false

namespace Stencil.Entity

/-- A character in markup; inside quotes the quote is referred to as well. -/
def escape (quoted : Bool) (c : Char) : List Char :=
  if c = '&' then ['&', 'a', 'm', 'p', ';']
  else if c = '<' then ['&', 'l', 't', ';']
  else if quoted && c = '"' then ['&', 'q', 'u', 'o', 't', ';']
  else [c]

def encode (quoted : Bool) (text : List Char) : List Char :=
  text.flatMap (escape quoted)

@[simp] theorem encode_nil (quoted : Bool) : encode quoted [] = [] := rfl

@[simp] theorem encode_cons (quoted : Bool) (c : Char) (rest : List Char) :
    encode quoted (c :: rest) = escape quoted c ++ encode quoted rest := rfl

@[simp] theorem encode_append (quoted : Bool) (first second : List Char) :
    encode quoted (first ++ second) = encode quoted first ++ encode quoted second :=
  List.flatMap_append

theorem decode_nil : decode [] = [] := by
  rw [decode]

theorem decode_cons_of_ne {c : Char} (plain : c ≠ '&') (rest : List Char) :
    decode (c :: rest) = c :: decode rest := by
  rw [decode, if_pos plain]

theorem decode_reference {text after : List Char} {c : Char} (found : read? text = some (c, after)) :
    decode ('&' :: text) = c :: decode after := by
  rw [decode, if_neg (by simp)]
  split
  · rename_i named rest same
    cases found.symm.trans same
    rfl
  · rename_i absent
    cases found.symm.trans absent

/-- A reference ends at the first character that cannot stand in one. -/
theorem read?_eq {name : List Char} (letters : ∀ c ∈ name, isReferenceChar c = true) (rest : List Char) :
    read? (name ++ ';' :: rest) = (charOf? name).map (·, rest) := by
  have stop : isReferenceChar ';' = false := rfl
  simp only [read?, List.dropWhile_append_of_pos letters, List.takeWhile_append_of_pos letters,
    List.dropWhile_cons_of_neg (Bool.eq_false_iff.1 stop),
    List.takeWhile_cons_of_neg (Bool.eq_false_iff.1 stop), List.append_nil]

theorem read?_append {name rest : List Char} {c : Char} (letters : name.all isReferenceChar = true)
    (known : charOf? name = some c) : read? (name ++ ';' :: rest) = some (c, rest) := by
  rw [read?_eq (List.all_eq_true.1 letters), known, Option.map_some]

theorem decode_escape_append (quoted : Bool) (c : Char) (rest : List Char) :
    decode (escape quoted c ++ rest) = c :: decode rest := by
  have known (name : List Char) {d : Char} (letters : name.all isReferenceChar = true)
      (named : charOf? name = some d) : decode ('&' :: (name ++ ';' :: rest)) = d :: decode rest :=
    decode_reference (read?_append letters named)
  -- Three characters are written as references; any other stands for itself.
  unfold escape
  by_cases ampersand : c = '&'
  · subst ampersand
    exact known ['a', 'm', 'p'] rfl (by cbv)
  rw [if_neg ampersand]
  by_cases bracket : c = '<'
  · subst bracket
    exact known ['l', 't'] rfl (by cbv)
  rw [if_neg bracket]
  by_cases quote : (quoted && c = '"') = true
  · obtain ⟨-, rfl⟩ := (by simpa using quote : quoted = true ∧ c = '"')
    rw [if_pos quote]
    exact known ['q', 'u', 'o', 't'] rfl (by cbv)
  rw [if_neg quote]
  exact decode_cons_of_ne ampersand rest

/-- Decoding takes encoding back, whatever follows. -/
theorem decode_encode_append (quoted : Bool) (text rest : List Char) :
    decode (encode quoted text ++ rest) = text ++ decode rest := by
  induction text with
  | nil => rfl
  | cons c text ih =>
      rw [encode_cons, List.append_assoc, decode_escape_append, ih]
      rfl

theorem decode_encode (quoted : Bool) (text : List Char) : decode (encode quoted text) = text := by
  have whole := decode_encode_append quoted text []
  rwa [List.append_nil, decode_nil, List.append_nil] at whole

/-- The characters that an encoded text hides: the bracket, and the quote inside
quotes. -/
theorem not_mem_encode {quoted : Bool} {mark : Char}
    (hidden : mark = '<' ∨ quoted = true ∧ mark = '"') (text : List Char) :
    mark ∉ encode quoted text := by
  intro member
  obtain ⟨c, -, inside⟩ := List.mem_flatMap.1 member
  unfold escape at inside
  -- No reference has a hidden mark in it, and no mark that stands for itself is hidden.
  rcases hidden with rfl | ⟨rfl, rfl⟩
  all_goals
    split at inside
    · exact absurd inside (by decide)
    split at inside
    · exact absurd inside (by decide)
    split at inside
    · exact absurd inside (by decide)
    · obtain rfl := List.mem_singleton.1 inside
      simp_all

theorem encode_eq_nil_iff {quoted : Bool} {text : List Char} : encode quoted text = [] ↔ text = [] := by
  constructor
  · intro empty
    rw [← decode_encode quoted text, empty, decode_nil]
  · rintro rfl
    rfl

/-- Text that needs no references is written as it is. -/
theorem encode_of_plain {text : List Char} (ampersand : '&' ∉ text) (bracket : '<' ∉ text) {quoted : Bool}
    (quote : quoted = true → '"' ∉ text) : encode quoted text = text := by
  induction text with
  | nil => rfl
  | cons c text ih =>
      obtain ⟨noAmpersand, ampersand⟩ := List.ne_and_not_mem_of_not_mem_cons ampersand
      obtain ⟨noBracket, bracket⟩ := List.ne_and_not_mem_of_not_mem_cons bracket
      have here : escape quoted c = [c] := by
        have noQuote : ¬ (quoted && decide (c = '"')) = true := by
          intro marked
          obtain ⟨inside, rfl⟩ := (by simpa using marked : quoted = true ∧ c = '"')
          exact quote inside List.mem_cons_self
        rw [escape, if_neg noAmpersand.symm, if_neg noBracket.symm, if_neg noQuote]
      rw [encode_cons, here, ih ampersand bracket fun inside member =>
        quote inside (List.mem_cons_of_mem c member)]
      rfl

end Stencil.Entity

namespace Stencil

theorem unescapeEntities_encode (quoted : Bool) (text : List Char) :
    unescapeEntities (String.ofList (Entity.encode quoted text)) = String.ofList text := by
  rw [unescapeEntities, String.toList_ofList, Entity.decode_encode]

end Stencil
