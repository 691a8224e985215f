import Stencil.Embed.Name
import Stencil.Proofs.Token.Identifier

/-! Names of functions.

Collapsing leaves letters, digits and underscores of ASCII, and snake case no capitals among
them, so what is made of a name of any characters can name a function and stays as it is.
-/

set_option autoImplicit false

namespace Stencil.Embed

/-- A lower case letter, a digit or an underscore. -/
def isFunctionChar (c : Char) : Bool :=
  c.isLower || c.isDigit || c == '_'

/-- The form of the names that are made for functions. -/
structure IsFunctionName (name : String) : Prop where
  filled : name ≠ ""
  chars : ∀ c ∈ name.toList, isFunctionChar c = true
  start : ∀ c ∈ name.toList.head?, c.isDigit = false

theorem isIdentChar_of_isFunctionChar {c : Char} (char : isFunctionChar c = true) :
    isIdentChar c = true := by
  simp only [isFunctionChar, isIdentChar, Char.isAlphanum, Char.isAlpha, Bool.or_eq_true] at char ⊢
  tauto

theorem toNat_lt_of_isIdentChar {c : Char} (char : isIdentChar c = true) : c.toNat < 0x80 := by
  rcases Bool.or_eq_true_iff.1 char with kind | line
  · exact toNat_lt_of_isAlphanum kind
  · rw [beq_iff_eq.1 line]
    decide

theorem isUpper_of_isFunctionChar {c : Char} (char : isFunctionChar c = true) : c.isUpper = false := by
  simp only [isFunctionChar, Bool.or_eq_true, beq_iff_eq] at char
  rcases char with (lower | digit) | rfl
  · simpa using Char.not_isUpper_of_isLower lower
  · have digits : c.toNat ≤ 57 := (Char.isDigit_iff_toNat.1 digit).2
    have capitals : c.isUpper = true → 65 ≤ c.toNat := by
      simp only [Char.isUpper, decide_eq_true_eq, ge_iff_le, UInt32.le_iff_toNat_le]
      exact And.left
    rw [← Bool.not_eq_true]
    exact fun capital => absurd (capitals capital) (by omega)
  · rfl

/-! Collapsing -/

theorem isIdentChar_of_mem_collapse {inRun : Bool} {text : List Char} :
    ∀ c ∈ collapse inRun text, isIdentChar c = true := by
  induction text generalizing inRun with
  | nil => exact nofun
  | cons c rest ih =>
      rw [collapse]
      split
      · rename_i kept
        exact List.forall_mem_cons.2 ⟨kept, ih⟩
      split
      · exact ih
      · exact List.forall_mem_cons.2 ⟨rfl, ih⟩

theorem collapse_ne_nil {text : List Char} (filled : text ≠ []) : collapse false text ≠ [] := by
  cases text with
  | nil => exact absurd rfl filled
  | cons c rest =>
      rw [collapse]
      split <;> simp

theorem collapse_of_isIdentChar {text : List Char} (chars : ∀ c ∈ text, isIdentChar c = true)
    (inRun : Bool) : collapse inRun text = text := by
  induction text generalizing inRun with
  | nil => rfl
  | cons c rest ih =>
      obtain ⟨kept, chars⟩ := List.forall_mem_cons.1 chars
      rw [collapse, if_pos kept, ih chars]

/-! Snake case -/

/-- A capital among the characters that are kept changes into its letter in lower case. -/
theorem lowercase_of_isIdentChar {c : Char} (char : isIdentChar c = true) :
    Text.isUppercase c = c.isUpper ∧ Text.lowercase c = [c.toLower] := by
  have ascii := toNat_lt_of_isIdentChar char
  simp [Text.isUppercase, Text.lowercase, ascii]

theorem isFunctionChar_toLower {c : Char} (capital : c.isUpper = true) :
    isFunctionChar c.toLower = true := by
  have letter : c.isAlpha = true := by simp [Char.isAlpha, capital]
  simp [isFunctionChar, Char.isLower_toLower_eq_isAlpha, letter]

theorem isFunctionChar_of_not_isUpper {c : Char} (char : isIdentChar c = true)
    (small : c.isUpper = false) : isFunctionChar c = true := by
  simpa [isIdentChar, isFunctionChar, Char.isAlphanum, Char.isAlpha, small] using char

theorem isFunctionChar_of_mem_snakeCaseFrom {first : Bool} {text : List Char}
    (chars : ∀ c ∈ text, isIdentChar c = true) :
    ∀ c ∈ snakeCaseFrom first text, isFunctionChar c = true := by
  induction text generalizing first with
  | nil => exact nofun
  | cons c rest ih =>
      obtain ⟨char, chars⟩ := List.forall_mem_cons.1 chars
      obtain ⟨upper, lower⟩ := lowercase_of_isIdentChar char
      rw [snakeCaseFrom, upper, lower]
      cases capital : c.isUpper with
      | false =>
          exact List.forall_mem_cons.2 ⟨isFunctionChar_of_not_isUpper char capital, ih chars⟩
      | true =>
          have later : ∀ d ∈ c.toLower :: snakeCaseFrom false rest, isFunctionChar d = true :=
            List.forall_mem_cons.2 ⟨isFunctionChar_toLower capital, ih chars⟩
          cases first with
          | true => exact later
          | false => exact List.forall_mem_cons.2 ⟨rfl, later⟩

theorem snakeCaseFrom_ne_nil {first : Bool} {c : Char} {rest : List Char} (char : isIdentChar c = true) :
    snakeCaseFrom first (c :: rest) ≠ [] := by
  rw [snakeCaseFrom, (lowercase_of_isIdentChar char).2]
  split <;> simp

theorem snakeCaseFrom_of_isFunctionChar {text : List Char}
    (chars : ∀ c ∈ text, isFunctionChar c = true) (first : Bool) : snakeCaseFrom first text = text := by
  induction text generalizing first with
  | nil => rfl
  | cons c rest ih =>
      obtain ⟨char, chars⟩ := List.forall_mem_cons.1 chars
      have small : Text.isUppercase c = false := by
        rw [(lowercase_of_isIdentChar (isIdentChar_of_isFunctionChar char)).1]
        exact isUpper_of_isFunctionChar char
      simp [snakeCaseFrom, small, ih chars]

/-! Names -/

/-- Before a digit an underscore comes first. -/
theorem functionText_spec {view : String} (filled : view ≠ "") :
    ∃ c rest, functionText view = c :: rest ∧ c.isDigit = false ∧
      ∀ d ∈ c :: rest, isFunctionChar d = true := by
  have some : collapse false view.toList ≠ [] := collapse_ne_nil (by simpa using filled)
  have kept := @isIdentChar_of_mem_collapse false view.toList
  obtain ⟨first, more, same⟩ := List.exists_cons_of_ne_nil some
  rw [functionText, snakeCase]
  rw [same] at kept ⊢
  have chars := @isFunctionChar_of_mem_snakeCaseFrom true _ kept
  have left := @snakeCaseFrom_ne_nil true first more (kept first List.mem_cons_self)
  obtain ⟨c, rest, cased⟩ := List.exists_cons_of_ne_nil left
  rw [cased] at chars ⊢
  cases digit : c.isDigit with
  | true => exact ⟨'_', c :: rest, by simp [digit], rfl, List.forall_mem_cons.2 ⟨rfl, chars⟩⟩
  | false => exact ⟨c, rest, by simp [digit], digit, chars⟩

/-- A name of that form is its own. -/
theorem functionName?_eq_self {name : String} (proper : IsFunctionName name) :
    functionName? name = some name := by
  have idents : ∀ c ∈ name.toList, isIdentChar c = true := fun c member =>
    isIdentChar_of_isFunctionChar (proper.chars c member)
  have kept : snakeCase (collapse false name.toList) = name.toList := by
    rw [collapse_of_isIdentChar idents]
    exact snakeCaseFrom_of_isFunctionChar proper.chars true
  obtain ⟨c, rest, same⟩ := List.exists_cons_of_ne_nil (by simpa using proper.filled : name.toList ≠ [])
  have start : c.isDigit = false := proper.start c (by rw [same]; rfl)
  have text : functionText name = name.toList := by
    rw [functionText, kept, same]
    simp [start]
  have ident : isIdent name.toList = true := by
    rw [same] at idents ⊢
    rw [isIdent, start]
    exact List.all_eq_true.2 idents
  simp [functionName?, text, ident]

/-- A view with any name has a function. The name of the function has its form, and is the
name of the function for a view of that name. -/
theorem functionName?_stable {view : String} (filled : view ≠ "") :
    ∃ name, functionName? view = some name ∧ IsFunctionName name ∧ functionName? name = some name := by
  obtain ⟨c, rest, text, start, chars⟩ := functionText_spec filled
  have proper : IsFunctionName (String.ofList (c :: rest)) :=
    ⟨by simp, by simpa using chars, by simpa using start⟩
  have ident : isIdent (c :: rest) = true := by
    rw [isIdent, start]
    exact List.all_eq_true.2 fun d member => isIdentChar_of_isFunctionChar (chars d member)
  refine ⟨String.ofList (c :: rest), ?_, proper, functionName?_eq_self proper⟩
  simp [functionName?, text, ident]

/-- A digit comes first, a run of three characters collapses, and capitals follow. -/
theorem functionName?_stable_digit : "4\u00e4 \u00dfHomePage" ≠ "" ∧
    functionName? "4\u00e4 \u00dfHomePage" = some "_4__home_page" ∧ IsFunctionName "_4__home_page" ∧
    functionName? "_4__home_page" = some "_4__home_page" := by
  have filled : "4\u00e4 \u00dfHomePage" ≠ "" := by decide
  have made : functionName? "4\u00e4 \u00dfHomePage" = some "_4__home_page" := by cbv
  obtain ⟨name, found, proper, stable⟩ := functionName?_stable filled
  cases made.symm.trans found
  exact ⟨filled, made, proper, stable⟩

end Stencil.Embed
