import Mathlib.Tactic.IntervalCases
import Stencil.Proofs.Token.Numeral

/-! Words: the names and numerals that name a key of an object or a segment of a path.

A token that is read from a text is well formed: its name is one, or it is a numeral.
-/

set_option autoImplicit false

namespace Stencil.Token

def isName : List Char → Bool
  | [] => false
  | c :: rest => isNameStart c && rest.all isNameChar

/-- A numeral is what the reader of numbers takes whole. -/
def isNumeral : List Char → Bool
  | [] => false
  | c :: rest => c.isDigit && (readNumber (c :: rest)).2.isEmpty

def isWord (text : List Char) : Bool :=
  isName text || isNumeral text

/-- The name after a sigil may begin with any character of names. -/
def IsSigilName (text : List Char) : Prop :=
  text ≠ [] ∧ ∀ c ∈ text, isNameChar c = true

theorem ne_of_isNameStart {c d : Char} (start : isNameStart c = true) (other : isNameStart d = false) :
    c ≠ d := by
  rintro rfl
  exact absurd (start.symm.trans other) (by simp)

theorem isNameStart_of_isDigit {c : Char} (digit : c.isDigit = true) : isNameStart c = false := by
  simp only [Char.isDigit, Bool.and_eq_true, decide_eq_true_eq] at digit
  obtain ⟨low, high⟩ := digit
  have low : 48 ≤ c.toNat := low
  have high : c.toNat ≤ 57 := high
  rw [← Char.ofNat_toNat c]
  interval_cases c.toNat <;> decide

theorem isDigit_of_isNameStart {c : Char} (start : isNameStart c = true) : c.isDigit = false := by
  rw [Bool.eq_false_iff]
  exact fun digit => absurd (start.symm.trans (isNameStart_of_isDigit digit)) (by simp)

theorem isNameChar_of_isDigit {c : Char} (digit : c.isDigit = true) : isNameChar c = true := by
  have ascii : c.toNat < 0x80 := by
    simp only [Char.isDigit, Bool.and_eq_true, decide_eq_true_eq] at digit
    have high : c.toNat ≤ 57 := digit.2
    omega
  simp [isNameChar, Text.isAlphanumeric, Text.isNumeric, ascii, digit]

theorem isNameChar_of_isBlank {c : Char} (blank : Text.isBlank c = true) : isNameChar c = false := by
  rw [← Char.ofNat_toNat c]
  simp only [Text.isBlank, Bool.or_eq_true, Bool.and_eq_true, decide_eq_true_eq, beq_iff_eq] at blank
  generalize c.toNat = code at blank ⊢
  have blanks : (9 ≤ code ∧ code ≤ 13 ∨ 8192 ≤ code ∧ code ≤ 8202) ∨
      code ∈ [32, 133, 160, 5760, 8232, 8233, 8239, 8287, 12288] := by
    simp only [List.mem_cons, List.not_mem_nil, or_false]
    omega
  clear blank
  rcases blanks with (⟨low, high⟩ | ⟨low, high⟩) | single
  · interval_cases code <;> decide
  · interval_cases code <;> decide +kernel
  · revert code
    decide +kernel

theorem isBlank_of_isNameChar {c : Char} (proper : isNameChar c = true) : Text.isBlank c = false := by
  rw [Bool.eq_false_iff]
  exact fun blank => absurd (proper.symm.trans (isNameChar_of_isBlank blank)) (by simp)

theorem isNumeral_iff {text : List Char} : isNumeral text = true ↔ ∃ numeral : Numeral, text = numeral.text := by
  constructor
  · intro whole
    cases text with
    | nil => cases whole
    | cons c rest =>
        simp only [isNumeral, Bool.and_eq_true, List.isEmpty_iff] at whole
        obtain ⟨digit, ended⟩ := whole
        obtain ⟨numeral, same⟩ := exists_numeral digit rest
        have all := readNumber_append (c :: rest)
        rw [ended, List.append_nil] at all
        exact ⟨numeral, all.symm.trans same⟩
  · rintro ⟨numeral, rfl⟩
    have read := readNumber_append_of_ends (endsNumeral_nil numeral)
    rw [List.append_nil] at read
    obtain ⟨c, rest, same, digit⟩ := numeral.exists_cons
    rw [same] at read ⊢
    simp [isNumeral, digit, read]

theorem exists_cons_of_isWord {text : List Char} (word : isWord text = true) :
    ∃ c rest, text = c :: rest ∧ isNameChar c = true := by
  rcases Bool.or_eq_true_iff.1 word with named | isNumeral
  · cases text with
    | nil => cases named
    | cons c rest => exact ⟨c, rest, rfl, isNameChar_of_isNameStart (Bool.and_eq_true_iff.1 named).1⟩
  · obtain ⟨numeral, rfl⟩ := isNumeral_iff.1 isNumeral
    obtain ⟨c, rest, same, digit⟩ := numeral.exists_cons
    exact ⟨c, rest, same, isNameChar_of_isDigit digit⟩

/-- The texts of tokens are well formed; a string may hold anything. -/
def Valid : Token → Prop
  | .identifier name => isName name.toList = true
  | .aliasName name | .attributeName name => IsSigilName name.toList
  | .number text => isNumeral text.toList = true
  | .string _ | .punct _ => True

theorem isSigilName_takeWhile {text : List Char} (some : text.takeWhile isNameChar ≠ []) :
    IsSigilName (text.takeWhile isNameChar) :=
  ⟨some, List.all_eq_true.1 List.all_takeWhile⟩

theorem valid_of_readSigil {make : String → Token} {sigil : Char} {text after : List Char}
    {token : Token} (found : readSigil make sigil text = .ok (token, after))
    (named : ∀ name : String, IsSigilName name.toList → (make name).Valid) : token.Valid := by
  obtain ⟨filled, rfl, -⟩ := of_readSigil found
  refine named _ ?_
  rw [String.toList_ofList]
  exact isSigilName_takeWhile filled

theorem valid_of_read {first : Char} {rest after : List Char} {token : Token}
    (found : read first rest = .ok (token, after)) : token.Valid := by
  cases lexed_of_read found with
  | aliasName _ named | attributeName _ named => exact valid_of_readSigil named fun _ named => named
  | string | punct => trivial
  | number digit run =>
      obtain ⟨numeral, same⟩ := exists_numeral digit rest
      rw [run] at same
      rw [Valid, String.toList_ofList]
      exact isNumeral_iff.2 ⟨numeral, same⟩
  | identifier start run =>
      subst run
      simp only [Valid, String.toList_ofList, List.takeWhile_cons_of_pos (isNameChar_of_isNameStart start),
        isName, start, Bool.true_and]
      exact List.all_takeWhile

end Stencil.Token
