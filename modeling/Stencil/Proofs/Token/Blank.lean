import Stencil.Proofs.Token.Lexing

/-! Tokens before a blank.

No token but a string goes over a blank, and a string ends at its closing quote. So a text
whose tokens all read has these tokens also before a blank and anything after it.
-/

set_option autoImplicit false

namespace Stencil

namespace Text

variable {blank : Char} {more : List Char}

theorem takeWhile_append_cons {p : Char → Bool} (stop : p blank = false) (text : List Char) :
    (text ++ blank :: more).takeWhile p = text.takeWhile p := by
  induction text with
  | nil => simp [stop]
  | cons c rest ih =>
      simp only [List.cons_append, List.takeWhile_cons, ih]

theorem dropWhile_append_cons {p : Char → Bool} (stop : p blank = false) (text : List Char) :
    (text ++ blank :: more).dropWhile p = text.dropWhile p ++ blank :: more := by
  induction text with
  | nil => simp [stop]
  | cons c rest ih =>
      simp only [List.cons_append, List.dropWhile_cons, ih]
      split <;> rfl

/-- A text begins with a mark before a blank only if it does so alone. -/
theorem strip?_append_cons {mark : List Char} (dark : blank ∉ mark) (text : List Char) :
    strip? mark (text ++ blank :: more) = (strip? mark text).map (· ++ blank :: more) := by
  induction mark generalizing text with
  | nil => rfl
  | cons m mark ih =>
      obtain ⟨other, dark⟩ := not_or.1 (mt List.mem_cons.2 dark)
      cases text with
      | nil => simp [strip?, Ne.symm other]
      | cons c rest =>
          simp only [List.cons_append, strip?]
          split
          · exact ih dark rest
          · rfl

end Text

namespace Punct

theorem not_mem_symbol {blank : Char} (isBlank : Text.isBlank blank = true) (punct : Punct) :
    blank ∉ punct.symbol := by
  intro member
  have dark : punct.symbol.all (!Text.isBlank ·) = true := by cases punct <;> rfl
  simpa [isBlank] using List.all_eq_true.1 dark blank member

theorem read?_append_cons {blank : Char} (isBlank : Text.isBlank blank = true) (text more : List Char) :
    read? (text ++ blank :: more) =
      (read? text).map fun (punct, after) => (punct, after ++ blank :: more) := by
  simp only [read?, List.map_findSome?]
  congr 1
  funext punct
  rw [Text.strip?_append_cons (not_mem_symbol isBlank punct), Option.map_map, Function.comp_apply,
    Option.map_map]
  rfl

end Punct

namespace Token

variable {blank : Char} {more : List Char}

theorem isDigit_of_isBlank (isBlank : Text.isBlank blank = true) : blank.isDigit = false := by
  rw [Bool.eq_false_iff]
  intro digit
  exact absurd ((isNameChar_of_isDigit digit).symm.trans (isNameChar_of_isBlank isBlank)) (by simp)

theorem readQuoted_append_of_some {quote : Char} {escaped : Bool} {text body after : List Char}
    (found : readQuoted quote escaped text = some (body, after)) (more : List Char) :
    readQuoted quote escaped (text ++ more) = some (body, after ++ more) := by
  obtain ⟨quoted, rfl⟩ := readQuoted_eq_some_iff.1 found
  exact readQuoted_eq_some_iff.2 ⟨quoted, List.append_assoc body after more⟩

theorem readFraction_of_ne {c : Char} (other : c ≠ '.') (rest : List Char) :
    readFraction (c :: rest) = ([], c :: rest) := by
  unfold readFraction
  split
  · rename_i same
    exact absurd (List.cons.inj same).1 other
  · rfl

theorem readFraction_append_cons (isBlank : Text.isBlank blank = true) (text : List Char) :
    readFraction (text ++ blank :: more) =
      ((readFraction text).1, (readFraction text).2 ++ blank :: more) := by
  have digit := isDigit_of_isBlank isBlank
  cases text with
  | nil =>
      have other : blank ≠ '.' := by
        rintro rfl
        cases isBlank
      exact readFraction_of_ne other more
  | cons c rest =>
      by_cases point : c = '.'
      · subst point
        cases rest with
        | nil => simp [readFraction, digit]
        | cons d rest =>
            simp only [List.cons_append, readFraction, Text.takeWhile_append_cons digit,
              Text.dropWhile_append_cons digit]
            split <;> rfl
      · rw [List.cons_append, readFraction_of_ne point, readFraction_of_ne point]
        rfl

theorem readExponentDigits_append_cons (isBlank : Text.isBlank blank = true) (mark text : List Char) :
    readExponentDigits mark (text ++ blank :: more) =
      (readExponentDigits mark text).map fun (digits, after) => (digits, after ++ blank :: more) := by
  have digit := isDigit_of_isBlank isBlank
  simp only [readExponentDigits, Text.takeWhile_append_cons digit, Text.dropWhile_append_cons digit]
  split <;> rfl

theorem readExponent_append_cons (isBlank : Text.isBlank blank = true) (text : List Char) :
    readExponent (text ++ blank :: more) =
      ((readExponent text).1, (readExponent text).2 ++ blank :: more) := by
  have digit := isDigit_of_isBlank isBlank
  have none (mark : List Char) : readExponentDigits mark (blank :: more) = none := by
    simp [readExponentDigits, digit]
  cases text with
  | nil =>
      have mark : (blank = 'e' || blank = 'E') = false := by
        simp only [Bool.or_eq_false_iff, decide_eq_false_iff_not]
        constructor
        all_goals
          rintro rfl
          cases isBlank
      simp [readExponent, mark]
  | cons mark rest =>
      cases rest with
      | nil =>
          have sign : (blank = '+' || blank = '-') = false := by
            simp only [Bool.or_eq_false_iff, decide_eq_false_iff_not]
            constructor
            all_goals
              rintro rfl
              cases isBlank
          simp [readExponent, sign, none]
      | cons sign digits =>
          simp only [List.cons_append, readExponent]
          rw [readExponentDigits_append_cons isBlank, ← List.cons_append,
            readExponentDigits_append_cons isBlank]
          split
          · split
            · cases readExponentDigits [mark, sign] digits <;> rfl
            · cases readExponentDigits [mark] (sign :: digits) <;> rfl
          · rfl

theorem readNumber_append_cons (isBlank : Text.isBlank blank = true) (text : List Char) :
    readNumber (text ++ blank :: more) =
      ((readNumber text).1, (readNumber text).2 ++ blank :: more) := by
  have digit := isDigit_of_isBlank isBlank
  simp only [readNumber, Text.takeWhile_append_cons digit, Text.dropWhile_append_cons digit,
    readFraction_append_cons isBlank, readExponent_append_cons isBlank]

theorem readSigil_append_cons (isBlank : Text.isBlank blank = true) {make : String → Token} {sigil : Char}
    {text after : List Char} {token : Token} (found : readSigil make sigil text = .ok (token, after)) :
    readSigil make sigil (text ++ blank :: more) = .ok (token, after ++ blank :: more) := by
  have stop := isNameChar_of_isBlank isBlank
  obtain ⟨filled, rfl, rfl⟩ := of_readSigil found
  simp only [readSigil, Text.takeWhile_append_cons stop, Text.dropWhile_append_cons stop,
    List.isEmpty_iff, filled, if_false]

/-- A token that reads does so before a blank too. -/
theorem read_append_cons (isBlank : Text.isBlank blank = true) {first : Char} {rest after : List Char}
    {token : Token} (found : read first rest = .ok (token, after)) :
    read first (rest ++ blank :: more) = .ok (token, after ++ blank :: more) := by
  have stop := isNameChar_of_isBlank isBlank
  apply Lexed.read_eq
  cases lexed_of_read found with
  | aliasName sigil named => exact .aliasName sigil (readSigil_append_cons isBlank named)
  | attributeName sigil named => exact .attributeName sigil (readSigil_append_cons isBlank named)
  | string isQuote inside => exact .string isQuote (readQuoted_append_of_some inside _)
  | number digit run =>
      refine .number digit ?_
      rw [← List.cons_append, readNumber_append_cons isBlank, run]
  | identifier start run ends =>
      refine .identifier start ?_ ?_
      · rw [← List.cons_append, Text.takeWhile_append_cons stop, run]
      · rw [← List.cons_append, Text.dropWhile_append_cons stop, ends]
  | punct other digit start matched =>
      refine .punct other digit start ?_
      rw [← List.cons_append, Punct.read?_append_cons isBlank, matched]
      rfl

theorem lex_trimStart_append (text rest : List Char) :
    lex (Text.trimStart text ++ rest) = lex (text ++ rest) := by
  induction text with
  | nil => rfl
  | cons c text ih =>
      cases blank : Text.isBlank c with
      | true =>
          rw [Text.trimStart, List.dropWhile_cons_of_pos blank, List.cons_append, lex_blank blank]
          exact ih
      | false => rw [Text.trimStart, List.dropWhile_cons_of_neg (by simp [blank])]

/-- The tokens of a text stay what they are before a blank. -/
theorem readAll_append_cons (isBlank : Text.isBlank blank = true) {text : List Char}
    (begins : ∀ c ∈ text.head?, Text.isBlank c = false) (whole : (readAll text).fault = none) :
    lex (text ++ blank :: more) = (lex more).prepend (readAll text).items := by
  fun_induction readAll text with
  | case1 => exact lex_blank isBlank more
  | case2 first rest fault failed => cases whole
  | case3 first rest token after found shorter ih =>
      have later := ih (Text.stop_dropWhile Text.isBlank after) whole
      have dark : Text.isBlank first = false := begins first rfl
      rw [List.cons_append, lex_of_read dark (read_append_cons isBlank found), ← lex_trimStart_append,
        later]
      rfl

end Token

end Stencil
