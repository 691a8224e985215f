import Stencil.Expr.SyntaxError
import Stencil.Reading
import Stencil.Text.Blank
import Stencil.Text.Numeric

/-! Reading the tokens of an expression.

Each token is the longest one that starts where the last one ended and its
following blanks with it. Reading a token never lengthens the text, so reading
all of them ends.
-/

set_option autoImplicit false

namespace Stencil.Token

open Text (isBlank trimStart)

def isNameStart (c : Char) : Bool :=
  Text.isAlphabetic c || c == '_' || c == '$'

def isNameChar (c : Char) : Bool :=
  Text.isAlphanumeric c || c == '_' || c == '$'

/-- The rest of a quoted string with its closing quote, and what follows. A
backslash takes away the meaning of the quote or backslash after it. -/
def readQuoted (quote : Char) : Bool → List Char → Option (List Char × List Char)
  | _, [] => none
  | escaped, c :: rest =>
      if c = '\\' then (readQuoted quote (!escaped) rest).map fun (body, after) => (c :: body, after)
      else if c = quote && !escaped then some ([c], rest)
      else (readQuoted quote false rest).map fun (body, after) => (c :: body, after)

/-- The fraction at the start of a text: a point before at least one digit. -/
def readFraction : List Char → List Char × List Char
  | '.' :: d :: rest =>
      if d.isDigit then ('.' :: d :: rest.takeWhile Char.isDigit, rest.dropWhile Char.isDigit)
      else ([], '.' :: d :: rest)
  | text => ([], text)

/-- The digits of an exponent, after its mark and sign. -/
def readExponentDigits (mark text : List Char) : Option (List Char × List Char) :=
  let digits := text.takeWhile Char.isDigit
  if digits.isEmpty then none else some (mark ++ digits, text.dropWhile Char.isDigit)

/-- The exponent at the start of a text: a mark, a sign or none, and at least
one digit. -/
def readExponent : List Char → List Char × List Char
  | [] => ([], [])
  | mark :: rest =>
      let exponent? :=
        if mark = 'e' || mark = 'E' then
          match rest with
          | [] => none
          | sign :: digits =>
              if sign = '+' || sign = '-' then readExponentDigits [mark, sign] digits
              else readExponentDigits [mark] (sign :: digits)
        else none
      exponent?.getD ([], mark :: rest)

/-- Digits, then a fraction and an exponent where they are there. -/
def readNumber (text : List Char) : List Char × List Char :=
  let (fraction, afterFraction) := readFraction (text.dropWhile Char.isDigit)
  let (exponent, after) := readExponent afterFraction
  (text.takeWhile Char.isDigit ++ fraction ++ exponent, after)

/-- A name after its sigil. -/
def readSigil (make : String → Token) (sigil : Char) (text : List Char) :
    Except SyntaxError (Token × List Char) :=
  let name := text.takeWhile isNameChar
  if name.isEmpty then .error ⟨.missingName, String.ofList (sigil :: text)⟩
  else .ok (make (String.ofList name), text.dropWhile isNameChar)

/-- The token at the start of a text that begins with no blank. -/
def read (first : Char) (rest : List Char) : Except SyntaxError (Token × List Char) :=
  let text := first :: rest
  if first = '#' then readSigil .aliasName first rest
  else if first = '@' then readSigil .attributeName first rest
  else if first = '"' || first = '\'' then
    match readQuoted first false rest with
    | some (body, after) => .ok (.string (String.ofList (first :: body)), after)
    | none => .error ⟨.unterminatedString, String.ofList text⟩
  else if first.isDigit then
    let (digits, after) := readNumber text
    .ok (.number (String.ofList digits), after)
  else if isNameStart first then
    .ok (.identifier (String.ofList (text.takeWhile isNameChar)), text.dropWhile isNameChar)
  else
    match Punct.read? text with
    | some (p, after) => .ok (.punct p, after)
    | none => .error ⟨.unexpectedCharacter first, String.ofList text⟩

/-- The ways to read a token, told apart by the first character. -/
inductive Lexed (first : Char) (rest : List Char) : Token → List Char → Prop where
  | aliasName {token : Token} {after : List Char} (sigil : first = '#')
      (named : readSigil .aliasName first rest = .ok (token, after)) : Lexed first rest token after
  | attributeName {token : Token} {after : List Char} (sigil : first = '@')
      (named : readSigil .attributeName first rest = .ok (token, after)) : Lexed first rest token after
  | string {body after : List Char} (isQuote : first = '"' ∨ first = '\'')
      (inside : readQuoted first false rest = some (body, after)) :
      Lexed first rest (.string (String.ofList (first :: body))) after
  | number {digits after : List Char} (digit : first.isDigit = true)
      (run : readNumber (first :: rest) = (digits, after)) :
      Lexed first rest (.number (String.ofList digits)) after
  | identifier {name after : List Char} (start : isNameStart first = true)
      (run : (first :: rest).takeWhile isNameChar = name)
      (ends : (first :: rest).dropWhile isNameChar = after) :
      Lexed first rest (.identifier (String.ofList name)) after
  | punct {mark : Punct} {after : List Char} (other : first ∉ ['#', '@', '"', '\''])
      (digit : first.isDigit = false) (start : isNameStart first = false)
      (matched : Punct.read? (first :: rest) = some (mark, after)) :
      Lexed first rest (.punct mark) after

theorem lexed_of_read {first : Char} {rest after : List Char} {token : Token}
    (found : read first rest = .ok (token, after)) : Lexed first rest token after := by
  simp only [read] at found
  split at found
  · rename_i sigil
    exact .aliasName sigil found
  rename_i noAlias
  split at found
  · rename_i sigil
    exact .attributeName sigil found
  rename_i noAttribute
  split at found
  · rename_i isQuote
    split at found
    · rename_i inside
      cases found
      exact .string (by simpa using isQuote) inside
    · cases found
  rename_i noQuote
  split at found
  · rename_i digit
    cases found
    exact .number digit rfl
  rename_i noDigit
  split at found
  · rename_i start
    cases found
    exact .identifier start rfl rfl
  rename_i noStart
  split at found
  · rename_i matched
    cases found
    refine .punct ?_ (by simpa using noDigit) (by simpa using noStart) matched
    simpa [noAlias, noAttribute] using noQuote
  · cases found

/-- The rest of a quoted string: all up to the first quote that no backslash takes the meaning of. -/
inductive Quoted (quote : Char) : Bool → List Char → Prop where
  | slash {escaped : Bool} {body : List Char} :
      Quoted quote (!escaped) body → Quoted quote escaped ('\\' :: body)
  | close (other : quote ≠ '\\') : Quoted quote false [quote]
  | plain {escaped : Bool} {c : Char} {body : List Char} (other : c ≠ '\\')
      (goesOn : c = quote → escaped = true) : Quoted quote false body → Quoted quote escaped (c :: body)

theorem readQuoted_eq_some_iff {quote : Char} {escaped : Bool} {text body after : List Char} :
    readQuoted quote escaped text = some (body, after) ↔
      Quoted quote escaped body ∧ text = body ++ after := by
  constructor
  · intro found
    induction text generalizing escaped body with
    | nil => cases found
    | cons c rest ih =>
        simp only [readQuoted] at found
        split at found
        · rename_i slash
          obtain ⟨⟨inner, tail⟩, inside, same⟩ := Option.map_eq_some_iff.1 found
          cases same
          obtain ⟨quoted, rfl⟩ := ih inside
          exact ⟨slash ▸ .slash quoted, rfl⟩
        · rename_i other
          split at found
          · rename_i closes
            cases found
            obtain ⟨rfl, rfl⟩ : c = quote ∧ escaped = false := by simpa using closes
            exact ⟨.close other, rfl⟩
          · rename_i goesOn
            obtain ⟨⟨inner, tail⟩, inside, same⟩ := Option.map_eq_some_iff.1 found
            cases same
            obtain ⟨quoted, rfl⟩ := ih inside
            exact ⟨.plain other (by simpa using goesOn) quoted, rfl⟩
  · rintro ⟨quoted, rfl⟩
    induction quoted with
    | slash _ ih => simp [readQuoted, ih]
    | close other => simp [readQuoted, other]
    | @plain escaped c body other goesOn _ ih =>
        have isOpen : (c = quote && !escaped) = false := by simpa using goesOn
        simp only [List.cons_append, readQuoted, if_neg other, isOpen, ih]
        rfl

theorem readFraction_append (text : List Char) :
    (readFraction text).1 ++ (readFraction text).2 = text := by
  fun_cases readFraction text <;> simp

theorem readExponentDigits_append {mark text exponent after : List Char}
    (found : readExponentDigits mark text = some (exponent, after)) :
    exponent ++ after = mark ++ text := by
  simp only [readExponentDigits] at found
  split at found
  · exact absurd found (by simp)
  · obtain ⟨rfl, rfl⟩ := Prod.mk.inj (Option.some.inj found)
    simp

theorem readExponent_append (text : List Char) :
    (readExponent text).1 ++ (readExponent text).2 = text := by
  unfold readExponent
  split
  · rfl
  · rename_i mark rest
    split
    · split
      · rfl
      · rename_i sign digits
        split
        · cases found : readExponentDigits [mark, sign] digits with
          | none => rfl
          | some pair => simpa using readExponentDigits_append found
        · cases found : readExponentDigits [mark] (sign :: digits) with
          | none => rfl
          | some pair => simpa using readExponentDigits_append found
    · rfl

theorem readNumber_append (text : List Char) :
    (readNumber text).1 ++ (readNumber text).2 = text := by
  simp only [readNumber, List.append_assoc, readExponent_append, readFraction_append,
    List.takeWhile_append_dropWhile]

/-- The name after a sigil is the longest run of characters of names. -/
theorem of_readSigil {make : String → Token} {sigil : Char} {text after : List Char} {token : Token}
    (found : readSigil make sigil text = .ok (token, after)) :
    text.takeWhile isNameChar ≠ [] ∧ token = make (String.ofList (text.takeWhile isNameChar)) ∧
      after = text.dropWhile isNameChar := by
  simp only [readSigil] at found
  split at found
  · cases found
  · rename_i filled
    cases found
    exact ⟨by simpa using filled, rfl, rfl⟩

theorem readSigil_append {make : String → Token} {sigil : Char} {text after : List Char}
    {token : Token} (found : readSigil make sigil text = .ok (token, after))
    (written : ∀ name, (make name).raw.toList = sigil :: name.toList) :
    token.raw.toList ++ after = sigil :: text := by
  obtain ⟨-, rfl, rfl⟩ := of_readSigil found
  simp [written]

/-- A token and what follows it are the text that was read. -/
theorem read_append {first : Char} {rest after : List Char} {token : Token}
    (found : read first rest = .ok (token, after)) : token.raw.toList ++ after = first :: rest := by
  cases lexed_of_read found with
  | aliasName sigil named =>
      subst sigil
      exact readSigil_append named fun name => by simp [raw]
  | attributeName sigil named =>
      subst sigil
      exact readSigil_append named fun name => by simp [raw]
  | string _ inside => simp [raw, value, (readQuoted_eq_some_iff.1 inside).2]
  | number _ run =>
      have whole := readNumber_append (first :: rest)
      rw [run] at whole
      simpa [raw, value] using whole
  | identifier _ run ends =>
      subst run ends
      simp [raw, value]
  | punct _ _ _ matched => simp [raw, value, Punct.text, Punct.read?_append matched]

theorem isNameChar_of_isNameStart {c : Char} (start : isNameStart c = true) :
    isNameChar c = true := by
  simp only [isNameStart, isNameChar, Text.isAlphanumeric, Bool.or_eq_true] at start ⊢
  rcases start with (letter | line) | dollar <;> simp_all

theorem raw_ne_nil_of_read {first : Char} {rest after : List Char} {token : Token}
    (found : read first rest = .ok (token, after)) : token.raw.toList ≠ [] := by
  cases lexed_of_read found with
  | aliasName _ named | attributeName _ named =>
      obtain ⟨-, rfl, -⟩ := of_readSigil named
      simp [raw]
  | string => simp [raw, value]
  | number digit run =>
      obtain rfl : (readNumber (first :: rest)).1 = _ := congrArg Prod.fst run
      simp [raw, value, readNumber, digit]
  | identifier start run =>
      subst run
      simp [raw, value, isNameChar_of_isNameStart start]
  | punct => simp [raw, value, Punct.text, Punct.symbol_ne_nil]

theorem length_trimStart_of_read {first : Char} {rest after : List Char} {token : Token}
    (found : read first rest = .ok (token, after)) :
    (trimStart after).length < (first :: rest).length := by
  have whole := congrArg List.length (read_append found)
  have nonempty := List.length_pos_iff.2 (raw_ne_nil_of_read found)
  have := Text.length_trimStart_le after
  simp only [List.length_append, List.length_cons] at whole ⊢
  omega

/-- The tokens of a text that begins with no blank. -/
def readAll : List Char → Reading Token SyntaxError
  | [] => .nil
  | first :: rest =>
      match found : read first rest with
      | .error e => .failed e
      | .ok (token, after) =>
          have := length_trimStart_of_read found
          (readAll (trimStart after)).cons token
termination_by text => text.length
decreasing_by assumption

/-- The tokens of an expression. -/
def readSource (source : String) : Reading Token SyntaxError :=
  readAll (Text.trim source.toList)

end Stencil.Token
