import Stencil.Proofs.Token.Lexing
import Stencil.Value.Text

/-! Quoted texts read back: the escapes that are written are undone. -/

set_option autoImplicit false

namespace Stencil.Token

open Value (escapeChar quote hexDigits)

/-- The escaped form of a control character without a letter. -/
theorem hexDigits_of_control {c : Char} (control : c.toNat < 0x20) :
    ∃ a b d e, hexDigits 4 c.toNat = [a, b, d, e] ∧ charOfHex? [a, b, d, e] = some c ∧
      ∀ x ∈ [a, b, d, e], x ≠ '\\' ∧ x ≠ '"' := by
  rw [← Char.ofNat_toNat c]
  generalize c.toNat = code at control ⊢
  interval_cases code <;> exact ⟨_, _, _, _, rfl, rfl, by simp⟩

theorem readQuoted_plain {mark c : Char} (slash : c ≠ '\\') (other : c ≠ mark) (rest : List Char) :
    readQuoted mark false (c :: rest) =
      (readQuoted mark false rest).map fun (body, after) => (c :: body, after) := by
  simp [readQuoted, slash, other]

theorem readQuoted_escaped (mark c : Char) (rest : List Char) :
    readQuoted mark false ('\\' :: c :: rest) =
      (readQuoted mark false rest).map fun (body, after) => ('\\' :: c :: body, after) := by
  by_cases slash : c = '\\'
  · subst slash
    simp [readQuoted, Function.comp_def]
  · simp [readQuoted, slash, Function.comp_def]

/-- The form of a character does not end a string. -/
theorem readQuoted_escapeChar (c : Char) (rest : List Char) :
    readQuoted '"' false (escapeChar c ++ rest) =
      (readQuoted '"' false rest).map fun (body, after) => (escapeChar c ++ body, after) := by
  unfold escapeChar
  iterate 7
    split
    · exact readQuoted_escaped _ _ rest
  rename_i mark slash _ _ _ _ _
  split
  · rename_i control
    obtain ⟨a, b, d, e, same, -, plain⟩ := hexDigits_of_control control
    simp only [List.forall_mem_cons] at plain
    rw [same]
    simp only [List.cons_append, List.nil_append]
    rw [readQuoted_escaped, readQuoted_plain plain.1.1 plain.1.2,
      readQuoted_plain plain.2.1.1 plain.2.1.2, readQuoted_plain plain.2.2.1.1 plain.2.2.1.2,
      readQuoted_plain plain.2.2.2.1.1 plain.2.2.2.1.2]
    simp [Function.comp_def]
  · exact readQuoted_plain slash mark rest

/-- Forms of characters that do not end a string are read up to the quote behind them. -/
theorem readQuoted_flatMap {mark : Char} {form : Char → List Char} (plain : mark ≠ '\\')
    (each : ∀ c rest, readQuoted mark false (form c ++ rest) =
      (readQuoted mark false rest).map fun (body, after) => (form c ++ body, after))
    (text rest : List Char) : readQuoted mark false (text.flatMap form ++ mark :: rest) =
      some (text.flatMap form ++ [mark], rest) := by
  induction text with
  | nil => simp [readQuoted, plain]
  | cons c text ih =>
      rw [List.flatMap_cons, List.append_assoc, each, ih]
      simp

theorem unescape_plain {c : Char} (slash : c ≠ '\\') (rest : List Char) :
    unescape (c :: rest) = c :: unescape rest := by
  cases rest <;> simp [unescape, slash]

theorem unescape_letter {c : Char} (letter : c ≠ 'u') (rest : List Char) :
    unescape ('\\' :: c :: rest) = unescapeLetter c :: unescape rest := by
  rw [unescape]
  simp [letter]

/-- The form of a character stands for that character. -/
theorem unescape_escapeChar (c : Char) (rest : List Char) :
    unescape (escapeChar c ++ rest) = c :: unescape rest := by
  unfold escapeChar
  iterate 7
    split
    · rename_i same
      subst same
      exact unescape_letter (by decide) rest
  rename_i mark slash _ _ _ _ _
  split
  · rename_i control
    obtain ⟨a, b, d, e, same, named, -⟩ := hexDigits_of_control control
    rw [same]
    simp only [List.cons_append, List.nil_append]
    rw [unescape]
    simp [named]
  · exact unescape_plain slash rest

theorem unescape_flatMap {form : Char → List Char}
    (each : ∀ c rest, unescape (form c ++ rest) = c :: unescape rest) (text : List Char) :
    unescape (text.flatMap form) = text := by
  induction text with
  | nil => rw [List.flatMap_nil, unescape]
  | cons c text ih => rw [List.flatMap_cons, each, ih]

/-- A quoted text stands for itself, -/
theorem stringText_quote (text : String) : stringText (quote text) = text := by
  simp [stringText, quote, unescape_flatMap unescape_escapeChar]

/-- and reads as one token. -/
theorem lex_quote (text : String) (rest : List Char) :
    lex ((quote text).toList ++ rest) = (lex rest).cons (.string (quote text)) := by
  have found := readQuoted_flatMap (by decide) readQuoted_escapeChar text.toList rest
  simp only [quote, String.toList_ofList, List.cons_append, List.append_assoc, List.nil_append]
  exact lex_of_read rfl (Lexed.string (.inl rfl) found).read_eq

/-- Text without quotes and backslashes stands in quotes as it is. -/
theorem lex_quoted {text : List Char} (slash : '\\' ∉ text) (mark : '"' ∉ text) (rest : List Char) :
    lex ('"' :: (text ++ '"' :: rest)) =
      (lex rest).cons (.string (String.ofList ('"' :: (text ++ ['"'])))) := by
  have found : readQuoted '"' false (text ++ '"' :: rest) = some (text ++ ['"'], rest) := by
    induction text with
    | nil => simp [readQuoted]
    | cons c text ih =>
        obtain ⟨noSlash, slash⟩ := List.ne_and_not_mem_of_not_mem_cons slash
        obtain ⟨noMark, mark⟩ := List.ne_and_not_mem_of_not_mem_cons mark
        rw [List.cons_append, readQuoted_plain noSlash.symm noMark.symm, ih slash mark]
        rfl
  exact lex_of_read rfl (Lexed.string (.inl rfl) found).read_eq

theorem stringText_quoted {text : List Char} (slash : '\\' ∉ text) :
    stringText (String.ofList ('"' :: (text ++ ['"']))) = String.ofList text := by
  have same : unescape text = text := by
    induction text with
    | nil => rw [unescape]
    | cons c text ih =>
        obtain ⟨noSlash, slash⟩ := List.ne_and_not_mem_of_not_mem_cons slash
        rw [unescape_plain noSlash.symm, ih slash]
  simp [stringText, same]

/-- A code has no colon. -/
theorem colon_not_mem_of_charOfHex? {digits : List Char} {c : Char} (named : charOfHex? digits = some c) :
    ':' ∉ digits := by
  intro member
  simp only [charOfHex?] at named
  split at named
  · cases named
  · rename_i proper
    simp only [Bool.or_eq_true, Bool.not_eq_true', not_or, Bool.not_eq_false] at proper
    have among : ':' ∈ (Text.strip? ['+'] digits).getD digits := by
      cases stripped : Text.strip? ['+'] digits with
      | none => exact member
      | some rest =>
          rw [← Text.strip?_eq_some_iff.1 stripped] at member
          exact (List.mem_cons.1 member).resolve_left (by decide)
    exact absurd (List.all_eq_true.1 proper.2 ':' among) (by decide)

/-- Escapes are no shorter than what they stand for, and no colon is lost. -/
theorem unescape_le (text : List Char) :
    (unescape text).length ≤ text.length ∧ text.count ':' ≤ (unescape text).count ':' := by
  fun_induction unescape text with
  | case1 => exact ⟨le_refl _, le_refl _⟩
  | case2 c rest _ ih =>
      simp only [List.length_cons, List.count_cons]
      omega
  | case3 c slash =>
      obtain rfl := not_not.1 slash
      exact ⟨le_refl _, le_refl _⟩
  | case4 c slash letter rest _ ih =>
      obtain rfl := not_not.1 slash
      have kept : letter = ':' → unescapeLetter letter = ':' := by
        rintro rfl
        rfl
      simp only [List.length_cons, List.count_cons, beq_iff_eq]
      grind
  | case5 c slash letter rest other ih =>
      obtain rfl := not_not.1 slash
      obtain rfl := not_not.1 other
      have length := congrArg List.length (List.take_append_drop 4 rest)
      have count := congrArg (List.count ':') (List.take_append_drop 4 rest)
      have plain : ('\\' == ':') = false ∧ ('u' == ':') = false := by decide
      cases named : charOfHex? (rest.take 4) with
      | none =>
          simp only [List.length_append, List.count_append, List.length_cons, List.count_cons, plain,
            Bool.false_eq_true, if_false] at length count ⊢
          omega
      | some d =>
          have absent := List.count_eq_zero_of_not_mem (colon_not_mem_of_charOfHex? named)
          simp only [List.length_append, List.count_append, List.length_cons, List.count_cons, plain,
            Bool.false_eq_true, if_false, List.length_nil, List.count_nil] at length count ⊢
          omega

/-- A string ends in its quote. -/
theorem Quoted.exists_concat {mark : Char} {escaped : Bool} {body : List Char}
    (quoted : Quoted mark escaped body) : ∃ inner, body = inner ++ [mark] := by
  induction quoted with
  | close => exact ⟨[], rfl⟩
  | slash _ ih | plain _ _ _ ih =>
      obtain ⟨inner, rfl⟩ := ih
      exact ⟨_ :: inner, rfl⟩

theorem exists_quote_of_read {first : Char} {rest after : List Char} {quoted : String}
    (found : read first rest = .ok (.string quoted, after)) :
    ∃ mark inner, mark ∈ ['"', '\''] ∧ quoted.toList = mark :: (inner ++ [mark]) := by
  cases lexed_of_read found with
  | aliasName _ named | attributeName _ named =>
      obtain ⟨-, other, -⟩ := of_readSigil named
      cases other
  | string isQuote inside =>
      obtain ⟨inner, rfl⟩ := (readQuoted_eq_some_iff.1 inside).1.exists_concat
      exact ⟨first, inner, by simpa using isQuote, String.toList_ofList⟩

/-- A text and a colon after it do not read as a string that stands for the text, since
the string would be longer and have one more colon. -/
theorem lex_ne_string {name quoted : String} {rest : List Char} {tokens : List Token}
    (head : (lex (name.toList ++ ':' :: rest)).items = .string quoted :: tokens) :
    stringText quoted ≠ name := by
  rintro rfl
  obtain ⟨first, others, after, start, found, -⟩ := exists_read_of_lex head
  obtain ⟨mark, inner, isQuote, written⟩ := exists_quote_of_read found
  have stands : (stringText quoted).toList = unescape inner := by
    simp [stringText, written]
  obtain ⟨shorter, kept⟩ := unescape_le inner
  have whole : quoted.toList ++ after = first :: others := read_append found
  rw [written, ← start] at whole
  generalize all : (stringText quoted).toList ++ ':' :: rest = text at start whole
  -- The string begins no earlier than the text, and the text ends before its last quote.
  have split : text.takeWhile Text.isBlank ++ (mark :: (inner ++ [mark]) ++ after) = text := by
    rw [whole]
    exact List.takeWhile_append_dropWhile
  have dark : (text.takeWhile Text.isBlank).count ':' = 0 :=
    List.count_eq_zero_of_not_mem fun member =>
      absurd (List.all_eq_true.1 List.all_takeWhile ':' member) (by decide)
  have plain : (mark == ':') = false := by
    simp only [List.mem_cons, List.not_mem_nil, or_false] at isQuote
    rcases isQuote with rfl | rfl <;> rfl
  generalize text.takeWhile Text.isBlank = front at split dark
  have name : unescape inner ++ [':'] <+: text :=
    ⟨rest, by rw [List.append_assoc, List.singleton_append, ← stands, all]⟩
  have quotedPart : front ++ mark :: inner <+: text := ⟨mark :: after, by rw [← split]; simp⟩
  have less : (unescape inner ++ [':']).length ≤ (front ++ mark :: inner).length := by
    simp only [List.length_append, List.length_cons, List.length_nil]
    omega
  have colons := (List.prefix_of_prefix_length_le name quotedPart less).sublist.count_le ':'
  simp only [List.count_append, List.count_cons, List.count_nil, plain, dark, beq_self_eq_true, if_true,
    Bool.false_eq_true, if_false] at colons
  omega

end Stencil.Token
