import Mathlib
import Stencil.Proofs.Token.Blank
import Stencil.Proofs.Trim

/-! Tokens and the blanks between them.

The text of a token reads as this token by itself, and so it does before a blank. A source
is thus the texts of its tokens with blanks between them, and other blanks would do.
-/

set_option autoImplicit false

namespace Stencil.Token

open Text (isBlank trimStart Trimmed)

/-- A token, and what is left of the text after it and the blanks behind it. -/
structure Step where
  token : Token
  tail : List Char

/-- The first step in a text that begins with no blank; none is left at its end. -/
def step? : List Char → Except SyntaxError (Option Step)
  | [] => .ok none
  | first :: rest => (read first rest).map fun (token, after) => some ⟨token, trimStart after⟩

/-- Steps to the end of a text, each in the tail that the one before leaves. -/
inductive Steps : List Char → List Step → Prop where
  | done {text : List Char} (ended : step? text = .ok none) : Steps text []
  | next {text : List Char} {step : Step} {steps : List Step}
      (taken : step? text = .ok (some step)) : Steps step.tail steps → Steps text (step :: steps)

theorem step?_eq_none_iff {text : List Char} : step? text = .ok none ↔ text = [] := by
  cases text with
  | nil => exact iff_of_true rfl rfl
  | cons first rest =>
      refine iff_of_false (fun ended => ?_) (List.cons_ne_nil first rest)
      rw [step?] at ended
      cases found : read first rest with
      | error fault => rw [found] at ended; cases ended
      | ok pair => rw [found] at ended; cases ended

/-- A step is a token that is read, and the blanks after it. -/
theorem exists_read_of_step? {text : List Char} {step : Step} (taken : step? text = .ok (some step)) :
    ∃ first rest after, text = first :: rest ∧ read first rest = .ok (step.token, after) ∧
      step.tail = trimStart after := by
  cases text with
  | nil => cases taken
  | cons first rest =>
      rw [step?] at taken
      cases found : read first rest with
      | error fault => rw [found] at taken; cases taken
      | ok pair =>
          rw [found] at taken
          cases taken
          exact ⟨first, rest, pair.2, rfl, found, rfl⟩

section

variable {text : List Char} {step : Step} {steps : List Step} {tokens : List Token}

/-- Taking steps to the end is what reading all tokens does. -/
theorem readAll_eq_iff :
    readAll text = ⟨tokens, none⟩ ↔ ∃ steps, Steps text steps ∧ steps.map (·.token) = tokens := by
  constructor
  · intro whole
    fun_induction readAll text generalizing tokens with
    | case1 => cases whole; exact ⟨[], .done rfl, rfl⟩
    | case2 => cases whole
    | case3 first rest token after found _ ih =>
        obtain ⟨rfl, clean⟩ := Reading.mk.inj whole
        obtain ⟨steps, taken, same⟩ := @ih (readAll (trimStart after)).items (by rw [← clean])
        refine ⟨⟨token, trimStart after⟩ :: steps, .next ?_ taken, congrArg (token :: ·) same⟩
        rw [step?, found]
        rfl
  · rintro ⟨steps, taken, rfl⟩
    induction taken with
    | done ended =>
        rw [step?_eq_none_iff.1 ended, readAll]
        rfl
    | next taken _ ih =>
        obtain ⟨first, rest, after, rfl, found, tail⟩ := exists_read_of_step? taken
        rw [readAll_of_read found, lex, ← tail, ih]
        rfl

/-- A step leaves less of the text. -/
theorem tail_of_step? (taken : step? text = .ok (some step)) :
    step.tail <:+ text ∧ step.tail.length < text.length := by
  obtain ⟨first, rest, after, rfl, found, tail⟩ := exists_read_of_step? taken
  rw [tail]
  exact ⟨(Text.trimStart_suffix after).trans ⟨_, read_append found⟩, length_trimStart_of_read found⟩

theorem Steps.isChain (taken : Steps text steps) :
    (text :: steps.map (·.tail)).IsChain fun text tail => tail <:+ text ∧ tail.length < text.length := by
  induction taken with
  | done ended => exact .singleton _
  | next taken _ ih => exact .cons_cons (tail_of_step? taken) ih

end

/-! What is read as a token reads as that token by itself. -/

theorem readQuoted_alone {quote : Char} {escaped : Bool} {text body after : List Char}
    (found : readQuoted quote escaped text = some (body, after)) :
    readQuoted quote escaped body = some (body, []) :=
  readQuoted_eq_some_iff.2 ⟨(readQuoted_eq_some_iff.1 found).1, (List.append_nil body).symm⟩

theorem readSigil_alone {make : String → Token} {sigil : Char} {text after : List Char} {token : Token}
    (found : readSigil make sigil text = .ok (token, after)) :
    ∃ name : String, token = make name ∧ readSigil make sigil name.toList = .ok (token, []) := by
  obtain ⟨filled, rfl, -⟩ := of_readSigil found
  have named : IsSigilName (String.ofList (text.takeWhile isNameChar)).toList := by
    rw [String.toList_ofList]
    exact isSigilName_takeWhile filled
  have alone := @readSigil_of_stop make sigil _ named [] (by simp)
  rw [List.append_nil] at alone
  exact ⟨_, rfl, alone⟩

theorem read_alone {first : Char} {rest after : List Char} {token : Token}
    (found : read first rest = .ok (token, after)) :
    ∃ word, token.raw.toList = first :: word ∧ read first word = .ok (token, []) := by
  obtain ⟨word, written⟩ : ∃ word, token.raw.toList = first :: word := by
    have whole := read_append found
    obtain ⟨c, word, same⟩ := List.exists_cons_of_ne_nil (raw_ne_nil_of_read found)
    rw [same] at whole
    exact ⟨word, same.trans (congrArg (· :: word) (List.cons.inj whole).1)⟩
  refine ⟨word, written, Lexed.read_eq ?_⟩
  cases lexed_of_read found with
  | aliasName sigil named =>
      obtain ⟨name, rfl, alone⟩ := readSigil_alone named
      obtain rfl : name.toList = word := by simpa [raw, sigil] using written
      exact .aliasName sigil alone
  | attributeName sigil named =>
      obtain ⟨name, rfl, alone⟩ := readSigil_alone named
      obtain rfl : name.toList = word := by simpa [raw, sigil] using written
      exact .attributeName sigil alone
  | string isQuote inside =>
      obtain rfl : _ = word := by simpa [raw, value] using written
      exact .string isQuote (readQuoted_alone inside)
  | @number digits _ digit run =>
      obtain rfl : digits = first :: word := String.toList_ofList.symm.trans written
      obtain ⟨numeral, same⟩ := exists_numeral digit rest
      rw [run] at same
      have alone := readNumber_append_of_ends (endsNumeral_nil numeral)
      rw [List.append_nil, ← same] at alone
      exact .number digit alone
  | @identifier name _ start run =>
      obtain rfl : name = first :: word := String.toList_ofList.symm.trans written
      have all : ∀ c ∈ first :: word, isNameChar c = true := run ▸ List.all_eq_true.1 List.all_takeWhile
      exact .identifier start (List.takeWhile_eq_self_iff.2 all) (List.dropWhile_eq_nil_iff.2 all)
  | @punct mark _ other digit start =>
      have whole : mark.symbol = first :: word := String.toList_ofList.symm.trans written
      have alone := @read?_symbol_append mark [] (by simp)
      rw [List.append_nil, whole] at alone
      exact .punct other digit start alone

/-- The texts of tokens, with a gap after each but the last. -/
def spaced : List Token → List (List Char) → List Char
  | [], _ => []
  | [token], _ => token.raw.toList
  | token :: tokens, gaps => token.raw.toList ++ (gaps.headD [] ++ spaced tokens gaps.tail)

/-- Gaps between tokens are made of blanks. -/
structure Gaps (tokens : List Token) (gaps : List (List Char)) : Prop where
  length_eq : gaps.length = tokens.length - 1
  blank : ∀ gap ∈ gaps, ∀ c ∈ gap, isBlank c = true

instance (tokens : List Token) (gaps : List (List Char)) : Decidable (Gaps tokens gaps) :=
  decidable_of_iff (gaps.length = tokens.length - 1 ∧ ∀ gap ∈ gaps, gap.all isBlank = true)
    ⟨fun ⟨same, blank⟩ => ⟨same, fun gap member => List.all_eq_true.1 (blank gap member)⟩,
      fun fits => ⟨fits.length_eq, fun gap member => List.all_eq_true.2 (fits.blank gap member)⟩⟩

theorem spaced_cons_cons (token next : Token) (tokens : List Token) (gap : List Char)
    (gaps : List (List Char)) : spaced (token :: next :: tokens) (gap :: gaps) =
      token.raw.toList ++ (gap ++ spaced (next :: tokens) gaps) :=
  rfl

/-- Gaps before and behind the next token. -/
theorem Gaps.exists_cons {token next : Token} {tokens : List Token} {gaps : List (List Char)}
    (fits : Gaps (token :: next :: tokens) gaps) :
    ∃ gap others, gaps = gap :: others ∧ (∀ c ∈ gap, isBlank c = true) ∧ Gaps (next :: tokens) others := by
  cases gaps with
  | nil => cases fits.length_eq
  | cons gap others =>
      obtain ⟨blank, later⟩ := List.forall_mem_cons.1 fits.blank
      exact ⟨gap, others, rfl, blank, Nat.succ.inj fits.length_eq, later⟩

/-- Steps through a text pass over blanks between its tokens, and over those at its end. -/
theorem Steps.exists_spaced {text : List Char} {steps : List Step} (taken : Steps text steps) :
    ∃ gaps trail, Gaps (steps.map (·.token)) gaps ∧ (∀ c ∈ trail, isBlank c = true) ∧
      text = spaced (steps.map (·.token)) gaps ++ trail := by
  induction taken with
  | done ended => exact ⟨[], [], ⟨rfl, nofun⟩, nofun, step?_eq_none_iff.1 ended⟩
  | @next text step steps taken later ih =>
      obtain ⟨gaps, trail, fits, blank, tail⟩ := ih
      obtain ⟨first, rest, after, rfl, found, same⟩ := exists_read_of_step? taken
      obtain ⟨gap, split, gapBlank⟩ := Text.exists_blanks_append_trimStart after
      have whole := read_append found
      rw [split, ← same] at whole
      cases later with
      | done ended =>
          refine ⟨[], gap, ⟨rfl, nofun⟩, gapBlank, ?_⟩
          rw [← whole, step?_eq_none_iff.1 ended, List.append_nil]
          rfl
      | @next text second others =>
          refine ⟨gap :: gaps, trail, ⟨congrArg Nat.succ fits.length_eq, ?_⟩, blank, ?_⟩
          · exact List.forall_mem_cons.2 ⟨gapBlank, fits.blank⟩
          · rw [← whole, tail]
            simp only [List.map_cons, spaced_cons_cons, List.append_assoc]

/-- The text of a token begins with no blank, and reads as this token. -/
def Alone (token : Token) : Prop :=
  ∃ first word, token.raw.toList = first :: word ∧ isBlank first = false ∧
    read first word = .ok (token, [])

theorem Steps.alone {text : List Char} {steps : List Step} (taken : Steps text steps)
    (begins : ∀ c ∈ text.head?, isBlank c = false) : ∀ step ∈ steps, step.token.Alone := by
  induction taken with
  | done ended => exact nofun
  | next taken _ ih =>
      obtain ⟨first, rest, after, rfl, found, tail⟩ := exists_read_of_step? taken
      obtain ⟨word, written, alone⟩ := read_alone found
      refine List.forall_mem_cons.2 ⟨⟨first, word, written, begins first rfl, alone⟩, ih ?_⟩
      rw [tail]
      exact Text.head?_trimStart after

section

variable {tokens : List Token} {gaps : List (List Char)}

theorem head?_spaced (alone : ∀ token ∈ tokens, token.Alone) :
    (spaced tokens gaps).head? = tokens.head?.bind (·.raw.toList.head?) := by
  fun_cases spaced tokens gaps with
  | case1 => rfl
  | case2 => rfl
  | case3 token tokens gaps _ =>
      obtain ⟨first, word, written, -⟩ := alone token List.mem_cons_self
      simp [written]

theorem spaced_ne_nil {token : Token} (alone : ∀ other ∈ token :: tokens, other.Alone)
    (gaps : List (List Char)) : spaced (token :: tokens) gaps ≠ [] := by
  obtain ⟨first, word, written, -⟩ := alone token List.mem_cons_self
  intro none
  have begins := @head?_spaced _ gaps alone
  simp [none, written] at begins

theorem getLast?_spaced (alone : ∀ token ∈ tokens, token.Alone) :
    (spaced tokens gaps).getLast? = tokens.getLast?.bind (·.raw.toList.getLast?) := by
  fun_induction spaced tokens gaps with
  | case1 => rfl
  | case2 => rfl
  | case3 token tokens gaps several ih =>
      obtain ⟨here, later⟩ := List.forall_mem_cons.1 alone
      cases tokens with
      | nil => exact (several rfl).elim
      | cons next tokens =>
          have some := spaced_ne_nil later gaps.tail
          rw [← List.append_assoc, List.getLast?_append_of_ne_nil _ some, ih later, List.getLast?_cons_cons]

/-- Whether a text of tokens is trimmed does not depend on its gaps. -/
theorem trimmed_spaced {others : List (List Char)} (alone : ∀ token ∈ tokens, token.Alone)
    (trimmed : Trimmed (spaced tokens gaps)) : Trimmed (spaced tokens others) := by
  obtain ⟨begins, ends⟩ := trimmed
  rw [head?_spaced alone] at begins
  rw [getLast?_spaced alone] at ends
  constructor
  · rwa [head?_spaced alone]
  · rwa [getLast?_spaced alone]

/-- Tokens read as themselves with blanks between them. -/
theorem lex_spaced (alone : ∀ token ∈ tokens, token.Alone) (fits : Gaps tokens gaps)
    (filled : ∀ gap ∈ gaps, gap ≠ []) : lex (spaced tokens gaps) = ⟨tokens, none⟩ := by
  induction tokens generalizing gaps with
  | nil => exact lex_nil
  | cons token tokens ih =>
      obtain ⟨⟨first, word, written, dark, read⟩, later⟩ := List.forall_mem_cons.1 alone
      cases tokens with
      | nil =>
          rw [spaced, written, lex_of_read dark read, lex_nil]
          rfl
      | cons next tokens =>
          obtain ⟨gap, others, rfl, blank, fitsLater⟩ := fits.exists_cons
          obtain ⟨some, filledLater⟩ := List.forall_mem_cons.1 filled
          obtain ⟨c, gap, rfl⟩ := List.exists_cons_of_ne_nil some
          have stops := @read_append_cons c (gap ++ spaced (next :: tokens) others)
            (blank c List.mem_cons_self) _ _ _ _ read
          rw [spaced_cons_cons, written, List.cons_append, List.cons_append, lex_of_read dark stops,
            List.nil_append, ← List.cons_append, lex_blanks blank, ih later fitsLater filledLater]
          rfl

end

/-- A source whose tokens can all be read is the texts of these with blanks between them, each
token leaves less of it, and with any other blanks between them the same tokens are read. -/
theorem readSource_spaced {source : String} {tokens : List Token}
    (whole : readSource source = ⟨tokens, none⟩) :
    (∃ gaps, Gaps tokens gaps ∧ Text.trim source.toList = spaced tokens gaps) ∧
      (∃ steps, Steps (Text.trim source.toList) steps ∧ steps.map (·.token) = tokens ∧
        (Text.trim source.toList :: steps.map (·.tail)).IsChain fun text tail =>
          tail <:+ text ∧ tail.length < text.length) ∧
      ∀ gaps, Gaps tokens gaps → (∀ gap ∈ gaps, gap ≠ []) →
        readSource (String.ofList (spaced tokens gaps)) = ⟨tokens, none⟩ := by
  have trimmed := Text.trimmed_trim source.toList
  obtain ⟨steps, taken, rfl⟩ := readAll_eq_iff.1 whole
  have alone : ∀ token ∈ steps.map (·.token), token.Alone :=
    List.forall_mem_map.2 (taken.alone trimmed.begins)
  obtain ⟨gaps, trail, fits, blank, split⟩ := taken.exists_spaced
  -- A blank at the end would have been trimmed.
  obtain rfl : trail = [] := by
    by_contra some
    have ends := trimmed.ends
    rw [split, List.getLast?_append_of_ne_nil _ some, List.getLast?_eq_some_getLast some] at ends
    exact absurd (blank _ (List.getLast_mem some)) (by simp [ends _ rfl])
  rw [List.append_nil] at split
  refine ⟨⟨gaps, fits, split⟩, ⟨steps, taken, rfl, taken.isChain⟩, fun others fits filled => ?_⟩
  have trimmed : Trimmed (spaced (steps.map (·.token)) others) := trimmed_spaced alone (split ▸ trimmed)
  rw [readSource, String.toList_ofList, Text.trim_of_trimmed trimmed, ← lex_spaced alone fits filled, lex,
    Text.trimStart_of_trimmed trimmed]

set_option maxRecDepth 20000 in
theorem readSource_spaced_choice :
    let source := " #n!==1.5e3?'a b' "
    let tokens : List Token :=
      [.aliasName "n", .punct .notIdentical, .number "1.5e3", .punct .question, .string "'a b'"]
    let gaps : List (List Char) := [[' '], ['\n'], ['\t', ' '], [' ']]
    readSource source = ⟨tokens, none⟩ ∧
      (∃ gaps, Gaps tokens gaps ∧ Text.trim source.toList = spaced tokens gaps) ∧
      (∃ steps, Steps (Text.trim source.toList) steps ∧ steps.map (·.token) = tokens ∧
        (Text.trim source.toList :: steps.map (·.tail)).IsChain fun text tail =>
          tail <:+ text ∧ tail.length < text.length) ∧
      Gaps tokens gaps ∧ (∀ gap ∈ gaps, gap ≠ []) ∧
      readSource (String.ofList (spaced tokens gaps)) = ⟨tokens, none⟩ := by
  intro source tokens gaps
  have whole : readSource source = ⟨tokens, none⟩ := by cbv
  obtain ⟨split, shorter, respaced⟩ := readSource_spaced whole
  have fits : Gaps tokens gaps := by decide
  have filled : ∀ gap ∈ gaps, gap ≠ [] := by decide
  exact ⟨whole, split, shorter, fits, filled, respaced gaps fits filled⟩

end Stencil.Token
