import Stencil.Proofs.Printed.Path
import Stencil.Proofs.Trim

/-! The first and the last character of a printed form.

Neither is a blank, so nothing is trimmed; and the first one opens no group.
-/

set_option autoImplicit false

namespace Stencil.Printed

open Grammar Token

/-- How a printed form ends: with no blank. -/
def Shuts (text : List Char) : Prop :=
  ∃ front c, text = front ++ [c] ∧ Text.isBlank c = false

theorem Shuts.after {text : List Char} (shuts : Shuts text) (front : List Char) :
    Shuts (front ++ text) := by
  obtain ⟨inner, c, rfl, dark⟩ := shuts
  exact ⟨front ++ inner, c, (List.append_assoc _ _ _).symm, dark⟩

theorem Shuts.cons {text : List Char} (shuts : Shuts text) (c : Char) : Shuts (c :: text) :=
  shuts.after [c]

theorem shuts_of_forall {text : List Char} (some : text ≠ [])
    (dark : ∀ c ∈ text, Text.isBlank c = false) : Shuts text :=
  ⟨text.dropLast, text.getLast some, (List.dropLast_concat_getLast some).symm,
    dark _ (List.getLast_mem some)⟩

theorem trimmed_of_shuts {c : Char} {rest : List Char} (dark : Text.isBlank c = false)
    (shuts : Shuts (c :: rest)) : Text.Trimmed (c :: rest) := by
  obtain ⟨front, last, same, ends⟩ := shuts
  refine ⟨Text.stop_cons dark rest, ?_⟩
  rw [same, List.getLast?_concat]
  exact fun d here => Option.some.inj here ▸ ends

theorem trimmed_of_opens {text : List Char} (opens : Opens text) (shuts : Shuts text) :
    Text.Trimmed text := by
  obtain ⟨c, rest, rfl, dark, -⟩ := opens
  exact trimmed_of_shuts dark shuts

theorem trim_eq {text : List Char} (opens : Opens text) (shuts : Shuts text) : Text.trim text = text :=
  Text.trim_of_trimmed (trimmed_of_opens opens shuts)

theorem isBlank_of_isDigit {c : Char} (digit : c.isDigit = true) : Text.isBlank c = false :=
  isBlank_of_isNameChar (isNameChar_of_isDigit digit)

theorem numeral_dark (numeral : Numeral) : ∀ c ∈ numeral.text, Text.isBlank c = false := by
  obtain ⟨whole, fraction, exponent, wholeDigits, isFraction, isExponent⟩ := numeral
  have digits {text : List Char} (isDigits : IsDigits text) : ∀ c ∈ text, Text.isBlank c = false :=
    fun c member => isBlank_of_isDigit (isDigits.all c member)
  have mark {c : Char} (isMark : IsMark c) : Text.isBlank c = false := by
    rcases isMark with rfl | rfl <;> rfl
  have sign {c : Char} (isSign : IsSign c) : Text.isBlank c = false := by
    rcases isSign with rfl | rfl <;> rfl
  refine List.forall_mem_append.2 ⟨digits wholeDigits, List.forall_mem_append.2 ⟨?_, ?_⟩⟩
  · cases isFraction with
    | none => exact fun _ member => absurd member List.not_mem_nil
    | digits isDigits => exact List.forall_mem_cons.2 ⟨rfl, digits isDigits⟩
  · cases isExponent with
    | none => exact fun _ member => absurd member List.not_mem_nil
    | unsigned isMark isDigits => exact List.forall_mem_cons.2 ⟨mark isMark, digits isDigits⟩
    | signed isMark isSign isDigits =>
        exact List.forall_mem_cons.2 ⟨mark isMark, List.forall_mem_cons.2 ⟨sign isSign, digits isDigits⟩⟩

theorem numeral_opens (numeral : Numeral) : Opens numeral.text := by
  obtain ⟨c, rest, same, digit⟩ := numeral.exists_cons
  refine ⟨c, rest, same, isBlank_of_isDigit digit, fun member => ?_⟩
  simp only [List.mem_cons, List.not_mem_nil, or_false] at member
  rcases member with rfl | rfl <;> cases digit

theorem numeral_shuts (numeral : Numeral) : Shuts numeral.text := by
  obtain ⟨c, rest, same, -⟩ := numeral.exists_cons
  exact shuts_of_forall (by simp [same]) (numeral_dark numeral)

theorem name_opens {text : List Char} (isName : isName text = true) : Opens text := by
  cases text with
  | nil => cases isName
  | cons c rest =>
      obtain ⟨start, -⟩ := Bool.and_eq_true_iff.1 isName
      refine ⟨c, rest, rfl, isBlank_of_isNameChar (isNameChar_of_isNameStart start), fun member => ?_⟩
      simp only [List.mem_cons, List.not_mem_nil, or_false] at member
      rcases member with rfl | rfl <;> cases start

theorem word_shuts {text : List Char} (word : isWord text = true) : Shuts text := by
  obtain ⟨c, rest, same, -⟩ := exists_cons_of_isWord word
  refine shuts_of_forall (by simp [same]) ?_
  rcases Bool.or_eq_true_iff.1 word with named | isNumeral
  · rw [same] at named ⊢
    obtain ⟨start, all⟩ := Bool.and_eq_true_iff.1 named
    refine List.forall_mem_cons.2 ⟨isBlank_of_isNameChar (isNameChar_of_isNameStart start), ?_⟩
    exact fun d member => isBlank_of_isNameChar (List.all_eq_true.1 all d member)
  · obtain ⟨numeral, rfl⟩ := isNumeral_iff.1 isNumeral
    exact numeral_dark numeral

section

variable {left right : Punct}

theorem IsBracket.opens (isBracket : IsBracket left right) (other : left ≠ .openParen)
    (inner : List Char) : Opens (enclosed left right inner) := by
  cases isBracket with
  | bracket => exact ⟨'[', _, rfl, rfl, by decide⟩
  | brace => exact ⟨'{', _, rfl, rfl, by decide⟩
  | paren => exact absurd rfl other

theorem IsBracket.shuts (isBracket : IsBracket left right) (inner : List Char) :
    Shuts (enclosed left right inner) := by
  have last : Shuts right.symbol := by cases isBracket <;> exact ⟨[], _, rfl, rfl⟩
  exact (last.after inner).after left.symbol

end

/-- A text that opens and shuts. -/
structure Framed (text : List Char) : Prop where
  opens : Opens text
  shuts : Shuts text

theorem framed_number {value : Value} (formed : value.Formed) (number : IsNumber (.literal value)) :
    Framed value.text.toList := by
  obtain ⟨numeral, _, -, ⟨written, -⟩ | ⟨written, -⟩⟩ := exists_number formed number
  · rw [written]
    exact ⟨numeral_opens numeral, numeral_shuts numeral⟩
  · rw [written]
    exact ⟨⟨'-', _, rfl, rfl, by decide⟩, (numeral_shuts numeral).cons '-'⟩

theorem framed_value {value : Value} (formed : value.Formed) : Framed value.text.toList := by
  cases formed with
  | null => exact ⟨⟨'n', _, rfl, rfl, by decide⟩, ⟨['n', 'u', 'l'], 'l', rfl, rfl⟩⟩
  | bool value =>
      cases value with
      | false => exact ⟨⟨'f', _, rfl, rfl, by decide⟩, ⟨['f', 'a', 'l', 's'], 'e', rfl, rfl⟩⟩
      | true => exact ⟨⟨'t', _, rfl, rfl, by decide⟩, ⟨['t', 'r', 'u'], 'e', rfl, rfl⟩⟩
  | int signed => exact framed_number (.int signed) (Or.inl ⟨_, rfl⟩)
  | float canonical => exact framed_number (.float canonical) (Or.inr ⟨_, rfl⟩)
  | string text =>
      rw [Value.text, Value.quote, String.toList_ofList]
      exact ⟨⟨'"', _, rfl, rfl, by decide⟩, '"' :: _, '"', rfl, rfl⟩
  | array =>
      rw [Value.text_array]
      exact ⟨IsBracket.bracket.opens (by decide) _, IsBracket.bracket.shuts _⟩
  | object =>
      rw [Value.text_object]
      exact ⟨IsBracket.brace.opens (by decide) _, IsBracket.brace.shuts _⟩

/-- The root of a path, and the segments after it. -/
theorem exists_front {path : Path} (named : path.Named) :
    ∃ front start segments, path.segments = start ++ segments ∧ Framed front ∧
      path.text.toList = front ++ (Segment.texts false segments).toList := by
  obtain ⟨root, segments⟩ := path
  -- A name after a sigil may begin with a digit, but it has no blanks.
  have sigil {name : String} {c : Char} (isName : IsSigilName name.toList)
      (opens : Opens (c :: name.toList)) : Framed (c :: name.toList) :=
    ⟨opens, (shuts_of_forall isName.1 fun d member => isBlank_of_isNameChar (isName.2 d member)).cons c⟩
  cases root with
  | context =>
      obtain ⟨name, rest, rfl, isName⟩ := named.root
      refine ⟨name.toList, [.name name], rest, rfl, ⟨name_opens isName, ?_⟩, ?_⟩
      · exact word_shuts (by rw [isWord, isName, Bool.true_or])
      · simp [Path.text, Root.text, Segment.texts, Segment.text]
  | relative =>
      refine ⟨['t', 'h', 'i', 's'], [], segments, rfl, ⟨?_, ?_⟩, String.toList_append⟩
      · exact ⟨'t', _, rfl, rfl, by decide⟩
      · exact ⟨['t', 'h', 'i'], 's', rfl, rfl⟩
  | ofAlias name =>
      refine ⟨'#' :: name.toList, [], segments, rfl, sigil named.root ⟨'#', _, rfl, rfl, by decide⟩, ?_⟩
      simp [Path.text, Root.text]
  | ofAttribute name =>
      refine ⟨'@' :: name.toList, [], segments, rfl, sigil named.root ⟨'@', _, rfl, rfl, by decide⟩, ?_⟩
      simp [Path.text, Root.text]

theorem shuts_segments {segments : List Segment}
    (words : ∀ name, .name name ∈ segments → isWord name.toList = true) {front : List Char}
    (shuts : Shuts front) : Shuts (front ++ (Segment.texts false segments).toList) := by
  induction segments generalizing front with
  | nil => simpa [Segment.texts] using shuts
  | cons segment segments ih =>
      have others : ∀ name, .name name ∈ segments → isWord name.toList = true :=
        fun name among => words name (List.mem_cons_of_mem _ among)
      cases segment with
      | name name =>
          have word := ((word_shuts (words name List.mem_cons_self)).cons '.').after front
          simpa [texts_name] using ih others word
      | index index =>
          have close : Shuts [']'] := ⟨[], ']', rfl, rfl⟩
          have shuts := (close.after ('[' :: index.text.toList)).after front
          simpa [texts_index] using ih others shuts

theorem framed_path {path : Path} (named : path.Named) : Framed path.text.toList := by
  obtain ⟨front, start, segments, same, ⟨opens, shuts⟩, text⟩ := exists_front named
  rw [text]
  have words : ∀ name, .name name ∈ segments → isWord name.toList = true :=
    fun name member => named.words name (same ▸ List.mem_append_right start member)
  exact ⟨opens.append _, shuts_segments words shuts⟩

theorem framed_intercalate {separator : List Char} {texts : List (List Char)} (some : texts ≠ [])
    (each : ∀ text ∈ texts, Framed text) : Framed (separator.intercalate texts) := by
  induction texts with
  | nil => exact absurd rfl some
  | cons text texts ih =>
      obtain ⟨framed, each⟩ := List.forall_mem_cons.1 each
      cases texts with
      | nil => rwa [List.intercalate_singleton]
      | cons next texts =>
          rw [List.intercalate_cons_cons, List.append_assoc]
          have others := (ih (List.cons_ne_nil _ _) each).shuts
          exact ⟨framed.opens.append _, (others.after separator).after text⟩

/-- The text of a well formed tree has no blanks around it, and opens no group. -/
theorem framed_expr {tree : Expr} (formed : tree.Formed) : Framed tree.text.toList := by
  induction formed with
  | literal formed => exact framed_value formed
  | path named _ => exact framed_path named
  | call named _ _ =>
      rw [Expr.text_call]
      exact ⟨(framed_path named).opens.append _, (IsBracket.paren.shuts _).after _⟩
  | array =>
      rw [Expr.text_array]
      exact ⟨IsBracket.bracket.opens (by decide) _, IsBracket.bracket.shuts _⟩
  | object =>
      rw [Expr.text_object]
      exact ⟨IsBracket.brace.opens (by decide) _, IsBracket.brace.shuts _⟩
  | @unary punct arg sign _ _ ih =>
      rw [Expr.text_unary]
      have opens : ∀ punct ∈ Punct.unary, Opens punct.symbol := by
        simp only [Punct.unary, List.forall_mem_cons]
        exact ⟨⟨'!', _, rfl, rfl, by decide⟩, ⟨'-', _, rfl, rfl, by decide⟩,
          ⟨'+', _, rfl, rfl, by decide⟩, fun _ member => absurd member List.not_mem_nil⟩
      exact ⟨(opens punct sign).append _, ih.shuts.after _⟩
  | @binary _ _ punct _ _ _ _ _ _ left right =>
      rw [Expr.text_binary]
      exact ⟨left.opens.append _, (((right.shuts.cons ' ').after punct.symbol).cons ' ').after _⟩
  | conditional _ _ _ test _ alternate =>
      rw [Expr.text_conditional]
      have shuts := ((alternate.shuts.cons ' ').cons ':').cons ' '
      exact ⟨test.opens.append _, ((((shuts.after _).cons ' ').cons '?').cons ' ').after _⟩
  | sequence _ _ _ first second rest =>
      rw [Expr.text_sequence]
      refine framed_intercalate (List.cons_ne_nil _ _) (List.forall_mem_map.2 ?_)
      exact List.forall_mem_cons.2 ⟨first, List.forall_mem_cons.2 ⟨second, rest⟩⟩

end Stencil.Printed
