import Stencil.Expr.Literal
import Stencil.Proofs.Run

/-! Numbers as they are written: digits, a fraction and an exponent.

The reader of numbers takes a numeral and stops after it, unless what follows goes on
with it.
-/

set_option autoImplicit false

namespace Stencil.Token

open Text (takeWhile_append_of_stop dropWhile_append_of_stop)

/-- At least one digit. -/
structure IsDigits (text : List Char) : Prop where
  some : text ≠ []
  all : ∀ c ∈ text, c.isDigit = true

theorem IsDigits.zeros_append {written : List Char} (digits : IsDigits written) (zeros : Nat) :
    IsDigits (List.replicate zeros '0' ++ written) ∧ IsDigits (written ++ List.replicate zeros '0') := by
  have zero : ∀ c ∈ List.replicate zeros '0', c.isDigit = true := by
    intro c member
    rw [List.eq_of_mem_replicate member]
    rfl
  refine ⟨⟨by simp [digits.some], ?_⟩, ⟨by simp [digits.some], ?_⟩⟩
  · intro c member
    exact (List.mem_append.1 member).elim (zero c) (digits.all c)
  · intro c member
    exact (List.mem_append.1 member).elim (digits.all c) (zero c)

theorem IsDigits.of_sublist {written part : List Char} (digits : IsDigits written)
    (some : part ≠ []) (among : part.Sublist written) : IsDigits part :=
  ⟨some, fun c member => digits.all c (among.subset member)⟩

inductive IsFraction : List Char → Prop where
  | none : IsFraction []
  | digits {digits : List Char} : IsDigits digits → IsFraction ('.' :: digits)

def IsMark (c : Char) : Prop :=
  c = 'e' ∨ c = 'E'

def IsSign (c : Char) : Prop :=
  c = '+' ∨ c = '-'

inductive IsExponent : List Char → Prop where
  | none : IsExponent []
  | unsigned {mark : Char} {digits : List Char} :
      IsMark mark → IsDigits digits → IsExponent (mark :: digits)
  | signed {mark sign : Char} {digits : List Char} :
      IsMark mark → IsSign sign → IsDigits digits → IsExponent (mark :: sign :: digits)

/-- The parts of a written number. -/
structure Numeral where
  whole : List Char
  fraction : List Char
  exponent : List Char
  wholeDigits : IsDigits whole
  isFraction : IsFraction fraction
  isExponent : IsExponent exponent

def Numeral.text (numeral : Numeral) : List Char :=
  numeral.whole ++ (numeral.fraction ++ numeral.exponent)

theorem Numeral.exists_cons (numeral : Numeral) :
    ∃ c rest, numeral.text = c :: rest ∧ c.isDigit = true := by
  obtain ⟨whole, fraction, exponent, wholeDigits, isFraction, isExponent⟩ := numeral
  cases whole with
  | nil => exact absurd rfl wholeDigits.some
  | cons c whole => exact ⟨c, _, rfl, wholeDigits.all c List.mem_cons_self⟩

/-- What stands after a number does not go on with it. A point before a digit would go
on with digits alone. -/
structure EndsNumeral (numeral : Numeral) (rest : List Char) : Prop where
  digit : ∀ c ∈ rest.head?, c.isDigit = false
  mark : ∀ c ∈ rest.head?, ¬ IsMark c
  point : numeral.fraction = [] → numeral.exponent = [] →
    ∀ d after, rest = '.' :: d :: after → d.isDigit = false

theorem IsMark.not_isDigit {mark : Char} (isMark : IsMark mark) : mark.isDigit = false := by
  rcases isMark with rfl | rfl <;> rfl

section

variable {text rest : List Char}

theorem readExponentDigits_append_of_digits (mark : List Char) (digits : IsDigits text)
    (stop : ∀ c ∈ rest.head?, c.isDigit = false) :
    readExponentDigits mark (text ++ rest) = some (mark ++ text, rest) := by
  have filled : text.isEmpty = false := by simpa using digits.some
  simp only [readExponentDigits, takeWhile_append_of_stop digits.all stop,
    dropWhile_append_of_stop digits.all stop, filled, Bool.false_eq_true, if_false]

theorem readExponent_append_of_isExponent (exponent : IsExponent text)
    (stop : ∀ c ∈ rest.head?, c.isDigit = false)
    (unmarked : text = [] → ∀ c ∈ rest.head?, ¬ IsMark c) :
    readExponent (text ++ rest) = (text, rest) := by
  cases exponent with
  | none =>
      cases rest with
      | nil => rfl
      | cons c rest =>
          have other : ¬ (c = 'e' ∨ c = 'E') := unmarked rfl c rfl
          simp [readExponent, other]
  | @unsigned mark digits isMark isDigits =>
      have marked : mark = 'e' ∨ mark = 'E' := isMark
      cases digits with
      | nil => exact absurd rfl isDigits.some
      | cons d digits =>
          have digit := isDigits.all d List.mem_cons_self
          have other : ¬ (d = '+' ∨ d = '-') := by
            rintro (rfl | rfl) <;> cases digit
          have read := readExponentDigits_append_of_digits [mark] isDigits stop
          rw [List.cons_append] at read
          simp [readExponent, marked, other, read]
  | @signed mark sign digits isMark isSign isDigits =>
      have marked : mark = 'e' ∨ mark = 'E' := isMark
      have signed : sign = '+' ∨ sign = '-' := isSign
      have read := readExponentDigits_append_of_digits [mark, sign] isDigits stop
      simp [readExponent, marked, signed, read]

theorem readFraction_append_of_isFraction (fraction : IsFraction text)
    (stop : ∀ c ∈ rest.head?, c.isDigit = false)
    (point : text = [] → ∀ d after, rest = '.' :: d :: after → d.isDigit = false) :
    readFraction (text ++ rest) = (text, rest) := by
  cases fraction with
  | none =>
      rw [List.nil_append]
      fun_cases readFraction rest with
      | case1 d after digit => exact absurd (digit.symm.trans (point rfl d after rfl)) (by simp)
      | case2 => rfl
      | case3 => rfl
  | @digits digits isDigits =>
      cases digits with
      | nil => exact absurd rfl isDigits.some
      | cons d digits =>
          have digit := isDigits.all d List.mem_cons_self
          have others : ∀ c ∈ digits, c.isDigit = true :=
            fun c member => isDigits.all c (List.mem_cons_of_mem d member)
          simp [readFraction, digit, takeWhile_append_of_stop others stop,
            dropWhile_append_of_stop others stop]

end

theorem endsNumeral_nil (numeral : Numeral) : EndsNumeral numeral [] where
  digit _ none := by cases none
  mark _ none := by cases none
  point _ _ _ _ none := by cases none

/-- The digits of a numeral end at its fraction, and this at its exponent. -/
theorem readFraction_numeral {numeral : Numeral} {rest : List Char} (ends : EndsNumeral numeral rest) :
    (numeral.text ++ rest).takeWhile Char.isDigit = numeral.whole ∧
      readFraction ((numeral.text ++ rest).dropWhile Char.isDigit) =
        (numeral.fraction, numeral.exponent ++ rest) := by
  obtain ⟨whole, fraction, exponent, wholeDigits, isFraction, isExponent⟩ := numeral
  have point := ends.point
  simp only at point
  simp only [Numeral.text, List.append_assoc]
  have afterFraction : ∀ c ∈ (exponent ++ rest).head?, c.isDigit = false := by
    cases isExponent with
    | none => exact ends.digit
    | unsigned isMark _ => exact Text.stop_cons isMark.not_isDigit _
    | signed isMark _ _ => exact Text.stop_cons isMark.not_isDigit _
  have afterWhole : ∀ c ∈ (fraction ++ (exponent ++ rest)).head?, c.isDigit = false := by
    cases isFraction with
    | none => exact afterFraction
    | digits _ => exact Text.stop_cons rfl _
  -- No point follows digits alone, and none follows a mark.
  have noPoint : fraction = [] → ∀ d after, exponent ++ rest = '.' :: d :: after → d.isDigit = false := by
    intro noFraction d after same
    cases isExponent with
    | none => exact point noFraction rfl d after same
    | unsigned isMark _ => rcases isMark with rfl | rfl <;> cases same
    | signed isMark _ _ => rcases isMark with rfl | rfl <;> cases same
  refine ⟨takeWhile_append_of_stop wholeDigits.all afterWhole, ?_⟩
  rw [dropWhile_append_of_stop wholeDigits.all afterWhole]
  exact readFraction_append_of_isFraction isFraction afterFraction noPoint

/-- A numeral is taken whole. -/
theorem readNumber_append_of_ends {numeral : Numeral} {rest : List Char}
    (ends : EndsNumeral numeral rest) : readNumber (numeral.text ++ rest) = (numeral.text, rest) := by
  obtain ⟨whole, fraction⟩ := readFraction_numeral ends
  have exponent := readExponent_append_of_isExponent numeral.isExponent ends.digit fun _ => ends.mark
  simp only [readNumber, whole, fraction, exponent]
  simp only [Numeral.text, List.append_assoc]

theorem isDigits_takeWhile {text : List Char} (some : text.takeWhile Char.isDigit ≠ []) :
    IsDigits (text.takeWhile Char.isDigit) :=
  ⟨some, List.all_eq_true.1 List.all_takeWhile⟩

theorem isFraction_readFraction (text : List Char) : IsFraction (readFraction text).1 := by
  fun_cases readFraction text with
  | case1 d rest digit =>
      have filled : (d :: rest).takeWhile Char.isDigit ≠ [] := by simp [digit]
      have all := isDigits_takeWhile filled
      rw [List.takeWhile_cons_of_pos digit] at all
      exact .digits all
  | case2 => exact .none
  | case3 => exact .none

theorem isDigits_of_readExponentDigits {mark text exponent after : List Char}
    (read : readExponentDigits mark text = some (exponent, after)) :
    ∃ digits, exponent = mark ++ digits ∧ IsDigits digits := by
  simp only [readExponentDigits] at read
  split at read
  · cases read
  · rename_i filled
    cases read
    exact ⟨_, rfl, isDigits_takeWhile (by simpa using filled)⟩

theorem isExponent_readExponent (text : List Char) : IsExponent (readExponent text).1 := by
  unfold readExponent
  split
  · exact .none
  rename_i mark rest
  split
  · rename_i marked
    have isMark : IsMark mark := by simpa [IsMark] using marked
    split
    · exact .none
    rename_i sign digits
    split
    · rename_i signed
      have isSign : IsSign sign := by simpa [IsSign] using signed
      cases read : readExponentDigits [mark, sign] digits with
      | none => exact .none
      | some pair =>
          obtain ⟨written, same, isDigits⟩ := isDigits_of_readExponentDigits read
          rw [Option.getD_some, same]
          exact .signed isMark isSign isDigits
    · cases read : readExponentDigits [mark] (sign :: digits) with
      | none => exact .none
      | some pair =>
          obtain ⟨written, same, isDigits⟩ := isDigits_of_readExponentDigits read
          rw [Option.getD_some, same]
          exact .unsigned isMark isDigits
  · exact .none

/-- What is read as a number is a numeral. -/
theorem exists_numeral {c : Char} (digit : c.isDigit = true) (rest : List Char) :
    ∃ numeral : Numeral, (readNumber (c :: rest)).1 = numeral.text := by
  have filled : (c :: rest).takeWhile Char.isDigit ≠ [] := by simp [digit]
  exact ⟨⟨_, _, _, isDigits_takeWhile filled, isFraction_readFraction _, isExponent_readExponent _⟩,
    List.append_assoc _ _ _⟩

/-- The power of ten that an exponent stands for. -/
def power : List Char → Int
  | _ :: '-' :: magnitude => -(Text.ofDecimal magnitude)
  | _ :: '+' :: magnitude => Text.ofDecimal magnitude
  | _ :: magnitude => Text.ofDecimal magnitude
  | [] => 0

/-- A numeral reads as a decimal: its digits, and the power of ten that they count. -/
theorem ofText?_numeral (negative : Bool) (numeral : Numeral) :
    Double.ofText? negative numeral.text =
      Double.ofDecimal? negative (Text.ofDecimal (numeral.whole ++ numeral.fraction.drop 1))
        (power numeral.exponent - (numeral.fraction.length - 1 : Nat)) := by
  obtain ⟨whole, fraction⟩ := readFraction_numeral (endsNumeral_nil numeral)
  rw [List.append_nil] at whole fraction
  simp only [Double.ofText?, whole, fraction, List.append_nil]
  rfl

/-- A numeral is made of digits alone if it has neither a fraction nor an exponent. -/
theorem all_isDigit_numeral (numeral : Numeral) :
    numeral.text.all Char.isDigit = true ↔ numeral.fraction = [] ∧ numeral.exponent = [] := by
  obtain ⟨whole, fraction, exponent, wholeDigits, isFraction, isExponent⟩ := numeral
  have digits : whole.all Char.isDigit = true := List.all_eq_true.2 wholeDigits.all
  simp only [Numeral.text, List.all_append, digits, Bool.true_and, Bool.and_eq_true]
  constructor
  · rintro ⟨noPoint, noMark⟩
    constructor
    · cases isFraction with
      | none => rfl
      | digits => cases noPoint
    · cases isExponent with
      | none => rfl
      | unsigned isMark => rcases isMark with rfl | rfl <;> cases noMark
      | signed isMark => rcases isMark with rfl | rfl <;> cases noMark
  · rintro ⟨rfl, rfl⟩
    exact ⟨rfl, rfl⟩

end Stencil.Token
