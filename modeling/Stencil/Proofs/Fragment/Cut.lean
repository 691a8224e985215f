import Stencil.Proofs.Bytes
import Stencil.Proofs.Fragment

/-! Where the delimiters of a text are cut, and which cuts fall into a character.

A delimiter is cut before its opening braces, after them, two bytes before the
point of balance and at that point. Only what stands before the last brace decides
whether the third of these offsets lies between two characters.
-/

set_option autoImplicit false

namespace Stencil.Fragment

open Text (byteSize IsBoundary)

/-- The first delimiter of a text: what stands before it, from its opening braces
up to the point of balance, and after that point. -/
structure Delimits (text before inside rest : List Char) : Prop where
  opened : Text.split? opening text = some (before, inside ++ rest)
  closed : balance 2 (inside ++ rest) = some (inside, rest)

/-- The offset of the point of balance. -/
def stop (before inside : List Char) : Nat :=
  byteSize before + 2 + byteSize inside

@[simp] theorem balance_zero (text : List Char) : balance 0 text = some ([], text) := by
  cases text <;> rfl

/-- Balance comes with a closing brace, and not before every open brace has one. -/
theorem exists_concat_of_balance {depth : Nat} {text inside after : List Char}
    (found : balance (depth + 1) text = some (inside, after)) :
    ∃ front, inside = front ++ ['}'] ∧ depth ≤ front.length := by
  induction text generalizing depth inside with
  | nil => exact absurd found (by simp [balance])
  | cons c text ih =>
      obtain ⟨⟨inner, tail⟩, inward, same⟩ := Option.map_eq_some_iff.1 found
      obtain ⟨rfl, rfl⟩ := Prod.mk.inj same
      -- One character closes at most one brace, and only as a closing brace.
      obtain ⟨next, inward, fewer, last⟩ : ∃ next, balance next text = some (inner, tail) ∧
          depth ≤ next ∧ (next = 0 → c = '}') := by
        refine ⟨_, inward, ?_, ?_⟩
        · split
          · omega
          split <;> omega
        · split
          · omega
          split
          · rename_i isClose
            exact fun _ => isClose
          · omega
      cases next with
      | zero =>
          rw [balance_zero] at inward
          cases inward
          exact ⟨[], by rw [last rfl]; rfl, by simpa using fewer⟩
      | succ next =>
          obtain ⟨front, rfl, long⟩ := ih inward
          exact ⟨c :: front, rfl, by rw [List.length_cons]; omega⟩

namespace Delimits

variable {text before inside rest : List Char}

theorem append_eq (delimits : Delimits text before inside rest) :
    before ++ (opening ++ (inside ++ rest)) = text := by
  have whole := Text.split?_append delimits.opened
  rwa [List.append_assoc] at whole

/-- The last brace has a character before it. -/
theorem exists_concat (delimits : Delimits text before inside rest) :
    ∃ content c, inside = content ++ [c, '}'] := by
  obtain ⟨front, rfl, long⟩ := exists_concat_of_balance delimits.closed
  obtain ⟨content, c, rfl⟩ : ∃ content c, front = content ++ [c] := by
    refine ⟨front.dropLast, front.getLast (List.ne_nil_of_length_pos (by omega)), ?_⟩
    exact (List.dropLast_append_getLast _).symm
  exact ⟨content, c, by simp⟩

theorem isBoundary_start (delimits : Delimits text before inside rest) :
    IsBoundary text (byteSize before) := by
  rw [← delimits.append_eq]
  exact Text.isBoundary_append before _

theorem isBoundary_content (delimits : Delimits text before inside rest) :
    IsBoundary text (byteSize before + 2) := by
  have whole := Text.isBoundary_append (before ++ opening) (inside ++ rest)
  rwa [List.append_assoc, delimits.append_eq, Text.byteSize_append] at whole

theorem isBoundary_stop (delimits : Delimits text before inside rest) :
    IsBoundary text (stop before inside) := by
  have whole := Text.isBoundary_append (before ++ (opening ++ inside)) rest
  rw [List.append_assoc, List.append_assoc, delimits.append_eq, Text.byteSize_append,
    Text.byteSize_append, ← Nat.add_assoc] at whole
  exact whole

theorem content_le_stop (delimits : Delimits text before inside rest) :
    byteSize before + 2 ≤ stop before inside - 2 := by
  obtain ⟨content, c, rfl⟩ := delimits.exists_concat
  have single : '}'.utf8Size = 1 := rfl
  have wide := c.utf8Size_pos
  simp only [stop, Text.byteSize_append, Text.byteSize_cons, Text.byteSize_nil]
  omega

/-- The content ends between two characters exactly if the last brace stands after
a character of one byte. -/
theorem isBoundary_iff (delimits : Delimits text before inside rest) :
    IsBoundary text (stop before inside - 2) ↔
      ∃ content c, inside = content ++ [c, '}'] ∧ c.utf8Size = 1 := by
  obtain ⟨content, c, rfl⟩ := delimits.exists_concat
  have single : '}'.utf8Size = 1 := rfl
  have braces : byteSize opening = 2 := rfl
  have whole : (before ++ (opening ++ content)) ++ c :: '}' :: rest = text := by
    simpa using delimits.append_eq
  have size : byteSize (before ++ (opening ++ content)) = byteSize before + 2 + byteSize content := by
    rw [Text.byteSize_append, Text.byteSize_append, braces, Nat.add_assoc]
  have last : stop before (content ++ [c, '}']) - 2 =
      byteSize (before ++ (opening ++ content)) + c.utf8Size - 1 := by
    simp only [stop, size, Text.byteSize_append, Text.byteSize_cons, Text.byteSize_nil]
    omega
  rw [last, ← whole]
  -- The offset lies one byte before the end of the character, whatever its size.
  constructor
  · intro boundary
    refine ⟨content, c, rfl, ?_⟩
    by_contra wide
    have positive := c.utf8Size_pos
    exact Text.not_isBoundary_inside (by omega) (by omega) boundary
  · rintro ⟨other, d, same, narrow⟩
    obtain ⟨rfl, tail⟩ := List.append_inj' same rfl
    obtain ⟨rfl, -⟩ := List.cons.inj tail
    rw [narrow, Nat.add_sub_cancel]
    exact Text.isBoundary_append _ _

theorem isBoundary_iff_content? (delimits : Delimits text before inside rest) :
    IsBoundary text (stop before inside - 2) ↔ ∃ content, content? inside = some content := by
  rw [delimits.isBoundary_iff]
  obtain ⟨content, c, rfl⟩ := delimits.exists_concat
  rw [content?_concat]
  constructor
  · rintro ⟨other, d, same, narrow⟩
    obtain ⟨rfl, tail⟩ := List.append_inj' same rfl
    obtain ⟨rfl, -⟩ := List.cons.inj tail
    exact ⟨content, if_pos narrow⟩
  · rintro ⟨other, found⟩
    by_cases narrow : c.utf8Size = 1
    · exact ⟨content, c, rfl, narrow⟩
    · exact absurd found (by simp [narrow])

theorem unique {before' inside' rest' : List Char} (first : Delimits text before inside rest)
    (second : Delimits text before' inside' rest') :
    before = before' ∧ inside = inside' ∧ rest = rest' := by
  -- Splitting finds one opening, and balance one point after it.
  obtain ⟨rfl, same⟩ := Prod.mk.inj (Option.some.inj (first.opened.symm.trans second.opened))
  have closed := first.closed
  rw [same, second.closed] at closed
  obtain ⟨rfl, rfl⟩ := Prod.mk.inj (Option.some.inj closed)
  exact ⟨rfl, rfl, rfl⟩

/-- The fault of a text with a delimiter is at that delimiter or after it. -/
theorem fault_splitFrom (delimits : Delimits text before inside rest) (whole : String) :
    (splitFrom whole text).fault =
      match content? inside with
      | none => some (.cutCharacter whole)
      | some _ => (splitFrom whole rest).fault := by
  rw [splitFrom_opened whole delimits.opened]
  simp only [delimits.closed]
  cases content? inside with
  | none => rfl
  | some content => cases before <;> rfl

theorem length_lt (delimits : Delimits text before inside rest) : rest.length < text.length := by
  have whole := congrArg List.length delimits.append_eq
  simp only [opening, List.length_append, List.length_cons, List.length_nil] at whole
  omega

end Delimits

/-- A text without a whole delimiter splits without a cut. -/
theorem exists_delimits_of_fault {whole : String} {text : List Char} {named : String}
    (fault : (splitFrom whole text).fault = some (.cutCharacter named)) :
    ∃ before inside rest, Delimits text before inside rest := by
  cases opened : Text.split? opening text with
  | none =>
      rw [splitFrom_unopened whole opened] at fault
      split at fault <;> cases fault
  | some found =>
      obtain ⟨before, after⟩ := found
      cases closed : balance 2 after with
      | none =>
          rw [splitFrom_opened whole opened, closed] at fault
          cases fault
      | some found =>
          obtain ⟨inside, rest⟩ := found
          obtain rfl := balance_append closed
          exact ⟨before, inside, rest, opened, closed⟩

/-- A delimiter of the text, with all before it whole, is cut inside a character. -/
inductive Cut : List Char → Prop where
  | here {text before inside rest : List Char} : Delimits text before inside rest →
      ¬ IsBoundary text (stop before inside - 2) → Cut text
  | later {text before inside rest : List Char} : Delimits text before inside rest →
      IsBoundary text (stop before inside - 2) → Cut rest → Cut text

theorem Delimits.cut_iff {text before inside rest : List Char}
    (delimits : Delimits text before inside rest) :
    Cut text ↔ ¬ IsBoundary text (stop before inside - 2) ∨ Cut rest := by
  constructor
  · intro cut
    cases cut with
    | here other inner =>
        obtain ⟨rfl, rfl, rfl⟩ := delimits.unique other
        exact Or.inl inner
    | later other _ after =>
        obtain ⟨rfl, rfl, rfl⟩ := delimits.unique other
        exact Or.inr after
  · intro either
    by_cases boundary : IsBoundary text (stop before inside - 2)
    · exact .later delimits boundary (either.resolve_left (not_not_intro boundary))
    · exact .here delimits boundary

theorem Cut.exists_delimits {text : List Char} (cut : Cut text) :
    ∃ before inside rest, Delimits text before inside rest := by
  cases cut with
  | here delimits | later delimits => exact ⟨_, _, _, delimits⟩

/-- Splitting fails inside a character exactly at a cut of that kind. -/
theorem fault_eq_cutCharacter_iff (whole : String) (text : List Char) :
    (∃ named, (splitFrom whole text).fault = some (.cutCharacter named)) ↔ Cut text := by
  by_cases delimited : ∃ before inside rest, Delimits text before inside rest
  · obtain ⟨before, inside, rest, delimits⟩ := delimited
    have shorter := delimits.length_lt
    -- After a whole delimiter the rest is split on its own.
    have later := fault_eq_cutCharacter_iff whole rest
    rw [delimits.cut_iff, delimits.isBoundary_iff_content?, delimits.fault_splitFrom]
    cases content? inside with
    | none => simp
    | some content => simpa using later
  · constructor
    · rintro ⟨named, fault⟩
      exact absurd (exists_delimits_of_fault fault) delimited
    · intro cut
      exact absurd cut.exists_delimits delimited
termination_by text.length

end Stencil.Fragment
