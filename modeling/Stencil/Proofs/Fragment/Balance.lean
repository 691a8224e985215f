import Mathlib.Order.Bounds.Basic
import Stencil.Proofs.Fragment.Cut

/-! The offset at which a delimiter ends.

The search for it goes from brace to brace and counts the open ones. From the opening braces
on, it is the first offset up to which as many braces close as open.
-/

set_option autoImplicit false

namespace Stencil

namespace Text

/-- The part before a mark is the shortest with the mark after it. -/
theorem split?_least {mark text before after front back : List Char}
    (found : split? mark text = some (before, after)) (other : front ++ (mark ++ back) = text) :
    before <+: front := by
  induction text generalizing before front with
  | nil =>
      obtain ⟨rest, -, same⟩ := Option.map_eq_some_iff.1 found
      obtain ⟨rfl, -⟩ := Prod.mk.inj same
      exact List.nil_prefix
  | cons c rest ih =>
      simp only [split?] at found
      split at found
      · obtain ⟨rfl, -⟩ := Prod.mk.inj (Option.some.inj found)
        exact List.nil_prefix
      · rename_i unmarked
        obtain ⟨⟨inner, tail⟩, inside, same⟩ := Option.map_eq_some_iff.1 found
        obtain ⟨rfl, rfl⟩ := Prod.mk.inj same
        cases front with
        | nil =>
            rw [List.nil_append] at other
            rw [← other, strip?_append] at unmarked
            cases unmarked
        | cons d front =>
            obtain ⟨rfl, later⟩ := List.cons.inj other
            exact List.cons_prefix_cons.2 ⟨rfl, ih inside later⟩

theorem split?_ne_none {mark : List Char} (front back : List Char) :
    split? mark (front ++ (mark ++ back)) ≠ none := by
  induction front with
  | nil =>
      cases whole : mark ++ back with
      | nil =>
          obtain ⟨rfl, rfl⟩ := List.append_eq_nil_iff.1 whole
          simp [split?, strip?]
      | cons c rest =>
          rw [List.nil_append, split?, ← whole, strip?_append]
          exact Option.some_ne_none _
  | cons c front ih =>
      rw [List.cons_append, split?]
      split
      · exact Option.some_ne_none _
      · simpa using ih

end Text

namespace Fragment

open Text (byteSize fromOffset? offset?)

/-! The search -/

/-- The brace that comes next: whether it closes, and its offset. -/
def nearest? (rest : List Char) : Option (Bool × Nat) :=
  match offset? '}' rest, offset? '{' rest with
  | some closing, some opening =>
      if closing < opening then some (true, closing) else some (false, opening)
  | some closing, none => some (true, closing)
  | none, some opening => some (false, opening)
  | none, none => none

theorem nearest?_lt {rest : List Char} {closes : Bool} {jump : Nat}
    (found : nearest? rest = some (closes, jump)) : jump < byteSize rest := by
  unfold nearest? at found
  split at found
  · rename_i closing opening closed opened
    have first := Text.offset?_lt closed
    have second := Text.offset?_lt opened
    grind
  · rename_i closed _
    cases found
    exact Text.offset?_lt closed
  · rename_i opened
    cases found
    exact Text.offset?_lt opened
  · cases found

theorem nearest?_cons (c : Char) (rest : List Char) : nearest? (c :: rest) =
    if c = '{' then some (false, 0) else if c = '}' then some (true, 0)
    else (nearest? rest).map fun (closes, jump) => (closes, c.utf8Size + jump) := by
  have wide := c.utf8Size_pos
  by_cases isOpen : c = '{'
  · subst isOpen
    cases closed : offset? '}' rest <;> simp [nearest?, offset?, closed]
  by_cases isClose : c = '}'
  · subst isClose
    cases opened : offset? '{' rest <;> simp [nearest?, offset?, opened, wide.ne']
  · -- The size of the character is added on both sides of the comparison.
    cases closed : offset? '}' rest <;> cases opened : offset? '{' rest <;>
      simp [nearest?, offset?, isOpen, isClose, closed, opened, apply_ite]

theorem jump_lt {text : List Char} {offset jump : Nat} {closes : Bool}
    (found : (fromOffset? offset text).bind nearest? = some (closes, jump)) :
    offset + jump < byteSize text := by
  obtain ⟨rest, tail, near⟩ := Option.bind_eq_some_iff.1 found
  obtain ⟨before, rfl, rfl⟩ := Text.append_of_fromOffset? tail
  rw [Text.byteSize_append]
  exact Nat.add_lt_add_left (nearest?_lt near) _

/-- The offset behind the brace that closes the last of the open ones, from an offset on. -/
def search (text : List Char) : (opened offset : Nat) → Option Nat
  | 0, offset => some offset
  | opened + 1, offset =>
      match found : (fromOffset? offset text).bind nearest? with
      | none => none
      | some (closes, jump) =>
          have := jump_lt found
          search text (if closes then opened else opened + 2) (offset + jump + 1)
termination_by _ offset => byteSize text - offset

theorem search_succ (text : List Char) (opened offset : Nat) : search text (opened + 1) offset =
    match (fromOffset? offset text).bind nearest? with
    | none => none
    | some (closes, jump) =>
        search text (if closes then opened else opened + 2) (offset + jump + 1) := by
  rw [search]
  split
  all_goals
    rename_i found
    simp only [found]

/-- A character other than a brace is searched past in the same jump. -/
theorem search_cons (before rest : List Char) (c : Char) (opened : Nat) :
    search (before ++ c :: rest) (opened + 1) (byteSize before) =
      search (before ++ c :: rest) (if c = '{' then opened + 2 else if c = '}' then opened else opened + 1)
        (byteSize (before ++ [c])) := by
  have next := Text.fromOffset?_append (before ++ [c]) rest
  rw [List.append_assoc, List.singleton_append] at next
  have size : byteSize (before ++ [c]) = byteSize before + c.utf8Size := by simp
  rw [search_succ, Text.fromOffset?_append, Option.bind_some, nearest?_cons]
  by_cases isOpen : c = '{'
  · subst isOpen
    simp only [if_true, size]
    rfl
  by_cases isClose : c = '}'
  · subst isClose
    simp only [isOpen, if_true, if_false, size]
    rfl
  · simp only [isOpen, isClose, if_false]
    rw [search_succ, next, Option.bind_some, size]
    cases nearest? rest with
    | none => rfl
    | some found => simp only [Option.map_some, Nat.add_assoc]

/-- The search by offsets finds the end of what balances. -/
theorem search_eq_balance (before rest : List Char) (opened : Nat) :
    search (before ++ rest) opened (byteSize before) =
      (balance opened rest).map fun found => byteSize (before ++ found.1) := by
  induction rest generalizing before opened with
  | nil =>
      cases opened with
      | zero => simp [search]
      | succ opened =>
          rw [search_succ, Text.fromOffset?_append]
          rfl
  | cons c rest ih =>
      cases opened with
      | zero => simp [search]
      | succ opened =>
          have later := ih (before ++ [c])
          rw [List.append_assoc, List.singleton_append] at later
          rw [search_cons, later, balance, Option.map_map]
          simp [Function.comp_def]

/-! Balance -/

/-- Not all open braces have closed. -/
def Unbalanced (opened : Nat) (part : List Char) : Prop :=
  part.count '}' < opened + part.count '{'

/-- A brace changes the number of open ones by what it adds to the counts. -/
theorem count_cons_braces (opened : Nat) (c : Char) (part : List Char) :
    (if c = '{' then opened + 2 else if c = '}' then opened else opened + 1) + part.count '{' +
      (c :: part).count '}' = opened + 1 + (c :: part).count '{' + part.count '}' := by
  simp only [List.count_cons, beq_iff_eq]
  have other : '{' ≠ '}' := by decide
  split
  · rename_i isOpen
    rw [if_neg (isOpen ▸ other)]
    omega
  split <;> omega

theorem unbalanced_cons_iff {opened : Nat} {c : Char} {part : List Char} :
    Unbalanced (opened + 1) (c :: part) ↔
      Unbalanced (if c = '{' then opened + 2 else if c = '}' then opened else opened + 1) part := by
  have counts := count_cons_braces opened c part
  unfold Unbalanced
  omega

theorem unbalanced_of_balance_eq_none {opened : Nat} {text : List Char} (none : balance opened text = none) :
    ∀ part, part <+: text → Unbalanced opened part := by
  induction text generalizing opened with
  | nil =>
      intro part isPrefix
      cases opened with
      | zero => cases none
      | succ opened =>
          rw [List.prefix_nil.1 isPrefix]
          simp [Unbalanced]
  | cons c rest ih =>
      intro part isPrefix
      cases opened with
      | zero => cases none
      | succ opened =>
          rw [balance, Option.map_eq_none_iff] at none
          cases part with
          | nil => simp [Unbalanced]
          | cons d part =>
              obtain ⟨rfl, later⟩ := List.cons_prefix_cons.1 isPrefix
              exact unbalanced_cons_iff.2 (ih none part later)

/-- The text up to the point of balance balances, and no beginning of it does. -/
theorem counts_of_balance {opened : Nat} {text inside after : List Char}
    (found : balance opened text = some (inside, after)) :
    inside.count '}' = opened + inside.count '{' ∧
      ∀ part, part <+: inside → part ≠ inside → Unbalanced opened part := by
  induction text generalizing opened inside with
  | nil =>
      cases opened with
      | zero =>
          cases found
          exact ⟨rfl, fun part isPrefix other => absurd (List.prefix_nil.1 isPrefix) other⟩
      | succ opened => cases found
  | cons c rest ih =>
      cases opened with
      | zero =>
          cases found
          exact ⟨rfl, fun part isPrefix other => absurd (List.prefix_nil.1 isPrefix) other⟩
      | succ opened =>
          obtain ⟨⟨inner, tail⟩, inward, same⟩ := Option.map_eq_some_iff.1 found
          obtain ⟨rfl, rfl⟩ := Prod.mk.inj same
          obtain ⟨even, first⟩ := ih inward
          constructor
          · have counts := count_cons_braces opened c inner
            omega
          · intro part isPrefix other
            cases part with
            | nil => simp [Unbalanced]
            | cons d part =>
                obtain ⟨rfl, later⟩ := List.cons_prefix_cons.1 isPrefix
                exact unbalanced_cons_iff.2 (first part later (by rintro rfl; exact other rfl))

/-! Offsets -/

/-- Two opening braces stand at the offset. -/
def OpensAt (text : List Char) (start : Nat) : Prop :=
  ∃ before after, before ++ (opening ++ after) = text ∧ byteSize before = start

/-- From one offset to the other as many braces close as open. -/
def BalancesAt (text : List Char) (start stop : Nat) : Prop :=
  start < stop ∧ ∃ before part after, before ++ (part ++ after) = text ∧ byteSize before = start ∧
    byteSize (before ++ part) = stop ∧ part.count '}' = part.count '{'

/-- A text is split at its first opening braces. -/
theorem isLeast_opensAt_iff {text : List Char} {start : Nat} : IsLeast {start | OpensAt text start} start ↔
    ∃ before after, Text.split? opening text = some (before, after) ∧ byteSize before = start := by
  have least : ∀ before after, Text.split? opening text = some (before, after) →
      IsLeast {start | OpensAt text start} (byteSize before) := by
    intro before after found
    refine ⟨⟨before, after, by simpa using Text.split?_append found, rfl⟩, ?_⟩
    rintro _ ⟨front, back, same, rfl⟩
    exact Text.byteSize_le_of_prefix (Text.split?_least found same)
  constructor
  · intro first
    cases found : Text.split? opening text with
    | none =>
        obtain ⟨front, back, rfl, -⟩ := first.1
        exact absurd found (Text.split?_ne_none front back)
    | some parts => exact ⟨parts.1, parts.2, rfl, (least parts.1 parts.2 found).unique first⟩
  · rintro ⟨before, after, found, rfl⟩
    exact least before after found

/-- A balanced part begins with both opening braces, and what follows them closes two more
braces than it opens. -/
theorem balancesAt_iff {before after : List Char} {point : Nat} :
    BalancesAt (before ++ (opening ++ after)) (byteSize before) point ↔
      ∃ inside rest, inside ++ rest = after ∧ inside.count '}' = 2 + inside.count '{' ∧
        stop before inside = point := by
  have braces : byteSize opening = 2 := rfl
  constructor
  · rintro ⟨less, front, part, back, whole, size, rfl, even⟩
    obtain ⟨rfl, same⟩ := Text.append_inj_of_byteSize whole size
    -- Before both opening braces have been passed more braces are open than closed.
    match part with
    | [] => simp at less
    | [c] =>
        obtain ⟨rfl, -⟩ := List.cons.inj same
        exact absurd even (by decide)
    | c :: d :: inside =>
        obtain ⟨rfl, tail⟩ := List.cons.inj same
        obtain ⟨rfl, later⟩ := List.cons.inj tail
        refine ⟨inside, back, later, ?_, ?_⟩
        · simp only [List.count_cons, beq_iff_eq, Char.reduceEq, if_false, if_true] at even
          omega
        · have single : '{'.utf8Size = 1 := rfl
          simp only [stop, Text.byteSize_append, Text.byteSize_cons, single]
          omega
  · rintro ⟨inside, rest, rfl, even, rfl⟩
    refine ⟨by unfold stop; omega, before, opening ++ inside, rest, by simp, rfl, ?_, ?_⟩
    · rw [Text.byteSize_append, Text.byteSize_append, braces, ← Nat.add_assoc, stop]
    · rw [List.count_append, List.count_append, even, ← Nat.add_assoc]
      rfl

theorem isLeast_of_balance (before : List Char) {after inside rest : List Char}
    (found : balance 2 after = some (inside, rest)) :
    IsLeast {point | BalancesAt (before ++ (opening ++ after)) (byteSize before) point}
      (stop before inside) := by
  obtain ⟨even, first⟩ := counts_of_balance found
  have whole := balance_append found
  refine ⟨balancesAt_iff.2 ⟨inside, rest, whole, even, rfl⟩, fun point balances => ?_⟩
  obtain ⟨part, back, same, count, rfl⟩ := balancesAt_iff.1 balances
  refine Nat.add_le_add_left (Text.byteSize_le_of_prefix ?_) _
  -- Of two beginnings of the text the one that ends first does not balance.
  rcases List.prefix_or_prefix_of_prefix ⟨rest, whole⟩ ⟨back, same⟩ with later | earlier
  · exact later
  · by_cases equal : part = inside
    · exact equal ▸ List.prefix_rfl
    · exact absurd count (first part earlier equal).ne

theorem not_balancesAt_of_balance (before : List Char) {after : List Char}
    (none : balance 2 after = none) (point : Nat) :
    ¬ BalancesAt (before ++ (opening ++ after)) (byteSize before) point := by
  intro balances
  obtain ⟨part, back, same, count, rfl⟩ := balancesAt_iff.1 balances
  exact absurd count (unbalanced_of_balance_eq_none none part ⟨back, same⟩).ne

section

variable {text before after : List Char} (opened : Text.split? opening text = some (before, after))

include opened

theorem search_opened : search text 2 (byteSize before + 2) =
    (balance 2 after).map fun found => stop before found.1 := by
  have whole := Text.split?_append opened
  have found := search_eq_balance (before ++ opening) after 2
  have braces : byteSize opening = 2 := rfl
  rw [whole] at found
  simpa only [Text.byteSize_append, braces, stop] using found

/-- The search ends at the first point of balance. -/
theorem search_eq_some_iff {point : Nat} : search text 2 (byteSize before + 2) = some point ↔
    IsLeast {point | BalancesAt text (byteSize before) point} point := by
  have whole : before ++ (opening ++ after) = text := by simpa using Text.split?_append opened
  rw [search_opened opened]
  cases closed : balance 2 after with
  | none =>
      have never := fun point => whole ▸ not_balancesAt_of_balance before closed point
      exact iff_of_false (by simp) fun least => never point least.1
  | some found =>
      have least := whole ▸ isLeast_of_balance before closed
      constructor
      · intro same
        cases same
        exact least
      · intro other
        exact congrArg some (least.unique other)

theorem search_eq_none_iff : search text 2 (byteSize before + 2) = none ↔
    ∀ point, ¬ BalancesAt text (byteSize before) point := by
  have whole : before ++ (opening ++ after) = text := by simpa using Text.split?_append opened
  rw [search_opened opened]
  cases closed : balance 2 after with
  | none => exact iff_of_true rfl (whole ▸ not_balancesAt_of_balance before closed)
  | some found =>
      refine iff_of_false (by simp) fun never => ?_
      exact never _ (whole ▸ isLeast_of_balance before closed).1

end

end Fragment

end Stencil
