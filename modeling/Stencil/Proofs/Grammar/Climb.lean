import Stencil.Proofs.Gather
import Stencil.Proofs.Grammar.Rules

/-! Climbing through the operators, level by level.

A parser for each level of operators takes operands of the tighter levels, joined to the left.
One loop that compares how tightly operators bind takes the same tokens and joins them in the
same way: what it takes at one level is what it takes at the next one, with the operators of the
level between.
-/

set_option autoImplicit false

namespace Stencil.Grammar

variable {source : Source}

/-- Operators of one level and operands after a left operand, which they take
one after another. -/
def Source.chainFrom (source : Source) (operators : List Punct) (operand : Parser Expr) (left : Expr)
    (tokens : List Token) : Except SyntaxError (Parsed Expr (tokens.length + 1)) :=
  match tokens with
  | .punct p :: rest =>
      if p ∈ operators then do
        source.take rest
        let right ← operand rest
        have := right.fewer
        let whole ← chainFrom source operators operand (.operator p.text [left, right.value]) right.rest
        pure (whole.widen (by simp only [List.length_cons]; omega))
      else pure ⟨left, .punct p :: rest, by simp⟩
  | tokens => pure ⟨left, tokens, by simp⟩
termination_by tokens.length

/-- Operands joined by left associative operators of one level. -/
def Source.chain (source : Source) (operators : List Punct) (operand : Parser Expr) : Parser Expr :=
  fun tokens => do
    let first ← operand tokens
    let whole ← source.chainFrom operators operand first.value first.rest
    pure (whole.widen first.fewer)

section

variable {α β : Type}

/-- The value and the tokens after it, without their bound. -/
def outcome {bound : Nat} (result : Except SyntaxError (Parsed α bound)) :
    Except SyntaxError (α × List Token) :=
  result.map fun parsed => (parsed.value, parsed.rest)

theorem outcome_eq_ok_iff {bound : Nat} {result : Except SyntaxError (Parsed α bound)} {value : α}
    {rest : List Token} :
    outcome result = .ok (value, rest) ↔ ∃ fewer, result = .ok ⟨value, rest, fewer⟩ := by
  constructor
  · intro found
    cases result with
    | error fault => cases found
    | ok parsed =>
        cases found
        exact ⟨parsed.fewer, rfl⟩
  · rintro ⟨fewer, rfl⟩
    rfl

theorem outcome_eq_error_iff {bound : Nat} {result : Except SyntaxError (Parsed α bound)}
    {fault : SyntaxError} : outcome result = .error fault ↔ result = .error fault := by
  cases result with
  | error other => simp [outcome, Except.map]
  | ok parsed => simp [outcome, Except.map]

@[simp] theorem outcome_widen {bound wider : Nat} (result : Except SyntaxError (Parsed α bound))
    (le : bound ≤ wider) :
    outcome (result >>= fun parsed => pure (parsed.widen le)) = outcome result := by
  cases result <;> rfl

/-- The bound says nothing that the outcome does not. -/
theorem outcome_injective {bound : Nat} {first second : Except SyntaxError (Parsed α bound)}
    (same : outcome first = outcome second) : first = second := by
  cases second with
  | error fault => exact outcome_eq_error_iff.1 same
  | ok parsed =>
      obtain ⟨_, found⟩ := outcome_eq_ok_iff.1 same
      exact found

theorem outcome_bind {bound wider : Nat} (result : Except SyntaxError (Parsed α bound))
    (next : Parsed α bound → Except SyntaxError (Parsed β wider))
    (after : α × List Token → Except SyntaxError (β × List Token))
    (same : ∀ parsed, outcome (next parsed) = after (parsed.value, parsed.rest)) :
    outcome (result >>= next) = outcome result >>= after := by
  cases result with
  | error => rfl
  | ok parsed => exact same parsed

/-- What comes after a step is looked at only if the step gives something. -/
theorem bind_congr_of_ok {result : Except SyntaxError (α × List Token)}
    {next other : α × List Token → Except SyntaxError β}
    (same : ∀ value rest, result = .ok (value, rest) → next (value, rest) = other (value, rest)) :
    result >>= next = result >>= other := by
  cases result with
  | error => rfl
  | ok found => exact same found.1 found.2 rfl

theorem outcome_take {bound : Nat} (rest : List Token)
    (next : Except SyntaxError (Parsed α bound)) :
    outcome (source.take rest >>= fun _ => next) = source.take rest >>= fun _ => outcome next := by
  cases source.take rest <;> rfl

end

section

variable {operand : Parser Expr} {operators : List Punct} {least level : Nat} {left : Expr}
  {punct : Punct} {tokens rest : List Token}

theorem outcome_chain (tokens : List Token) :
    outcome (source.chain operators operand tokens) =
      outcome (operand tokens) >>= fun first =>
        outcome (source.chainFrom operators operand first.1 first.2) := by
  unfold Source.chain
  exact outcome_bind _ _ _ fun _ => outcome_widen _ _

theorem outcome_chainFrom (member : punct ∈ operators) :
    outcome (source.chainFrom operators operand left (.punct punct :: rest)) =
      source.take rest >>= fun _ => outcome (operand rest) >>= fun right =>
        outcome (source.chainFrom operators operand (.operator punct.text [left, right.1]) right.2) := by
  rw [Source.chainFrom, if_pos member, outcome_take]
  congr 1
  funext _
  exact outcome_bind _ _ _ fun _ => outcome_widen _ _

theorem chainFrom_stops (stops : ∀ punct ∈ operators, tokens.head? ≠ some (.punct punct)) :
    outcome (source.chainFrom operators operand left tokens) = .ok (left, tokens) := by
  rw [Source.chainFrom.eq_def]
  split
  · rename_i punct rest
    rw [if_neg fun member => stops punct member rfl]
    rfl
  · rfl

/-- Tokens that start with an operator which binds at least as tightly as asked for. -/
def Binds (least : Nat) (tokens : List Token) : Prop :=
  ∃ punct rest level, tokens = .punct punct :: rest ∧ punct.precedence? = some level ∧ least ≤ level

theorem outcome_binary (tokens : List Token) :
    outcome (source.binary operand least tokens) =
      outcome (operand tokens) >>= fun first =>
        outcome (source.climb operand least first.1 first.2) := by
  rw [Source.binary]
  exact outcome_bind _ _ _ fun _ => outcome_widen _ _

theorem outcome_climb (binds : punct.precedence? = some level) (within : least ≤ level) :
    outcome (source.climb operand least left (.punct punct :: rest)) =
      source.take rest >>= fun _ => outcome (source.binary operand (level + 1) rest) >>= fun right =>
        outcome (source.climb operand least (.operator punct.text [left, right.1]) right.2) := by
  rw [Source.climb]
  simp only [binds, if_pos within]
  rw [outcome_take]
  congr 1
  funext _
  exact outcome_bind _ _ _ fun _ => outcome_widen _ _

theorem climb_stops (stops : ¬ Binds least tokens) :
    outcome (source.climb operand least left tokens) = .ok (left, tokens) := by
  rw [Source.climb.eq_def]
  split
  · rename_i punct rest
    split
    · rename_i level binds
      rw [if_neg fun within => stops ⟨punct, rest, level, rfl, binds, within⟩]
      rfl
    · rfl
  · rfl

/-- What climbing leaves starts with no operator that it takes. -/
theorem not_binds_of_climb {value : Expr}
    (passed : outcome (source.climb operand least left tokens) = .ok (value, rest)) :
    ¬ Binds least rest := by
  induction size : tokens.length using Nat.strongRecOn generalizing left tokens with
  | ind size ih =>
      by_cases binds : Binds least tokens
      · obtain ⟨punct, others, level, rfl, binds, within⟩ := binds
        rw [outcome_climb binds within] at passed
        obtain ⟨_, -, passed⟩ := bind_eq_ok_iff.1 passed
        obtain ⟨⟨right, after⟩, found, passed⟩ := bind_eq_ok_iff.1 passed
        obtain ⟨fewer, -⟩ := outcome_eq_ok_iff.1 found
        exact ih after.length (by simp only [← size, List.length_cons]; omega) passed rfl
      · rw [climb_stops binds] at passed
        cases passed
        exact binds

theorem not_binds_of_binary {value : Expr}
    (passed : outcome (source.binary operand least tokens) = .ok (value, rest)) :
    ¬ Binds least rest := by
  rw [outcome_binary] at passed
  obtain ⟨first, -, climbed⟩ := bind_eq_ok_iff.1 passed
  exact not_binds_of_climb climbed

/-- Climbing at one level is climbing at the next one, and then joining what it gives by the
operators of the level between. -/
theorem outcome_climb_succ (levelled : ∀ punct, punct ∈ operators ↔ punct.precedence? = some least)
    (left : Expr) (tokens : List Token) :
    outcome (source.climb operand least left tokens) =
      outcome (source.climb operand (least + 1) left tokens) >>= fun first =>
        outcome (source.chainFrom operators (source.binary operand (least + 1)) first.1 first.2) := by
  obtain ⟨bound, size⟩ : ∃ bound, tokens.length = bound := ⟨_, rfl⟩
  induction bound using Nat.strongRecOn generalizing left tokens with
  | ind bound ih =>
      by_cases binds : Binds least tokens
      · obtain ⟨punct, rest, level, rfl, binds, within⟩ := binds
        rw [outcome_climb binds within]
        rcases Nat.eq_or_lt_of_le within with rfl | tighter
        · -- An operator of the level itself: the tighter ones after it go to its right side.
          have stops : ¬ Binds (least + 1) (.punct punct :: rest) := by
            rintro ⟨_, _, level, same, also, more⟩
            cases same
            cases binds.symm.trans also
            omega
          rw [climb_stops stops]
          change _ = outcome (source.chainFrom _ _ _ _)
          rw [outcome_chainFrom ((levelled punct).2 binds)]
          refine bind_congr fun _ => bind_congr_of_ok fun right after found => ?_
          obtain ⟨fewer, -⟩ := outcome_eq_ok_iff.1 found
          rw [ih after.length (by simp only [← size, List.length_cons]; omega) _ after rfl,
            climb_stops (not_binds_of_binary found)]
          rfl
        · -- A tighter one: both climb over it, and go on after its right side.
          rw [outcome_climb binds (Nat.succ_le_of_lt tighter), bind_assoc]
          refine bind_congr fun _ => ?_
          rw [bind_assoc]
          refine bind_congr_of_ok fun right after found => ?_
          obtain ⟨fewer, -⟩ := outcome_eq_ok_iff.1 found
          exact ih after.length (by simp only [← size, List.length_cons]; omega) _ after rfl
      · have further : ¬ Binds (least + 1) tokens := by
          rintro ⟨punct, rest, level, same, here, more⟩
          exact binds ⟨punct, rest, level, same, here, by omega⟩
        rw [climb_stops binds, climb_stops further]
        change _ = outcome (source.chainFrom _ _ _ _)
        refine (chainFrom_stops fun punct member starts => ?_).symm
        obtain ⟨rest, rfl⟩ := List.head?_eq_some_iff.1 starts
        exact binds ⟨punct, rest, least, rfl, (levelled punct).1 member, Nat.le_refl least⟩

/-- Operands and operators from one level on are chains of what stands at the next level. -/
theorem binary_eq_chain (source : Source) (operand : Parser Expr)
    (levelled : ∀ punct, punct ∈ operators ↔ punct.precedence? = some least) :
    source.binary operand least = source.chain operators (source.binary operand (least + 1)) := by
  funext tokens
  apply outcome_injective
  rw [outcome_chain, outcome_binary, outcome_binary, bind_assoc]
  congr 1
  funext first
  exact outcome_climb_succ levelled first.1 first.2

/-- Operators by level, from one level on to the tightest. -/
inductive Levelled : Nat → List (List Punct) → Prop where
  | nil {least : Nat} : (∀ punct level, Punct.precedence? punct = some level → level < least) →
      Levelled least []
  | cons {least : Nat} {operators : List Punct} {levels : List (List Punct)} :
      (∀ punct, punct ∈ operators ↔ punct.precedence? = some least) → Levelled (least + 1) levels →
      Levelled least (operators :: levels)

theorem levelled_levels : Levelled 1 Punct.levels := by
  refine .cons ?_ (.cons ?_ (.cons ?_ (.cons ?_ (.cons ?_ (.cons ?_ (.nil ?_))))))
  all_goals intro punct; cases punct <;> simp [Punct.precedence?]

theorem Levelled.binary_eq {levels : List (List Punct)} (levelled : Levelled least levels)
    (source : Source) (operand : Parser Expr) :
    source.binary operand least = levels.foldr source.chain operand := by
  induction levelled with
  | @nil least tightest =>
      funext tokens
      apply outcome_injective
      have stops (rest : List Token) : ¬ Binds least rest := by
        rintro ⟨punct, _, level, -, binds, within⟩
        exact absurd (tightest punct level binds) (Nat.not_lt.2 within)
      change _ = outcome (operand tokens)
      rw [outcome_binary]
      cases outcome (operand tokens) with
      | error => rfl
      | ok first => exact climb_stops (stops first.2)
  | cons here _ ih => exact (binary_eq_chain source operand here).trans (congrArg _ ih)

/-- The loop reads what the parsers of the six levels read, one inside the other. -/
theorem binary_eq_foldr_chain (source : Source) (operand : Parser Expr) :
    source.binary operand 1 = Punct.levels.foldr source.chain operand :=
  levelled_levels.binary_eq source operand

end

end Stencil.Grammar
