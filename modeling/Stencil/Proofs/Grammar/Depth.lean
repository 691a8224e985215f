import Mathlib.Logic.Function.Iterate
import Stencil.Proofs.Grammar.Acceptance
import Stencil.Proofs.Token.Identifier

/-! How deep tokens nest.

A pair of brackets takes two levels, since the operand and the conditional in it take one
each; a sign and an alternative take one. Operators of all levels and commas take none.
Where the levels run out, all rules around that place fail with the same fault.
-/

set_option autoImplicit false

namespace Stencil.Grammar

/-! What nests. -/

section

variable {depth : Nat} {tokens : List Token} {tree : Expr} {name : String}

theorem unary_name (unreserved : name ∉ reservedWords) (depth : Nat) :
    (nested (depth + 1)).unary [.identifier name] (.ofName name) := by
  obtain ⟨plain, other⟩ := not_mem_reservedWords_iff.1 unreserved
  exact .operand (.path (.name plain other) .nil)

/-- Brackets take two levels. -/
theorem DerivesWithin.group (derived : DerivesWithin depth tokens tree) :
    DerivesWithin (depth + 2) (.punct .openParen :: (tokens ++ [.punct .closeParen])) tree :=
  .one (conditional_of_unary (.operand (.group derived)))

theorem unary_not (derived : (nested depth).unary tokens tree) :
    (nested (depth + 1)).unary (.punct .not :: tokens) (.operator "!" [tree]) :=
  .operator (by decide) derived (by simp)

/-- An alternative takes a level, also where test and consequent take none. -/
theorem conditional_choice {test consequent : List Token} {first second : Expr}
    (tested : (nested depth).unary test first) (chosen : (nested depth).conditional consequent second)
    (derived : (nested depth).conditional tokens tree) :
    (nested (depth + 1)).conditional
      (test ++ .punct .question :: (consequent ++ .punct .colon :: tokens))
      (.operator Operator.conditional [first, second, tree]) :=
  .choice (.of_unary tested _) chosen derived

end

/-! What does not. -/

section

variable {unary : Rule Expr} {levels : List (List Punct)} {left right : List Token} {punct : Punct}
  {first second : Expr}

/-- A chain of operators goes on with any operator. -/
theorem BinaryOf.append (derived : BinaryOf unary levels left first) (member : punct ∈ levels.flatten)
    (operand : unary right second) : ∃ tree, BinaryOf unary levels (left ++ .punct punct :: right) tree := by
  induction derived with
  | operand => exact absurd member List.not_mem_nil
  | @tighter operators levels _ _ derived ih =>
      rcases List.mem_append.1 member with here | later
      · exact ⟨_, .join here (.tighter derived) (.of_unary operand _)⟩
      · obtain ⟨tree, derived⟩ := ih later
        exact ⟨tree, .tighter derived⟩
  | @join operators levels mark left tokens _ _ among derived follows _ ih =>
      rcases List.mem_append.1 member with here | later
      · exact ⟨_, .join here (.join among derived follows) (.of_unary operand _)⟩
      · -- A tighter operator goes on with the right side alone.
        obtain ⟨tree, follows⟩ := ih later
        rw [List.append_assoc, List.cons_append]
        exact ⟨_, .join among derived follows⟩

/-- A list of such chains goes on with any operator, or with a comma. -/
theorem Separated.append {values : List Expr} (derived : Separated (BinaryOf unary levels) left values)
    (member : punct ∈ .comma :: levels.flatten) (operand : unary right second) :
    ∃ values, Separated (BinaryOf unary levels) (left ++ .punct punct :: right) values := by
  induction derived with
  | one derived =>
      rcases List.mem_cons.1 member with rfl | among
      · exact ⟨_, .cons derived (.one (.of_unary operand _))⟩
      · obtain ⟨tree, derived⟩ := derived.append among operand
        exact ⟨_, .one derived⟩
  | cons derived _ ih =>
      obtain ⟨values, separated⟩ := ih
      rw [List.append_assoc, List.cons_append]
      exact ⟨_, .cons derived separated⟩

/-- The tokens after the first operand of a chain: marks, and operands between them. -/
def chainTokens (links : List (Punct × String)) : List Token :=
  links.flatMap fun link => [.punct link.1, .identifier link.2]

theorem Separated.append_chain {links : List (Punct × String)} {values : List Expr}
    (derived : Separated (BinaryOf unary levels) left values)
    (each : ∀ link ∈ links, link.1 ∈ .comma :: levels.flatten ∧
      unary [.identifier link.2] (.ofName link.2)) :
    ∃ values, Separated (BinaryOf unary levels) (left ++ chainTokens links) values := by
  induction links generalizing left values with
  | nil => exact ⟨values, by simpa [chainTokens] using derived⟩
  | cons link links ih =>
      obtain ⟨⟨member, operand⟩, each⟩ := List.forall_mem_cons.1 each
      obtain ⟨values, longer⟩ := derived.append member operand
      have whole := ih longer each
      rwa [List.append_assoc] at whole

theorem Separated.mono {α : Type} {item other : Rule α} {tokens : List Token} {values : List α}
    (derived : Separated item tokens values) (imp : ∀ tokens value, item tokens value → other tokens value) :
    Separated other tokens values := by
  induction derived with
  | one derived => exact .one (imp _ _ derived)
  | cons derived _ ih => exact .cons (imp _ _ derived) ih

theorem Separated.exists_sequence {conditional : Rule Expr} {tokens : List Token} {values : List Expr}
    (derived : Separated conditional tokens values) : ∃ tree, SequenceOf conditional tokens tree := by
  cases derived with
  | one derived => exact ⟨_, .one derived⟩
  | cons derived separated => exact ⟨_, .more derived separated⟩

/-- A flat chain nests no deeper than one of its operands. -/
theorem exists_derivesWithin_chain {depth : Nat} {links : List (Punct × String)}
    (operand : (nested depth).unary left first)
    (each : ∀ link ∈ links, link.1 ∈ .comma :: Punct.levels.flatten ∧
      (nested depth).unary [.identifier link.2] (.ofName link.2)) :
    ∃ tree, DerivesWithin (depth + 1) (left ++ chainTokens links) tree := by
  have start : Separated (BinaryOf (nested depth).unary Punct.levels) left [first] :=
    .one (.of_unary operand _)
  obtain ⟨values, whole⟩ := start.append_chain each
  exact (whole.mono fun _ _ derived => .test derived).exists_sequence

end

/-! Where the depth runs out. -/

section

variable {α β : Type} {source : Source}

/-- No levels are left before there is a result. -/
def RunsOut {bound : Nat} (source : Source) (result : Except SyntaxError (Parsed α bound)) : Prop :=
  result = .error (source.error .tooDeep)

theorem RunsOut.bind {bound : Nat} {result : Except SyntaxError (Parsed α bound)}
    (deep : RunsOut source result) (next : Parsed α bound → Except SyntaxError β) :
    (result >>= next) = .error (source.error .tooDeep) :=
  congrArg (· >>= next) deep

/-- What comes after a step that is taken may run out. -/
theorem Reaches.runsOut {bound wider : Nat} {deep : Prop} {result : Except SyntaxError (Parsed α bound)}
    {next : Parsed α bound → Except SyntaxError (Parsed β wider)} {value : α} {rest : List Token}
    (first : Reaches source deep result value rest)
    (later : ∀ fewer, RunsOut source (next ⟨value, rest, fewer⟩)) : RunsOut source (result >>= next) := by
  rcases first with found | ⟨-, found⟩
  · obtain ⟨fewer, rfl⟩ := outcome_eq_ok_iff.1 found
    exact later fewer
  · rw [outcome_eq_error_iff] at found
    exact RunsOut.bind found next

theorem sequence_runsOut {conditional : Parser Expr} {tokens : List Token}
    (deep : RunsOut source (conditional tokens)) : RunsOut source (source.sequence conditional tokens) :=
  deep.bind _

theorem binary_runsOut {unary : Parser Expr} {least : Nat} {tokens : List Token}
    (deep : RunsOut source (unary tokens)) : RunsOut source (source.binary unary least tokens) := by
  rw [Source.binary]
  exact deep.bind _

variable {limit : Nat} {tokens rest : List Token}

theorem conditional_runsOut (deep : RunsOut source ((source.level limit).unary tokens)) :
    RunsOut source ((source.level (limit + 1)).conditional tokens) :=
  (binary_runsOut deep).bind _

/-- A conditional takes a level, and its first operand another one. -/
theorem level_runsOut (few : limit ≤ 1) (tokens : List Token) :
    RunsOut source ((source.level limit).conditional tokens) := by
  match limit with
  | 0 => rfl
  | 1 => exact conditional_runsOut rfl

theorem unary_runsOut_sign (whole : source.fault = none) {sign : Punct} (member : sign ∈ Punct.unary)
    (deep : RunsOut source ((source.level limit).unary rest)) :
    RunsOut source ((source.level (limit + 1)).unary (.punct sign :: rest)) := by
  simp only [Source.level, Source.prefixed, if_pos member, take_of_fault_eq_none whole]
  exact deep.bind _

theorem conditional_runsOut_group (whole : source.fault = none)
    (deep : RunsOut source ((source.level limit).conditional rest)) :
    RunsOut source ((source.level (limit + 2)).conditional (.punct .openParen :: rest)) := by
  have noSign : Stops Punct.unary (.punct .openParen :: rest) := stops_cons (by decide) rest
  refine conditional_runsOut ?_
  simp only [Source.level, prefixed_eq_operand noSign, Source.operand, take_of_fault_eq_none whole]
  exact (sequence_runsOut deep).bind _

/-- The last alternative runs out, if neither test nor consequent do before it. -/
theorem conditional_runsOut_choice (whole : source.fault = none) {depth : Nat}
    {test consequent : List Token} {first second : Expr} (tested : (nested depth).unary test first)
    (chosen : (nested depth).conditional consequent second)
    (deep : RunsOut source ((source.level limit).conditional rest)) :
    RunsOut source ((source.level (limit + 1)).conditional
      (test ++ .punct .question :: (consequent ++ .punct .colon :: rest))) := by
  obtain ⟨inner, operand⟩ := level_complete whole depth limit
  refine (binary_complete whole operand _ _ _ (.of_unary tested _)
    (stops_cons (by decide) _)).runsOut fun _ => ?_
  simp only [take_of_fault_eq_none whole]
  refine (inner _ _ _ chosen (stops_cons (by decide) _)).runsOut fun _ => ?_
  exact (expect_reaches whole .colon rest : Reaches source (limit < depth) _ () rest).runsOut
    fun _ => deep.bind _

end

/-! Repeated marks. -/

section

variable {source : Source} {name : String}

def groupTokens (n : Nat) (name : String) : List Token :=
  List.replicate n (.punct .openParen) ++ .identifier name :: List.replicate n (.punct .closeParen)

theorem groupTokens_succ (n : Nat) (name : String) :
    groupTokens (n + 1) name = .punct .openParen :: (groupTokens n name ++ [.punct .closeParen]) := by
  rw [groupTokens, List.replicate_succ, List.replicate_succ', groupTokens]
  simp

theorem derivesWithin_groups (unreserved : name ∉ reservedWords) (n : Nat) :
    DerivesWithin (2 * n + 2) (groupTokens n name) (.ofName name) := by
  induction n with
  | zero => exact .one (conditional_of_unary (unary_name unreserved 0))
  | succ n ih =>
      rw [groupTokens_succ]
      exact ih.group

theorem groups_runsOut (whole : source.fault = none) {limit n : Nat} (few : limit ≤ 2 * n + 1)
    (rest : List Token) :
    RunsOut source ((source.level limit).conditional
      (List.replicate n (.punct .openParen) ++ rest)) := by
  induction n generalizing limit with
  | zero => exact level_runsOut few rest
  | succ n ih =>
      match limit with
      | 0 | 1 => exact level_runsOut (by decide) _
      | limit + 2 => exact conditional_runsOut_group whole (ih (by omega))

def notTokens (n : Nat) (name : String) : List Token :=
  List.replicate n (.punct .not) ++ [.identifier name]

/-- Negations of a lookup, one in another. -/
def negated (n : Nat) (name : String) : Expr :=
  (fun tree => .operator "!" [tree])^[n] (.ofName name)

theorem unary_negated (unreserved : name ∉ reservedWords) (n : Nat) :
    (nested (n + 1)).unary (notTokens n name) (negated n name) := by
  induction n with
  | zero => exact unary_name unreserved 0
  | succ n ih =>
      rw [negated, Function.iterate_succ_apply']
      exact unary_not ih

theorem nots_runsOut (whole : source.fault = none) {limit n : Nat} (few : limit ≤ n)
    (rest : List Token) :
    RunsOut source ((source.level limit).unary (List.replicate n (.punct .not) ++ rest)) := by
  induction n generalizing limit with
  | zero =>
      obtain rfl := Nat.le_zero.1 few
      rfl
  | succ n ih =>
      match limit with
      | 0 => rfl
      | limit + 1 => exact unary_runsOut_sign whole (by decide) (ih (Nat.le_of_succ_le_succ few))

/-- The tokens of tests and consequents, before the last alternative. -/
def choiceTokens (choices : List (String × String)) : List Token :=
  choices.flatMap fun choice =>
    [.identifier choice.1, .punct .question, .identifier choice.2, .punct .colon]

theorem choiceTokens_cons (choice : String × String) (choices : List (String × String))
    (rest : List Token) :
    choiceTokens (choice :: choices) ++ rest = [.identifier choice.1] ++ .punct .question ::
      ([.identifier choice.2] ++ .punct .colon :: (choiceTokens choices ++ rest)) :=
  rfl

/-- Conditionals, each of which is the alternative of the one before it. -/
def chosen (choices : List (String × String)) (name : String) : Expr :=
  choices.foldr (fun choice tree =>
    .operator Operator.conditional [.ofName choice.1, .ofName choice.2, tree]) (.ofName name)

variable {choices : List (String × String)}

theorem conditional_chosen (unreserved : name ∉ reservedWords)
    (each : ∀ choice ∈ choices, choice.1 ∉ reservedWords ∧ choice.2 ∉ reservedWords) :
    (nested (choices.length + 2)).conditional (choiceTokens choices ++ [.identifier name])
      (chosen choices name) := by
  induction choices with
  | nil => exact conditional_of_unary (unary_name unreserved 0)
  | cons choice choices ih =>
      obtain ⟨⟨test, consequent⟩, each⟩ := List.forall_mem_cons.1 each
      rw [choiceTokens_cons]
      exact conditional_choice (unary_name test _)
        (conditional_of_unary (unary_name consequent _)) (ih each)

theorem choices_runsOut (whole : source.fault = none)
    (each : ∀ choice ∈ choices, choice.1 ∉ reservedWords ∧ choice.2 ∉ reservedWords)
    {limit : Nat} (few : limit ≤ choices.length + 1) (rest : List Token) :
    RunsOut source ((source.level limit).conditional (choiceTokens choices ++ rest)) := by
  induction choices generalizing limit with
  | nil => exact level_runsOut few rest
  | cons choice choices ih =>
      obtain ⟨⟨test, consequent⟩, each⟩ := List.forall_mem_cons.1 each
      rw [choiceTokens_cons]
      match limit with
      | 0 => rfl
      | limit + 1 =>
          exact conditional_runsOut_choice whole (unary_name test 1)
            (conditional_of_unary (unary_name consequent 0)) (ih each (Nat.le_of_succ_le_succ few))

end

end Stencil.Grammar
