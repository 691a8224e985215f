import Stencil.Proofs.Grammar.Climb
import Stencil.Proofs.Grammar.Fold

/-! What follows a rule is taken by its parser.

A parser looks one token beyond what it takes, so each one is complete before tokens
that start with none of its marks. The depth of nesting may run out instead, where that
is said to be possible.
-/

set_option autoImplicit false

namespace Stencil.Grammar

variable {α β : Type} {source : Source} {deep : Prop}

/-- A value and the tokens after it are found, or the depth runs out. -/
def Reaches (source : Source) (deep : Prop) {bound : Nat} (result : Except SyntaxError (Parsed α bound))
    (value : α) (rest : List Token) : Prop :=
  outcome result = .ok (value, rest) ∨ deep ∧ outcome result = .error (source.error .tooDeep)

/-- A step that is taken is passed, and one that runs out ends the rest. -/
theorem Reaches.outcome_bind {bound wider : Nat} {result : Except SyntaxError (Parsed α bound)}
    {value : α} {rest : List Token} (first : Reaches source deep result value rest)
    (next : Parsed α bound → Except SyntaxError (Parsed β wider)) :
    (∃ fewer, outcome (result >>= next) = outcome (next ⟨value, rest, fewer⟩)) ∨
      deep ∧ outcome (result >>= next) = .error (source.error .tooDeep) := by
  rcases first with found | ⟨runsOut, found⟩
  · obtain ⟨fewer, rfl⟩ := outcome_eq_ok_iff.1 found
    exact .inl ⟨fewer, rfl⟩
  · rw [outcome_eq_error_iff] at found
    subst found
    exact .inr ⟨runsOut, rfl⟩

theorem Reaches.bind {bound wider : Nat} {result : Except SyntaxError (Parsed α bound)}
    {next : Parsed α bound → Except SyntaxError (Parsed β wider)} {value : α} {other : β}
    {rest after : List Token} (first : Reaches source deep result value rest)
    (later : ∀ fewer, Reaches source deep (next ⟨value, rest, fewer⟩) other after) :
    Reaches source deep (result >>= next) other after := by
  rcases first.outcome_bind next with ⟨fewer, same⟩ | runsOut
  · rw [Reaches, same]
    exact later fewer
  · exact .inr runsOut

theorem Reaches.map {bound wider : Nat} {result : Except SyntaxError (Parsed α bound)} {value : α}
    {rest : List Token} (found : Reaches source deep result value rest) (f : α → β)
    (le : bound ≤ wider) :
    Reaches source deep (result >>= fun parsed => pure ((parsed.map f).widen le)) (f value) rest :=
  found.bind fun _ => Or.inl rfl

theorem take_of_fault_eq_none (whole : source.fault = none) (rest : List Token) :
    source.take rest = .ok () := by
  unfold Source.take
  split
  · rename_i fault found
    rw [whole] at found
    cases found
  · rfl

/-- Tokens that start with none of some marks. -/
def Stops (marks : List Punct) (rest : List Token) : Prop :=
  ∀ punct ∈ marks, rest.head? ≠ some (.punct punct)

theorem stops_nil (marks : List Punct) : Stops marks [] :=
  fun _ _ none => by cases none

theorem stops_cons {marks : List Punct} {punct : Punct} (other : punct ∉ marks) (rest : List Token) :
    Stops marks (.punct punct :: rest) := by
  intro mark member same
  cases same
  exact other member

theorem Stops.mono {marks fewer : List Punct} {rest : List Token} (stops : Stops marks rest)
    (subset : fewer ⊆ marks) : Stops fewer rest :=
  fun punct member => stops punct (subset member)

theorem Stops.ne {marks : List Punct} {punct : Punct} {rest after : List Token}
    (stops : Stops marks rest) (member : punct ∈ marks) : rest ≠ .punct punct :: after := by
  rintro rfl
  exact stops punct member rfl

/-- A parser takes what follows a rule, before tokens that start with none of its marks. -/
def Complete (source : Source) (deep : Prop) (marks : List Punct) (parser : Parser α) (rule : Rule α) :
    Prop :=
  ∀ tokens value rest, rule tokens value → Stops marks rest →
    Reaches source deep (parser (tokens ++ rest)) value rest

theorem expect_reaches (whole : source.fault = none) (punct : Punct) (rest : List Token) :
    Reaches source deep (source.expect punct (.punct punct :: rest)) () rest := by
  left
  simp only [Source.expect, if_true, take_of_fault_eq_none whole]
  rfl

/-- The marks that go on with a path. -/
def pathMarks : List Punct :=
  [.dot, .openBracket, .openParen]

/-- The marks that go on with operands and operators of some levels. -/
def binaryMarks (levels : List (List Punct)) : List Punct :=
  pathMarks ++ levels.flatten

/-- The marks that go on with a conditional. -/
def conditionalMarks : List Punct :=
  .question :: binaryMarks Punct.levels

section

variable {operators : List Punct} {levels : List (List Punct)} {operand : Parser Expr}
  {unary : Rule Expr}

/-- After a left side, a chain goes on as if it had started with it. -/
theorem chain_continues (whole : source.fault = none)
    (complete : Complete source deep (binaryMarks levels) operand (BinaryOf unary levels))
    (apart : ∀ punct ∈ operators, punct ∉ binaryMarks levels) {tokens : List Token} {tree : Expr}
    (derived : BinaryOf unary (operators :: levels) tokens tree) {rest : List Token}
    (stops : Stops (binaryMarks levels) rest) :
    outcome (source.chain operators operand (tokens ++ rest)) =
        outcome (source.chainFrom operators operand tree rest) ∨
      deep ∧ outcome (source.chain operators operand (tokens ++ rest)) =
        .error (source.error .tooDeep) := by
  generalize all : operators :: levels = both at derived
  induction derived generalizing rest with
  | operand => cases all
  | tighter derived _ =>
      cases all
      refine ((complete _ _ rest derived stops).outcome_bind _).imp_left ?_
      rintro ⟨_, same⟩
      exact same.trans (outcome_widen _ _)
  | @join _ _ punct left right first second member _ derived ih _ =>
      cases all
      rw [List.append_assoc, List.cons_append]
      rcases ih (stops_cons (apart punct member) (right ++ rest)) rfl with same | runsOut
      · rw [same, Source.chainFrom, if_pos member, take_of_fault_eq_none whole]
        refine ((complete _ _ rest derived stops).outcome_bind _).imp_left ?_
        rintro ⟨_, same⟩
        exact same.trans (outcome_widen _ _)
      · exact Or.inr runsOut

theorem chain_complete (whole : source.fault = none)
    (complete : Complete source deep (binaryMarks levels) operand (BinaryOf unary levels))
    (apart : ∀ punct ∈ operators, punct ∉ binaryMarks levels) :
    Complete source deep (binaryMarks (operators :: levels)) (source.chain operators operand)
      (BinaryOf unary (operators :: levels)) := by
  intro tokens tree rest derived stops
  have inner : Stops (binaryMarks levels) rest := by
    apply stops.mono
    intro punct member
    simp only [binaryMarks, List.flatten_cons, List.mem_append] at member ⊢
    exact member.imp_right Or.inr
  -- No operator of this level follows, so the chain ends here.
  have ends : outcome (source.chainFrom operators operand tree rest) = .ok (tree, rest) := by
    rw [Source.chainFrom.eq_def]
    split
    · rename_i punct after
      have other : punct ∉ operators := by
        intro member
        refine stops.ne ?_ rfl
        simp [binaryMarks, member]
      rw [if_neg other]
      rfl
    · rfl
  rcases chain_continues whole complete apart derived inner with same | runsOut
  · exact Or.inl (same.trans ends)
  · exact Or.inr runsOut

theorem foldr_chain_complete (whole : source.fault = none)
    (complete : Complete source deep pathMarks operand unary) (levels : List (List Punct))
    (apart : (binaryMarks levels).Nodup) :
    Complete source deep (binaryMarks levels) (levels.foldr source.chain operand)
      (BinaryOf unary levels) := by
  induction levels with
  | nil =>
      intro tokens tree rest derived stops
      cases derived with
      | operand derived => exact complete tokens tree rest derived (by simpa [binaryMarks] using stops)
  | cons operators levels ih =>
      obtain ⟨paths, later, apartPaths⟩ := List.nodup_append.1 apart
      obtain ⟨_, tighter, apartLevels⟩ := List.nodup_append.1 later
      have inner : (binaryMarks levels).Nodup := by
        refine List.nodup_append.2 ⟨paths, tighter, fun path member punct among => ?_⟩
        exact apartPaths path member punct (List.mem_append_right operators among)
      refine chain_complete whole (ih inner) fun punct member among => ?_
      rcases List.mem_append.1 among with path | other
      · exact apartPaths punct path punct (List.mem_append_left _ member) rfl
      · exact apartLevels punct member punct other rfl

theorem binary_complete (whole : source.fault = none)
    (complete : Complete source deep pathMarks operand unary) :
    Complete source deep (binaryMarks Punct.levels) (source.binary operand 1)
      (BinaryOf unary Punct.levels) := by
  rw [binary_eq_foldr_chain]
  exact foldr_chain_complete whole complete Punct.levels (by decide)

end

section

variable {conditional unary : Parser Expr} {nested operand : Rule Expr}

theorem ternary_complete (whole : source.fault = none)
    (inner : Complete source deep conditionalMarks conditional nested)
    (complete : Complete source deep pathMarks unary operand) :
    Complete source deep conditionalMarks (source.ternary conditional unary)
      (TernaryOf nested operand) := by
  intro tokens tree rest derived stops
  have test := binary_complete whole complete
  cases derived with
  | test derived =>
      have tighter : Stops (binaryMarks Punct.levels) rest := stops.mono (List.subset_cons_self _ _)
      refine (test tokens tree rest derived tighter).bind fun fewer => ?_
      simp only
      split
      · exact absurd rfl (stops.ne List.mem_cons_self)
      · exact Or.inl rfl
  | @choice first second third _ _ _ tested consequent alternate =>
      rw [List.append_assoc, List.cons_append, List.append_assoc, List.cons_append]
      refine (test first _ _ tested (stops_cons (by decide) _)).bind fun fewer => ?_
      simp only [take_of_fault_eq_none whole]
      refine (inner second _ _ consequent (stops_cons (by decide) _)).bind fun _ => ?_
      refine (expect_reaches whole .colon _).bind fun _ => ?_
      exact (inner third _ rest alternate stops).bind fun _ => Or.inl rfl

/-- Without a comma a sequence does not go on. -/
theorem sequenceFrom_ends {rest : List Token} (stops : Stops (.comma :: conditionalMarks) rest) :
    Reaches source deep (source.sequenceFrom conditional rest) [] rest := by
  rw [Source.sequenceFrom.eq_def]
  split
  · exact absurd rfl (stops.ne List.mem_cons_self)
  · exact Or.inl rfl

theorem sequenceFrom_reaches (whole : source.fault = none)
    (inner : Complete source deep conditionalMarks conditional nested) {tokens : List Token}
    {trees : List Expr} (derived : Separated nested tokens trees) {rest : List Token}
    (stops : Stops (.comma :: conditionalMarks) rest) :
    Reaches source deep (source.sequenceFrom conditional (.punct .comma :: (tokens ++ rest))) trees
      rest := by
  have last : Stops conditionalMarks rest := stops.mono (List.subset_cons_self _ _)
  induction derived with
  | one here =>
      rw [Source.sequenceFrom, take_of_fault_eq_none whole]
      refine (inner _ _ rest here last).bind fun _ => ?_
      exact (sequenceFrom_ends stops).map _ _
  | cons here _ ih =>
      rw [List.append_assoc, List.cons_append, Source.sequenceFrom, take_of_fault_eq_none whole]
      refine (inner _ _ _ here (stops_cons (by decide) _)).bind fun _ => ?_
      exact ih.map _ _

theorem sequence_complete (whole : source.fault = none)
    (inner : Complete source deep conditionalMarks conditional nested) :
    Complete source deep (.comma :: conditionalMarks) (source.sequence conditional)
      (SequenceOf nested) := by
  intro tokens tree rest derived stops
  have last : Stops conditionalMarks rest := stops.mono (List.subset_cons_self _ _)
  cases derived with
  | one here =>
      refine (inner tokens tree rest here last).bind fun _ => ?_
      exact (sequenceFrom_ends stops).map _ _
  | @more first others value values here separated =>
      rw [List.append_assoc, List.cons_append]
      refine (inner first value _ here (stops_cons (by decide) _)).bind fun _ => ?_
      cases values with
      | nil => cases separated
      | cons next values => exact (sequenceFrom_reaches whole inner separated stops).map _ _

end

/-- The marks at which a list of items ends. -/
def closingMarks : List Punct :=
  [.closeParen, .closeBracket, .closeBrace]

/-- What follows a rule is some tokens, and none of some marks is the first of them. -/
def Starts (marks : List Punct) (rule : Rule α) : Prop :=
  ∀ tokens value, rule tokens value → tokens ≠ [] ∧ Stops marks tokens

theorem starts_append {marks : List Punct} {rule : Rule α} {tokens : List Token} {value : α}
    (starts : Starts marks rule) (derived : rule tokens value) (rest : List Token) :
    tokens ++ rest ≠ [] ∧ Stops marks (tokens ++ rest) := by
  obtain ⟨some, stops⟩ := starts tokens value derived
  cases tokens with
  | nil => exact absurd rfl some
  | cons first others => exact ⟨List.cons_ne_nil _ _, stops⟩

theorem starts_cons {marks : List Punct} {token : Token}
    (other : ∀ punct ∈ marks, token ≠ .punct punct) (rest : List Token) :
    token :: rest ≠ [] ∧ Stops marks (token :: rest) := by
  refine ⟨List.cons_ne_nil _ _, fun punct member same => ?_⟩
  exact other punct member (Option.some.inj same)

section

variable {conditional unary : Rule Expr}

theorem starts_operand : Starts (Punct.unary ++ closingMarks) (OperandOf conditional) := by
  intro tokens tree derived
  cases derived with
  | path root _ | call root _ _ =>
      refine starts_cons ?_ _
      intro punct _
      cases root <;> simp
  | _ => exact starts_cons (by simp [Punct.unary, closingMarks]) _

theorem starts_prefixed : Starts closingMarks (PrefixedOf conditional unary) := by
  intro tokens tree derived
  cases derived with
  | operand derived =>
      obtain ⟨some, stops⟩ := starts_operand tokens tree derived
      exact ⟨some, stops.mono (List.subset_append_right _ _)⟩
  | negative => exact starts_cons (by simp [closingMarks]) _
  | operator sign =>
      have apart : ∀ punct ∈ Punct.unary, punct ∉ closingMarks := by decide
      refine starts_cons ?_ _
      intro mark closes same
      cases same
      exact apart _ sign closes

theorem starts_binary (starts : Starts closingMarks unary) (levels : List (List Punct)) :
    Starts closingMarks (BinaryOf unary levels) := by
  intro tokens tree derived
  induction derived with
  | operand derived => exact starts _ _ derived
  | tighter _ ih => exact ih
  | @join _ _ _ left _ _ _ _ _ _ ih _ =>
      obtain ⟨some, stops⟩ := ih
      cases left with
      | nil => exact absurd rfl some
      | cons first others => exact ⟨List.cons_ne_nil _ _, stops⟩

theorem starts_ternary (starts : Starts closingMarks unary) :
    Starts closingMarks (TernaryOf conditional unary) := by
  intro tokens tree derived
  have binary := starts_binary starts Punct.levels
  cases derived with
  | test derived => exact binary tokens tree derived
  | choice derived _ _ => exact starts_append binary derived _

theorem starts_member : Starts closingMarks (MemberOf conditional) := by
  intro tokens member derived
  cases derived with
  | keyed key _ =>
      refine starts_cons ?_ _
      intro punct _
      cases key <;> simp
  | shorthand => exact starts_cons (by simp) _

end

theorem starts_nested (depth : Nat) :
    Starts closingMarks (nested depth).conditional ∧ Starts closingMarks (nested depth).unary := by
  induction depth with
  | zero => exact ⟨fun _ _ => False.elim, fun _ _ => False.elim⟩
  | succ depth ih => exact ⟨starts_ternary ih.2, starts_prefixed⟩

section

variable {item : Parser α} {rule : Rule α} {marks : List Punct} {close : Punct}

theorem items_ends (whole : source.fault = none) (rest : List Token) :
    Reaches source deep (source.items close item (.punct close :: rest)) [] rest := by
  rw [Source.items, if_pos List.head?_cons]
  refine (expect_reaches whole close rest).bind fun _ => ?_
  exact Or.inl rfl

/-- Items are taken up to the closing mark, whether or not a comma stands before it. -/
theorem items_separated (whole : source.fault = none) (complete : Complete source deep marks item rule)
    (starts : Starts closingMarks rule) (closes : close ∈ closingMarks) (other : close ∉ marks)
    (comma : .comma ∉ marks) {tokens : List Token} {values : List α}
    (derived : Separated rule tokens values) {rest tail : List Token}
    (ends : tail = .punct close :: rest ∨ tail = .punct .comma :: .punct close :: rest) :
    Reaches source deep (source.items close item (tokens ++ tail)) values rest := by
  have goesOn {tokens : List Token} {value : α} (here : rule tokens value) (tail : List Token) :
      ¬ (tokens ++ tail).head? = some (.punct close) :=
    (starts_append starts here tail).2 close closes
  induction derived with
  | @one tokens value here =>
      rw [Source.items, if_neg (goesOn here tail)]
      have stops : Stops marks tail := by
        rcases ends with rfl | rfl
        · exact stops_cons other _
        · exact stops_cons comma _
      refine (complete _ _ tail here stops).bind fun _ => ?_
      rcases ends with rfl | rfl
      · simp only
        split
        · rename_i same
          cases same
          exact absurd closes (by decide)
        · refine (expect_reaches whole close rest).bind fun _ => ?_
          exact Or.inl rfl
      · simp only [take_of_fault_eq_none whole]
        exact (items_ends whole rest).map _ _
  | cons here _ ih =>
      rw [List.append_assoc, List.cons_append, Source.items, if_neg (goesOn here _)]
      refine (complete _ _ _ here (stops_cons comma _)).bind fun _ => ?_
      simp only [take_of_fault_eq_none whole]
      exact ih.map _ _

theorem items_reaches (whole : source.fault = none) (complete : Complete source deep marks item rule)
    (starts : Starts closingMarks rule) (closes : close ∈ closingMarks) (other : close ∉ marks)
    (comma : .comma ∉ marks) {tokens : List Token} {values : List α}
    (derived : Listed rule tokens values) (rest : List Token) :
    Reaches source deep (source.items close item (tokens ++ .punct close :: rest)) values rest := by
  cases derived with
  | none => exact items_ends whole rest
  | plain derived =>
      exact items_separated whole complete starts closes other comma derived (Or.inl rfl)
  | trailing derived =>
      rw [List.append_assoc]
      exact items_separated whole complete starts closes other comma derived (Or.inr rfl)

end

theorem key_reads {token : Token} {name : String} (key : KeyOf token name) :
    source.key token = .ok name := by
  cases key <;> rfl

section

variable {conditional unary : Parser Expr} {nested operand : Rule Expr}

theorem keyed_reaches (whole : source.fault = none)
    (inner : Complete source deep conditionalMarks conditional nested) (key : Token)
    {tokens : List Token} {tree : Expr} (derived : nested tokens tree) {rest : List Token}
    (stops : Stops conditionalMarks rest) :
    Reaches source deep (source.keyed conditional key (.punct .colon :: (tokens ++ rest))) tree rest := by
  simp only [Source.keyed, take_of_fault_eq_none whole]
  exact (inner tokens tree rest derived stops).bind fun _ => Or.inl rfl

theorem member_complete (whole : source.fault = none)
    (inner : Complete source deep conditionalMarks conditional nested) :
    Complete source deep (.colon :: conditionalMarks) (source.member conditional) (MemberOf nested) := by
  intro tokens member rest derived stops
  have last : Stops conditionalMarks rest := stops.mono (List.subset_cons_self _ _)
  cases derived with
  | @keyed token _ _ _ key derived =>
      simp only [List.cons_append, Source.member, take_of_fault_eq_none whole, key_reads key]
      exact (keyed_reaches whole inner token derived last).bind fun _ => Or.inl rfl
  | @shorthand name =>
      simp only [List.cons_append, List.nil_append, Source.member, take_of_fault_eq_none whole,
        Source.key]
      -- No colon follows the identifier.
      have alone : Reaches source deep (source.keyed conditional (.identifier name) rest)
          (.ofName name) rest := by
        rw [Source.keyed.eq_2 _ _ _ _ fun _ colon => stops.ne List.mem_cons_self colon]
        exact Or.inl rfl
      exact alone.bind fun _ => Or.inl rfl

theorem segmentName_reaches (whole : source.fault = none) {token : Token} {name : String}
    (named : SegmentOf token name) (rest : List Token) :
    Reaches source deep (source.segmentName (token :: rest)) name rest := by
  simp only [Source.segmentName, take_of_fault_eq_none whole]
  cases named <;> exact Or.inl rfl

theorem members_reaches (whole : source.fault = none)
    (inner : Complete source deep conditionalMarks conditional nested) {root : Root}
    {tokens : List Token} {more : List Segment} (derived : SegmentsOf nested tokens more)
    {segments : List Segment} {rest after : List Token} {tree : Expr}
    (later : Reaches source deep (source.members conditional root (segments ++ more) rest) tree after) :
    Reaches source deep (source.members conditional root segments (tokens ++ rest)) tree after := by
  induction derived generalizing segments with
  | nil => simpa using later
  | name named _ ih =>
      rw [List.cons_append, List.cons_append, Source.members, take_of_fault_eq_none whole]
      refine (segmentName_reaches whole named _).bind fun _ => ?_
      exact (ih (by simpa using later)).bind fun _ => Or.inl rfl
  | index derived _ ih =>
      rw [List.cons_append, List.append_assoc, List.cons_append, Source.members,
        take_of_fault_eq_none whole]
      refine (sequence_complete whole inner _ _ _ derived (stops_cons (by decide) _)).bind fun _ => ?_
      refine (expect_reaches whole .closeBracket _).bind fun _ => ?_
      exact (ih (by simpa using later)).bind fun _ => Or.inl rfl

/-- A path starts with a token for its root. -/
theorem root_reaches (whole : source.fault = none) {token : Token} {root : Root} {start : List Segment}
    {rest after : List Token} {tree : Expr} (starts : RootOf token root start)
    (found : Reaches source deep (source.members conditional root start rest) tree after) :
    Reaches source deep (source.operand conditional (token :: rest)) tree after := by
  simp only [Source.operand, take_of_fault_eq_none whole]
  cases starts with
  | name unknown other =>
      simp only [unknown, if_neg other]
      exact found
  | _ => exact found

theorem array_reaches (whole : source.fault = none)
    (inner : Complete source deep conditionalMarks conditional nested) (starts : Starts closingMarks nested)
    {tokens : List Token} {items : List Expr} (listed : Listed nested tokens items) (rest : List Token) :
    Reaches source deep (source.operand conditional
      (.punct .openBracket :: (tokens ++ .punct .closeBracket :: rest))) (arrayOf items) rest := by
  simp only [Source.operand, take_of_fault_eq_none whole]
  exact (items_reaches whole inner starts (by decide) (by decide) (by decide) listed rest).map _ _

theorem object_reaches (whole : source.fault = none)
    (inner : Complete source deep conditionalMarks conditional nested) {tokens : List Token}
    {members : List (String × Expr)} (listed : Listed (MemberOf nested) tokens members)
    (rest : List Token) :
    Reaches source deep (source.operand conditional
      (.punct .openBrace :: (tokens ++ .punct .closeBrace :: rest))) (objectOf members) rest := by
  simp only [Source.operand, take_of_fault_eq_none whole]
  exact (items_reaches whole (member_complete whole inner) starts_member (by decide) (by decide)
    (by decide) listed rest).map _ _

theorem operand_complete (whole : source.fault = none)
    (inner : Complete source deep conditionalMarks conditional nested) (starts : Starts closingMarks nested) :
    Complete source deep pathMarks (source.operand conditional) (OperandOf nested) := by
  intro tokens tree rest derived stops
  cases derived with
  | number read =>
      simp only [List.cons_append, Source.operand, take_of_fault_eq_none whole, read]
      exact Or.inl rfl
  | string =>
      simp only [List.cons_append, Source.operand, take_of_fault_eq_none whole]
      exact Or.inl rfl
  | constant known =>
      simp only [List.cons_append, Source.operand, take_of_fault_eq_none whole, known]
      exact Or.inl rfl
  | group derived =>
      rw [List.cons_append, List.append_assoc]
      simp only [Source.operand, take_of_fault_eq_none whole]
      refine (sequence_complete whole inner _ _ _ derived (stops_cons (by decide) _)).bind fun _ => ?_
      refine (expect_reaches whole .closeParen rest).bind fun _ => ?_
      exact Or.inl rfl
  | @literalArray _ values listed =>
      rw [List.cons_append, List.append_assoc, ← arrayOf_literals values]
      exact array_reaches whole inner starts listed rest
  | array listed other =>
      rw [List.cons_append, List.append_assoc, ← arrayOf_eq_operator other]
      exact array_reaches whole inner starts listed rest
  | @literalObject _ values listed =>
      rw [List.cons_append, List.append_assoc, ← objectOf_literals values]
      exact object_reaches whole inner listed rest
  | object listed other =>
      rw [List.cons_append, List.append_assoc, ← objectOf_eq_operator other]
      exact object_reaches whole inner listed rest
  | path root segments =>
      rw [List.cons_append]
      refine root_reaches whole root (members_reaches whole inner segments ?_)
      rw [Source.members.eq_def]
      split
      · exact absurd rfl (stops.ne (by decide))
      · exact absurd rfl (stops.ne (by decide))
      · exact absurd rfl (stops.ne (by decide))
      · exact Or.inl rfl
  | call root segments listed =>
      rw [List.cons_append, List.append_assoc, List.cons_append, List.append_assoc]
      refine root_reaches whole root (members_reaches whole inner segments ?_)
      rw [Source.members, take_of_fault_eq_none whole]
      exact (items_reaches whole inner starts (by decide) (by decide) (by decide) listed rest).map _ _

theorem prefixed_eq_operand {tokens : List Token} (stops : Stops Punct.unary tokens) :
    source.prefixed conditional unary tokens = source.operand conditional tokens := by
  cases tokens with
  | nil => rfl
  | cons first rest =>
      cases first with
      | punct punct =>
          have other : punct ∉ Punct.unary := fun member => stops.ne member rfl
          rw [Source.prefixed, if_neg other]
      | _ => rfl

theorem prefixed_complete (whole : source.fault = none)
    (inner : Complete source deep conditionalMarks conditional nested) (starts : Starts closingMarks nested)
    (complete : Complete source deep pathMarks unary operand) :
    Complete source deep pathMarks (source.prefixed conditional unary) (PrefixedOf nested operand) := by
  intro tokens tree rest derived stops
  have sign {punct : Punct} {tokens : List Token} {tree : Expr} (sign : punct ∈ Punct.unary)
      (derived : operand tokens tree) :
      Reaches source deep (source.prefixed conditional unary (.punct punct :: (tokens ++ rest)))
        (unaryOf punct tree) rest := by
    simp only [Source.prefixed, if_pos sign, take_of_fault_eq_none whole]
    exact (complete tokens tree rest derived stops).map _ _
  cases derived with
  | operand derived =>
      have found := operand_complete whole inner starts tokens tree rest derived stops
      have first := (starts_append starts_operand derived rest).2
      rw [prefixed_eq_operand (first.mono (List.subset_append_left _ _))]
      exact found
  | negative derived negated =>
      rw [← unaryOf_minus negated]
      exact sign (by decide) derived
  | operator member derived other =>
      rw [← unaryOf_eq_operator other]
      exact sign member derived

end

/-- What nests at most to a depth is taken by the parsers of any limit, unless this is
the lower one. -/
theorem level_complete (whole : source.fault = none) (depth limit : Nat) :
    Complete source (limit < depth) conditionalMarks (source.level limit).conditional
        (nested depth).conditional ∧
      Complete source (limit < depth) pathMarks (source.level limit).unary (nested depth).unary := by
  induction depth generalizing limit with
  | zero => exact ⟨fun _ _ _ => False.elim, fun _ _ _ => False.elim⟩
  | succ depth ih =>
      cases limit with
      | zero =>
          constructor
          · exact fun _ _ _ _ _ => Or.inr ⟨Nat.succ_pos depth, rfl⟩
          · exact fun _ _ _ _ _ => Or.inr ⟨Nat.succ_pos depth, rfl⟩
      | succ limit =>
          rw [Nat.succ_lt_succ_iff]
          obtain ⟨conditional, unary⟩ := ih limit
          constructor
          · exact ternary_complete whole conditional unary
          · exact prefixed_complete whole conditional (starts_nested depth).1 unary

end Stencil.Grammar
