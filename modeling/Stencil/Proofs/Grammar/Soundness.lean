import Stencil.Proofs.Grammar.Climb
import Stencil.Proofs.Grammar.Fold

/-! Whatever a parser takes follows its rule.

Each parser is sound if the parsers that it calls are. A parser that goes on after
tokens that are taken already is sound for every rule of these tokens and its own.
-/

set_option autoImplicit false

namespace Stencil.Grammar

variable {α : Type} {source : Source}

/-- No fault lies behind the tokens that are left. -/
def Source.Clean (source : Source) (rest : List Token) : Prop :=
  source.take rest = .ok ()

theorem Source.Clean.fault (clean : source.Clean []) : source.fault = none := by
  unfold Clean take at clean
  split at clean
  · cases clean
  · rename_i other
    cases fault : source.fault with
    | none => rfl
    | some error => exact absurd fault (other error rfl)

/-- Two parsers after each other take what both of them take. -/
theorem append_of_append {tokens first middle second rest : List Token}
    (here : tokens = first ++ middle) (later : middle = second ++ rest) :
    tokens = first ++ second ++ rest := by
  rw [here, later, List.append_assoc]

/-- What a parser takes off the front of its tokens follows a rule. -/
def Sound (source : Source) (parser : Parser α) (rule : Rule α) : Prop :=
  ∀ tokens parsed, parser tokens = .ok parsed →
    ∃ used, tokens = used ++ parsed.rest ∧ rule used parsed.value ∧ source.Clean parsed.rest

theorem expect_sound (punct : Punct) :
    Sound source (source.expect punct) fun used _ => used = [.punct punct] := by
  intro tokens parsed passed
  unfold Source.expect at passed
  split at passed
  · split at passed
    · rename_i same
      obtain ⟨_, clean, passed⟩ := bind_eq_ok_iff.1 passed
      cases passed
      cases same
      exact ⟨_, rfl, rfl, clean⟩
    · cases passed
  · cases passed

section

variable {operators : List Punct} {levels : List (List Punct)} {operand : Parser Expr}
  {unary : Rule Expr}

/-- Operators and operands after a left side make up one more left side with it. -/
theorem chainFrom_sound (sound : Sound source operand (BinaryOf unary levels)) {left : Expr}
    {tokens : List Token} {whole : Parsed Expr (tokens.length + 1)}
    (passed : source.chainFrom operators operand left tokens = .ok whole) (clean : source.Clean tokens)
    {before : List Token} (derived : BinaryOf unary (operators :: levels) before left) :
    ∃ used, tokens = used ++ whole.rest ∧
      BinaryOf unary (operators :: levels) (before ++ used) whole.value ∧ source.Clean whole.rest := by
  induction left, tokens using Source.chainFrom.induct operators generalizing before with
  | case1 left punct rest member ih =>
      rw [Source.chainFrom, if_pos member] at passed
      obtain ⟨_, -, passed⟩ := bind_eq_ok_iff.1 passed
      obtain ⟨right, here, passed⟩ := bind_eq_ok_iff.1 passed
      obtain ⟨more, later, passed⟩ := bind_eq_ok_iff.1 passed
      cases passed
      obtain ⟨used, same, second, clean⟩ := sound rest right here
      obtain ⟨others, split, derived, clean⟩ := ih right later clean (.join member derived second)
      refine ⟨.punct punct :: (used ++ others), ?_, by simpa [Parsed.widen] using derived, clean⟩
      exact congrArg (List.cons _) (append_of_append same split)
  | case2 left punct rest other =>
      rw [Source.chainFrom, if_neg other] at passed
      cases passed
      exact ⟨[], rfl, by simpa using derived, clean⟩
  | case3 left tokens other =>
      rw [Source.chainFrom.eq_def] at passed
      split at passed
      · exact absurd rfl (other _ _)
      · cases passed
        exact ⟨[], rfl, by simpa using derived, clean⟩

theorem chain_sound (sound : Sound source operand (BinaryOf unary levels)) :
    Sound source (source.chain operators operand) (BinaryOf unary (operators :: levels)) := by
  intro tokens parsed passed
  simp only [Source.chain] at passed
  obtain ⟨first, here, passed⟩ := bind_eq_ok_iff.1 passed
  obtain ⟨whole, later, passed⟩ := bind_eq_ok_iff.1 passed
  cases passed
  obtain ⟨used, same, derived, clean⟩ := sound tokens first here
  obtain ⟨others, split, derived, clean⟩ := chainFrom_sound sound later clean (.tighter derived)
  exact ⟨used ++ others, append_of_append same split, derived, clean⟩

theorem foldr_chain_sound (sound : Sound source operand unary) (levels : List (List Punct)) :
    Sound source (levels.foldr source.chain operand) (BinaryOf unary levels) := by
  induction levels with
  | nil =>
      intro tokens parsed passed
      obtain ⟨used, same, derived, clean⟩ := sound tokens parsed passed
      exact ⟨used, same, .operand derived, clean⟩
  | cons operators levels ih => exact chain_sound ih

theorem binary_sound (sound : Sound source operand unary) :
    Sound source (source.binary operand 1) (BinaryOf unary Punct.levels) := by
  rw [binary_eq_foldr_chain]
  exact foldr_chain_sound sound Punct.levels

end

section

variable {conditional unary : Parser Expr} {nested operand : Rule Expr}

theorem ternary_sound (inner : Sound source conditional nested) (sound : Sound source unary operand) :
    Sound source (source.ternary conditional unary) (TernaryOf nested operand) := by
  intro tokens parsed passed
  simp only [Source.ternary] at passed
  obtain ⟨test, here, passed⟩ := bind_eq_ok_iff.1 passed
  obtain ⟨used, same, first, clean⟩ := binary_sound sound tokens test here
  split at passed
  · rename_i rest asked
    obtain ⟨_, -, passed⟩ := bind_eq_ok_iff.1 passed
    obtain ⟨consequent, chosen, passed⟩ := bind_eq_ok_iff.1 passed
    obtain ⟨colon, between, passed⟩ := bind_eq_ok_iff.1 passed
    obtain ⟨alternate, otherwise, passed⟩ := bind_eq_ok_iff.1 passed
    cases passed
    obtain ⟨yes, splitYes, second, -⟩ := inner rest consequent chosen
    obtain ⟨mark, splitMark, rfl, -⟩ := expect_sound .colon consequent.rest colon between
    obtain ⟨no, splitNo, third, clean⟩ := inner colon.rest alternate otherwise
    refine ⟨_, ?_, .choice first second third, clean⟩
    have after := append_of_append splitYes (append_of_append splitMark splitNo)
    exact append_of_append same (asked.trans (congrArg (List.cons _) after))
  · cases passed
    exact ⟨used, same, .test first, clean⟩

/-- A comma goes before every further expression. -/
theorem sequenceFrom_sound (inner : Sound source conditional nested) {tokens : List Token}
    {more : Parsed (List Expr) (tokens.length + 1)}
    (passed : source.sequenceFrom conditional tokens = .ok more) (clean : source.Clean tokens) :
    ∃ used, tokens = used ++ more.rest ∧ source.Clean more.rest ∧
      ((used = [] ∧ more.value = []) ∨
        ∃ others, used = .punct .comma :: others ∧ Separated nested others more.value) := by
  induction tokens using Source.sequenceFrom.induct with
  | case1 rest ih =>
      rw [Source.sequenceFrom] at passed
      obtain ⟨_, -, passed⟩ := bind_eq_ok_iff.1 passed
      obtain ⟨next, here, passed⟩ := bind_eq_ok_iff.1 passed
      obtain ⟨more, later, passed⟩ := bind_eq_ok_iff.1 passed
      cases passed
      obtain ⟨used, same, derived, clean⟩ := inner rest next here
      obtain ⟨others, split, clean, last | ⟨separate, rfl, derives⟩⟩ := ih next later clean
      · obtain ⟨rfl, none⟩ := last
        refine ⟨.punct .comma :: used, ?_, clean, Or.inr ⟨used, rfl, ?_⟩⟩
        · exact congrArg (List.cons _) (same.trans (congrArg (used ++ ·) split))
        · simpa [Parsed.widen, Parsed.map, none] using Separated.one derived
      · refine ⟨.punct .comma :: (used ++ .punct .comma :: separate), ?_, clean, Or.inr ⟨_, rfl, ?_⟩⟩
        · exact congrArg (List.cons _) (append_of_append same split)
        · exact .cons derived derives
  | case2 tokens other =>
      rw [Source.sequenceFrom.eq_def] at passed
      split at passed
      · exact absurd rfl (other _)
      · cases passed
        exact ⟨[], rfl, clean, Or.inl ⟨rfl, rfl⟩⟩

theorem sequence_sound (inner : Sound source conditional nested) :
    Sound source (source.sequence conditional) (SequenceOf nested) := by
  intro tokens parsed passed
  simp only [Source.sequence] at passed
  obtain ⟨first, here, passed⟩ := bind_eq_ok_iff.1 passed
  obtain ⟨more, later, passed⟩ := bind_eq_ok_iff.1 passed
  cases passed
  obtain ⟨used, same, derived, clean⟩ := inner tokens first here
  obtain ⟨others, split, clean, last | ⟨separate, rfl, derives⟩⟩ := sequenceFrom_sound inner later clean
  · obtain ⟨rfl, none⟩ := last
    refine ⟨used, same.trans (congrArg (used ++ ·) split), ?_, clean⟩
    simpa [Parsed.widen, Parsed.map, none] using SequenceOf.one derived
  · refine ⟨used ++ .punct .comma :: separate, append_of_append same split, ?_, clean⟩
    cases values : more.value with
    | nil =>
        rw [values] at derives
        cases derives
    | cons next others =>
        rw [values] at derives
        simpa [Parsed.widen, Parsed.map, values] using SequenceOf.more derived derives

end

/-- One more item in front. -/
theorem Listed.cons {item : Rule α} {first others : List Token} {value : α} {values : List α}
    (here : item first value) (later : Listed item others values) :
    Listed item (first ++ .punct .comma :: others) (value :: values) := by
  cases later with
  | none => exact .trailing (.one here)
  | plain separated => exact .plain (.cons here separated)
  | trailing separated =>
      simpa only [List.append_assoc, List.cons_append] using Listed.trailing (.cons here separated)

theorem items_sound {close : Punct} {item : Parser α} {rule : Rule α} (sound : Sound source item rule) :
    Sound source (source.items close item) fun used values =>
      ∃ inner, used = inner ++ [.punct close] ∧ Listed rule inner values := by
  intro tokens parsed passed
  induction tokens using Source.items.induct (α := α) close with
  | case1 tokens closes =>
      rw [Source.items, if_pos closes] at passed
      obtain ⟨closed, here, passed⟩ := bind_eq_ok_iff.1 passed
      cases passed
      obtain ⟨used, same, rfl, clean⟩ := expect_sound close tokens closed here
      exact ⟨_, same, ⟨[], rfl, .none⟩, clean⟩
  | case2 tokens goesOn ih =>
      rw [Source.items, if_neg goesOn] at passed
      obtain ⟨first, here, passed⟩ := bind_eq_ok_iff.1 passed
      obtain ⟨used, same, derived, -⟩ := sound tokens first here
      split at passed
      · rename_i rest comma
        obtain ⟨_, -, passed⟩ := bind_eq_ok_iff.1 passed
        obtain ⟨more, later, passed⟩ := bind_eq_ok_iff.1 passed
        cases passed
        obtain ⟨_, split, ⟨inner, rfl, listed⟩, clean⟩ := ih first rest comma more later
        refine ⟨used ++ .punct .comma :: (inner ++ [.punct close]), ?_, ?_, clean⟩
        · exact append_of_append same (comma.trans (congrArg (List.cons _) split))
        · exact ⟨used ++ .punct .comma :: inner, by simp, .cons derived listed⟩
      · obtain ⟨closed, later, passed⟩ := bind_eq_ok_iff.1 passed
        cases passed
        obtain ⟨_, split, rfl, clean⟩ := expect_sound close first.rest closed later
        exact ⟨_, append_of_append same split, ⟨used, rfl, .plain (.one derived)⟩, clean⟩

theorem key_sound {token : Token} {name : String} (read : source.key token = .ok name) :
    KeyOf token name := by
  unfold Source.key at read
  split at read
  · cases read
    exact .identifier
  · cases read
    exact .number
  · cases read
    exact .string
  · cases read

section

variable {conditional unary : Parser Expr} {nested operand : Rule Expr}

theorem member_sound (inner : Sound source conditional nested) :
    Sound source (source.member conditional) (MemberOf nested) := by
  intro tokens parsed passed
  unfold Source.member at passed
  split at passed
  · cases passed
  · rename_i token rest
    obtain ⟨_, clean, passed⟩ := bind_eq_ok_iff.1 passed
    obtain ⟨name, read, passed⟩ := bind_eq_ok_iff.1 passed
    obtain ⟨value, here, passed⟩ := bind_eq_ok_iff.1 passed
    cases passed
    have key := key_sound read
    unfold Source.keyed at here
    split at here
    · rename_i after _ _
      obtain ⟨_, -, here⟩ := bind_eq_ok_iff.1 here
      obtain ⟨tree, named, here⟩ := bind_eq_ok_iff.1 here
      cases here
      obtain ⟨used, same, derived, clean⟩ := inner after tree named
      refine ⟨token :: .punct .colon :: used, ?_, .keyed key derived, clean⟩
      exact congrArg (token :: .punct .colon :: ·) same
    · cases here
      cases read
      exact ⟨_, rfl, .shorthand, clean⟩
    · cases here

theorem segmentName_sound :
    Sound source source.segmentName fun used name => ∃ token, used = [token] ∧ SegmentOf token name := by
  intro tokens parsed passed
  unfold Source.segmentName at passed
  split at passed
  · cases passed
  · obtain ⟨_, clean, passed⟩ := bind_eq_ok_iff.1 passed
    split at passed
    · cases passed
      exact ⟨_, rfl, ⟨_, rfl, .identifier⟩, clean⟩
    · cases passed
      exact ⟨_, rfl, ⟨_, rfl, .number⟩, clean⟩
    · cases passed

/-- What goes on with a path: segments, and perhaps the arguments of a call. -/
inductive ContinuesPath (nested : Rule Expr) (root : Root) (segments : List Segment) : Rule Expr where
  | path {tokens : List Token} {more : List Segment} :
      SegmentsOf nested tokens more → ContinuesPath nested root segments tokens (.path ⟨root, segments ++ more⟩)
  | call {tokens inner : List Token} {more : List Segment} {args : List Expr} :
      SegmentsOf nested tokens more → Listed nested inner args →
      ContinuesPath nested root segments
        (tokens ++ .punct .openParen :: (inner ++ [.punct .closeParen])) (.call ⟨root, segments ++ more⟩ args)

theorem ContinuesPath.name {root : Root} {segments : List Segment} {token : Token} {name : String}
    {tokens : List Token} {tree : Expr} (named : SegmentOf token name)
    (continues : ContinuesPath nested root (segments ++ [.name name]) tokens tree) :
    ContinuesPath nested root segments (.punct .dot :: token :: tokens) tree := by
  cases continues with
  | path more =>
      have whole : ContinuesPath nested root segments _ _ := .path (.name named more)
      simpa using whole
  | call more listed =>
      have whole : ContinuesPath nested root segments _ _ := .call (.name named more) listed
      simpa using whole

theorem ContinuesPath.index {root : Root} {segments : List Segment} {inner tokens : List Token}
    {index tree : Expr} (derived : SequenceOf nested inner index)
    (continues : ContinuesPath nested root (segments ++ [.index index]) tokens tree) :
    ContinuesPath nested root segments
      (.punct .openBracket :: (inner ++ .punct .closeBracket :: tokens)) tree := by
  cases continues with
  | path more =>
      have whole : ContinuesPath nested root segments _ _ := .path (.index derived more)
      simpa using whole
  | call more listed =>
      have whole : ContinuesPath nested root segments _ _ := .call (.index derived more) listed
      simpa using whole

theorem members_sound (inner : Sound source conditional nested) {root : Root} {segments : List Segment}
    {tokens : List Token} {whole : Parsed Expr (tokens.length + 1)}
    (passed : source.members conditional root segments tokens = .ok whole)
    (clean : source.Clean tokens) :
    ∃ used, tokens = used ++ whole.rest ∧ ContinuesPath nested root segments used whole.value ∧
      source.Clean whole.rest := by
  induction segments, tokens using Source.members.induct with
  | case1 segments rest ih =>
      rw [Source.members] at passed
      obtain ⟨_, -, passed⟩ := bind_eq_ok_iff.1 passed
      obtain ⟨name, here, passed⟩ := bind_eq_ok_iff.1 passed
      obtain ⟨more, later, passed⟩ := bind_eq_ok_iff.1 passed
      cases passed
      obtain ⟨_, same, ⟨token, rfl, named⟩, clean⟩ := segmentName_sound rest name here
      obtain ⟨others, split, continues, clean⟩ := ih name later clean
      refine ⟨.punct .dot :: token :: others, ?_, .name named continues, clean⟩
      exact congrArg (List.cons _) (append_of_append same split)
  | case2 segments rest ih =>
      rw [Source.members] at passed
      obtain ⟨_, -, passed⟩ := bind_eq_ok_iff.1 passed
      obtain ⟨index, here, passed⟩ := bind_eq_ok_iff.1 passed
      obtain ⟨closed, between, passed⟩ := bind_eq_ok_iff.1 passed
      obtain ⟨more, later, passed⟩ := bind_eq_ok_iff.1 passed
      cases passed
      obtain ⟨used, same, derived, -⟩ := sequence_sound inner rest index here
      obtain ⟨_, splitMark, rfl, clean⟩ := expect_sound .closeBracket index.rest closed between
      obtain ⟨others, split, continues, clean⟩ := ih index closed later clean
      refine ⟨.punct .openBracket :: (used ++ .punct .closeBracket :: others), ?_, ?_, clean⟩
      · exact congrArg (List.cons _) (append_of_append same (append_of_append splitMark split))
      · exact .index derived continues
  | case3 segments rest =>
      rw [Source.members] at passed
      obtain ⟨_, -, passed⟩ := bind_eq_ok_iff.1 passed
      obtain ⟨args, here, passed⟩ := bind_eq_ok_iff.1 passed
      cases passed
      obtain ⟨_, same, ⟨used, rfl, listed⟩, clean⟩ := items_sound inner rest args here
      refine ⟨.punct .openParen :: (used ++ [.punct .closeParen]), ?_, ?_, clean⟩
      · exact congrArg (List.cons _) same
      · have whole : ContinuesPath nested root segments _ _ := .call .nil listed
        simpa [Parsed.widen, Parsed.map] using whole
  | case4 segments tokens notDot notBracket notParen =>
      rw [Source.members.eq_def] at passed
      split at passed
      · exact absurd rfl (notDot _)
      · exact absurd rfl (notBracket _)
      · exact absurd rfl (notParen _)
      · cases passed
        have whole : ContinuesPath nested root segments _ _ := .path .nil
        exact ⟨[], rfl, by simpa using whole, clean⟩

/-- A path, or a call of it. -/
theorem ContinuesPath.whole {token : Token} {root : Root} {start : List Segment}
    {tokens : List Token} {tree : Expr} (starts : RootOf token root start)
    (continues : ContinuesPath nested root start tokens tree) : OperandOf nested (token :: tokens) tree := by
  cases continues with
  | path more => exact .path starts more
  | call more listed => exact .call starts more listed

theorem operand_sound (inner : Sound source conditional nested) :
    Sound source (source.operand conditional) (OperandOf nested) := by
  intro tokens parsed passed
  unfold Source.operand at passed
  split at passed
  · cases passed
  rename_i token rest
  obtain ⟨_, clean, passed⟩ := bind_eq_ok_iff.1 passed
  have path {root : Root} {start : List Segment} (starts : RootOf token root start)
      (passed : source.members conditional root start rest = .ok parsed) :
      ∃ used, token :: rest = used ++ parsed.rest ∧ OperandOf nested used parsed.value ∧
        source.Clean parsed.rest := by
    obtain ⟨used, same, continues, clean⟩ := members_sound inner passed clean
    exact ⟨token :: used, congrArg (List.cons _) same, continues.whole starts, clean⟩
  simp only at passed
  split at passed
  · split at passed
    · rename_i value read
      cases passed
      exact ⟨_, rfl, .number read, clean⟩
    · cases passed
  · cases passed
    exact ⟨_, rfl, .string, clean⟩
  · obtain ⟨tree, here, passed⟩ := bind_eq_ok_iff.1 passed
    obtain ⟨closed, between, passed⟩ := bind_eq_ok_iff.1 passed
    cases passed
    obtain ⟨used, same, derived, -⟩ := sequence_sound inner rest tree here
    obtain ⟨_, split, rfl, clean⟩ := expect_sound .closeParen tree.rest closed between
    refine ⟨_, ?_, .group derived, clean⟩
    exact congrArg (List.cons _) (append_of_append same split)
  · obtain ⟨members, here, passed⟩ := bind_eq_ok_iff.1 passed
    cases passed
    obtain ⟨_, same, ⟨used, rfl, listed⟩, clean⟩ := items_sound (member_sound inner) rest members here
    exact ⟨_, congrArg (List.cons _) same, object_of_listed listed, clean⟩
  · obtain ⟨items, here, passed⟩ := bind_eq_ok_iff.1 passed
    cases passed
    obtain ⟨_, same, ⟨used, rfl, listed⟩, clean⟩ := items_sound inner rest items here
    exact ⟨_, congrArg (List.cons _) same, array_of_listed listed, clean⟩
  · cases passed
  · rename_i name
    split at passed
    · rename_i value known
      cases passed
      exact ⟨_, rfl, .constant known, clean⟩
    · rename_i unknown
      split at passed
      · rename_i this
        subst this
        exact path .this passed
      · rename_i other
        exact path (.name unknown other) passed
  · exact path .aliasName passed
  · exact path .attributeName passed

theorem prefixed_sound (inner : Sound source conditional nested) (sound : Sound source unary operand)
    (signed : ∀ tokens n, operand tokens (.literal (.int n)) → IsSigned n) :
    Sound source (source.prefixed conditional unary) (PrefixedOf nested operand) := by
  have plain (tokens : List Token) (parsed : Parsed Expr tokens.length)
      (passed : source.operand conditional tokens = .ok parsed) :
      ∃ used, tokens = used ++ parsed.rest ∧ PrefixedOf nested operand used parsed.value ∧
        source.Clean parsed.rest := by
    obtain ⟨used, same, derived, clean⟩ := operand_sound inner tokens parsed passed
    exact ⟨used, same, .operand derived, clean⟩
  intro tokens parsed passed
  unfold Source.prefixed at passed
  split at passed
  · rename_i punct rest
    split at passed
    · rename_i sign
      obtain ⟨_, -, passed⟩ := bind_eq_ok_iff.1 passed
      obtain ⟨arg, here, passed⟩ := bind_eq_ok_iff.1 passed
      cases passed
      obtain ⟨used, same, derived, clean⟩ := sound rest arg here
      exact ⟨.punct punct :: used, congrArg (List.cons _) same,
        prefixed_unaryOf sign derived (signed used), clean⟩
    · exact plain _ parsed passed
  · exact plain _ parsed passed

end

/-- The parsers that may nest to a depth take what nests at most so. -/
theorem level_sound (depth : Nat) :
    Sound source (source.level depth).conditional (nested depth).conditional ∧
      Sound source (source.level depth).unary (nested depth).unary := by
  induction depth with
  | zero =>
      constructor
      · intro tokens parsed passed
        cases passed
      · intro tokens parsed passed
        cases passed
  | succ depth ih =>
      obtain ⟨conditional, unary⟩ := ih
      constructor
      · exact ternary_sound conditional unary
      · exact prefixed_sound conditional unary fun _ _ derived => isSigned_of_nested.2 derived

end Stencil.Grammar
