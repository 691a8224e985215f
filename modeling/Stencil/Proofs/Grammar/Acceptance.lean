import Mathlib
import Stencil.Proofs.Grammar.Completeness
import Stencil.Proofs.Grammar.Soundness

/-! A source is accepted as far as its tokens derive a tree.

The parsers take exactly what the rules allow, up to the depth of nesting. No tokens
derive two trees, since a parser gives one result.
-/

set_option autoImplicit false

namespace Stencil

open Grammar

namespace Grammar

/-- Tokens that derive a tree are all taken, unless the depth runs out. -/
theorem sequence_reaches {source : Source} (whole : source.fault = none) {depth : Nat}
    {tokens : List Token} {tree : Expr} (derived : DerivesWithin depth tokens tree) (limit : Nat) :
    Reaches source (limit < depth) (source.sequence (source.level limit).conditional tokens) tree [] := by
  have complete := sequence_complete whole (level_complete whole depth limit).1
  have found := complete tokens tree [] derived (stops_nil _)
  rw [List.append_nil] at found
  exact found

/-- No tokens derive two trees. -/
theorem Derives.unique {tokens : List Token} {first second : Expr} (here : Derives tokens first)
    (there : Derives tokens second) : first = second := by
  obtain ⟨depth, here⟩ := here
  obtain ⟨other, there⟩ := there
  -- At a limit above both depths nothing runs out.
  let source : Source := ⟨"", none⟩
  have left := sequence_reaches (show source.fault = none from rfl) here (depth + other)
  have right := sequence_reaches (show source.fault = none from rfl) there (depth + other)
  have first := left.resolve_right fun runsOut => by omega
  have second := right.resolve_right fun runsOut => by omega
  exact congrArg Prod.fst (Except.ok.inj (first.symm.trans second))

theorem DerivesWithin.ne_nil {depth : Nat} {tokens : List Token} {tree : Expr}
    (derived : DerivesWithin depth tokens tree) : tokens ≠ [] := by
  cases derived with
  | one inner => exact ((starts_nested depth).1 _ _ inner).1
  | more => simp

/-- Tokens that derive a tree derive none with more tokens after them, unless these go on with
the tree. -/
theorem Derives.eq_nil_of_append {tokens rest : List Token} {first second : Expr}
    (here : Derives tokens first) (stops : Stops (.comma :: conditionalMarks) rest)
    (there : Derives (tokens ++ rest) second) : rest = [] := by
  obtain ⟨depth, here⟩ := here
  obtain ⟨other, there⟩ := there
  let source : Source := ⟨"", none⟩
  have whole : source.fault = none := rfl
  have complete := sequence_complete whole (level_complete whole depth (depth + other)).1
  have short := (complete tokens first rest here stops).resolve_right fun runsOut => by omega
  have long := (sequence_reaches whole there (depth + other)).resolve_right fun runsOut => by omega
  exact congrArg Prod.snd (Except.ok.inj (short.symm.trans long))

end Grammar

namespace Expr

variable {text : String} {tree : Expr}

/-- What a source derives within the limit is its tree. -/
theorem parse_of_derivesWithin {depth : Nat} (whole : (Token.readSource text).fault = none)
    (derived : DerivesWithin depth (Token.readSource text).items tree) :
    parse text = .ok tree ∨ depthLimit < depth ∧ parse text = .error ⟨.tooDeep, text⟩ := by
  let source : Source := ⟨text, (Token.readSource text).fault⟩
  have clean : source.fault = none := whole
  have taken := take_of_fault_eq_none clean (Token.readSource text).items
  simp only [parse, ofTokens]
  change (source.take _ >>= _) = _ ∨ _ ∧ (source.take _ >>= _) = _
  rw [taken]
  rcases sequence_reaches clean derived depthLimit with found | ⟨runsOut, found⟩
  · obtain ⟨fewer, found⟩ := outcome_eq_ok_iff.1 found
    left
    change (source.sequence (source.level depthLimit).conditional _ >>= _) = _
    rw [found]
    rfl
  · rw [outcome_eq_error_iff] at found
    right
    change _ ∧ (source.sequence (source.level depthLimit).conditional _ >>= _) = _
    rw [found]
    exact ⟨runsOut, rfl⟩

theorem derivesWithin_of_parse (parsed : parse text = .ok tree) :
    (Token.readSource text).fault = none ∧
      DerivesWithin depthLimit (Token.readSource text).items tree := by
  simp only [parse, ofTokens] at parsed
  obtain ⟨_, -, parsed⟩ := bind_eq_ok_iff.1 parsed
  obtain ⟨found, here, parsed⟩ := bind_eq_ok_iff.1 parsed
  obtain ⟨used, same, derived, clean⟩ := sequence_sound (level_sound depthLimit).1 _ found here
  split at parsed
  · rename_i ended
    cases parsed
    rw [ended] at clean
    have all : (Token.readSource text).items = used :=
      same.trans ((congrArg (used ++ ·) ended).trans (List.append_nil used))
    exact ⟨clean.fault, all.symm ▸ derived⟩
  · cases parsed

/-- The tree of a source is what its tokens derive within the limit. -/
theorem parse_eq_ok_iff :
    parse text = .ok tree ↔
      (Token.readSource text).fault = none ∧
        DerivesWithin depthLimit (Token.readSource text).items tree := by
  constructor
  · exact derivesWithin_of_parse
  · rintro ⟨whole, derived⟩
    rcases parse_of_derivesWithin whole derived with parsed | ⟨runsOut, -⟩
    · exact parsed
    · exact absurd runsOut (Nat.lt_irrefl depthLimit)

/-- A source has a tree exactly if it is read to its end and its tokens derive the tree within the
limit. A source whose tokens derive a tree has that tree, or the tree nests more deeply and this is
the fault. Tokens derive one tree. -/
theorem parse_accepts (text : String) (tree : Expr) :
    (parse text = .ok tree ↔
      (Token.readSource text).fault = none ∧
        DerivesWithin depthLimit (Token.readSource text).items tree) ∧
    ((Token.readSource text).fault = none → Derives (Token.readSource text).items tree →
      parse text = .ok tree ∨
        ¬ DerivesWithin depthLimit (Token.readSource text).items tree ∧
          parse text = .error ⟨.tooDeep, text⟩) ∧
    ∀ other, Derives (Token.readSource text).items tree →
      Derives (Token.readSource text).items other → tree = other := by
  refine ⟨parse_eq_ok_iff, ?_, fun other here there => here.unique there⟩
  rintro whole ⟨depth, derived⟩
  rcases parse_of_derivesWithin whole derived with parsed | ⟨-, deep⟩
  · exact .inl parsed
  · refine .inr ⟨fun within => ?_, deep⟩
    cases deep.symm.trans (parse_eq_ok_iff.2 ⟨whole, within⟩)

/-- Operators of three levels, and two that stand before their argument. -/
def mixedTokens : List Token :=
  [.identifier "a", .punct .minus, .identifier "b", .punct .times, .punct .minus, .number "2",
    .punct .or, .punct .not, .identifier "c"]

def mixedTree : Expr :=
  .operator "||" [.operator "-" [.ofName "a", .operator "*" [.ofName "b", .literal (.int (-2))]],
    .operator "!" [.ofName "c"]]

theorem mixedTokens_derives (depth : Nat) : DerivesWithin (depth + 3) mixedTokens mixedTree := by
  have named (name : String) (plain : constant? name = none) (other : name ≠ "this") :
      (nested (depth + 2)).unary [.identifier name] (.ofName name) :=
    .operand (.path (.name plain other) .nil)
  have two : (nested (depth + 1)).unary [.number "2"] (.literal (.int 2)) := .operand (.number rfl)
  have product : BinaryOf (nested (depth + 2)).unary [[.times, .divide, .modulo]]
      [.identifier "b", .punct .times, .punct .minus, .number "2"]
      (.operator "*" [.ofName "b", .literal (.int (-2))]) :=
    .join (show Punct.times ∈ _ by decide) (.of_unary (named "b" rfl (by decide)) _)
      (.operand (.negative two rfl))
  have difference : BinaryOf (nested (depth + 2)).unary [[.plus, .minus], [.times, .divide, .modulo]]
      [.identifier "a", .punct .minus, .identifier "b", .punct .times, .punct .minus, .number "2"]
      (.operator "-" [.ofName "a", .operator "*" [.ofName "b", .literal (.int (-2))]]) :=
    .join (show Punct.minus ∈ _ by decide) (.of_unary (named "a" rfl (by decide)) _) product
  have negation : (nested (depth + 2)).unary [.punct .not, .identifier "c"]
      (.operator "!" [.ofName "c"]) :=
    .operator (show Punct.not ∈ _ by decide)
      (.operand (.path (.name (by decide) (by decide)) .nil)) (by simp)
  have either : BinaryOf (nested (depth + 2)).unary Punct.levels mixedTokens mixedTree :=
    .join (show Punct.or ∈ _ by decide) (.tighter (.tighter (.tighter (.tighter difference))))
      (.of_unary negation _)
  exact .one (.test either)

set_option maxRecDepth 20000 in
theorem parse_accepts_mixed :
    ((Token.readSource "a - b * -2 || !c").fault = none ∧
        DerivesWithin depthLimit (Token.readSource "a - b * -2 || !c").items mixedTree) ∧
      parse "a - b * -2 || !c" = .ok mixedTree ∧
      ∀ other, Derives (Token.readSource "a - b * -2 || !c").items other → mixedTree = other := by
  have read : Token.readSource "a - b * -2 || !c" = ⟨mixedTokens, none⟩ := by cbv
  have derived := mixedTokens_derives 253
  obtain ⟨exact, -, unique⟩ := parse_accepts "a - b * -2 || !c" mixedTree
  rw [read] at exact unique ⊢
  exact ⟨⟨rfl, derived⟩, exact.2 ⟨rfl, derived⟩, fun other => unique other ⟨depthLimit, derived⟩⟩

end Expr

end Stencil
