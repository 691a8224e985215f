import Stencil.Expression.Basic
import Stencil.Proofs.Grammar.Acceptance
import Stencil.Proofs.Printed.Aligns

/-! Which expressions read back from their printed forms.

An expression that is read from a source reads back from its printed form exactly if it
is readable and its form does not nest too deeply.
-/

set_option autoImplicit false

namespace Stencil.Expr

open Grammar Token Printed

variable {source : String} {tree : Expr}

/-- The trees of sources are well formed. -/
theorem formed_of_parse (parsed : parse source = .ok tree) : tree.Formed := by
  obtain ⟨-, derived⟩ := parse_eq_ok_iff.1 parsed
  have ensured := ensures_sequence (ensures_nested depthLimit).1
  exact ensured _ _ derived (valid_of_mem_readAll _)

/-- Nothing is trimmed from a printed form. -/
theorem readSource_text (formed : tree.Formed) : readSource tree.text = lex tree.text.toList := by
  obtain ⟨opens, shuts⟩ := framed_expr formed
  rw [readSource, trim_eq opens shuts, lex, opens.trimStart_eq]

/-- A source without blanks around it reads as the tokens that spell it, -/
theorem readSource_of_spelled {text : List Char} {tokens : List Token} (trimmed : Text.Trimmed text)
    (spelled : Spelled text tokens) : readSource (String.ofList text) = Reading.nil.prepend tokens := by
  rw [readSource, String.toList_ofList, Text.trim_of_trimmed trimmed, ← lex_nil, ← spelled [] closes_nil,
    List.append_nil, lex, Text.trimStart_of_trimmed trimmed]

/-- and has the tree that these derive. -/
theorem parse_of_spelled {text : List Char} {tokens : List Token} (opens : Opens text) (shuts : Shuts text)
    (spelled : Spelled text tokens) (derived : DerivesWithin depthLimit tokens tree) :
    parse (String.ofList text) = .ok tree := by
  have whole := readSource_of_spelled (trimmed_of_opens opens shuts) spelled
  have items : (readSource (String.ofList text)).items = tokens := by
    rw [whole]
    exact List.append_nil tokens
  rw [parse_eq_ok_iff, items]
  exact ⟨congrArg Reading.fault whole, derived⟩

/-- A well formed tree reads back exactly if it fits the place of a whole source. -/
theorem parse_text_of_formed (formed : tree.Formed) :
    parse tree.text = .ok tree ↔ tree.Within 0 depthLimit := by
  obtain ⟨depth, limit⟩ : ∃ depth, depthLimit = depth + 1 := ⟨_, rfl⟩
  rw [limit, within_succ_iff]
  constructor
  · rw [parse_eq_ok_iff, readSource_text formed, limit]
    rintro ⟨-, derived⟩
    have aligned := aligns_of_formed formed 0 depth (Nat.zero_le _)
    have whole : (lex (tree.text.toList ++ [])).items = (lex tree.text.toList).items ++ [] := by
      rw [List.append_nil, List.append_nil]
    exact (aligned _ [] [] closes_nil (stops_none []) whole derived).1
  · intro fits
    obtain ⟨opens, shuts⟩ := framed_expr formed
    obtain ⟨tokens, spelled, derived⟩ := reads_of_formed formed 0 depth fits
    have derived : DerivesWithin depthLimit tokens tree := by
      rw [limit]
      exact derived
    have parsed := parse_of_spelled opens shuts spelled derived
    rwa [String.ofList_toList] at parsed

/-- The source of an expression by itself is its printed form. What is read from some
source reads back from this form exactly if every argument stands where no brackets are
needed, every name is a word of its own, and the form nests within the limit. -/
theorem parse_text_eq_ok_iff (parsed : parse source = .ok tree) :
    (Expression.ofExpr tree).marks.source = tree.text ∧
      (parse tree.text = .ok tree ↔ tree.isReadable = true ∧ tree.nesting < depthLimit) := by
  refine ⟨rfl, ?_⟩
  rw [parse_text_of_formed (formed_of_parse parsed)]
  constructor
  · exact fun within => ⟨within.readable, within.nesting⟩
  · exact fun ⟨readable, nesting⟩ => ⟨Nat.zero_le _, readable, nesting⟩

set_option maxRecDepth 20000 in
theorem parse_text_product :
    let tree : Expr := .operator "+" [.ofName "a", .operator "*" [.ofName "b", .ofName "c"]]
    parse "a + b*c" = .ok tree ∧ (Expression.ofExpr tree).marks.source = tree.text ∧
      (parse tree.text = .ok tree ↔ tree.isReadable = true ∧ tree.nesting < depthLimit) ∧
      parse tree.text = .ok tree := by
  intro tree
  have parsed : parse "a + b*c" = .ok tree := by cbv
  obtain ⟨same, back⟩ := parse_text_eq_ok_iff parsed
  exact ⟨parsed, same, back, back.2 ⟨by decide, by decide⟩⟩

set_option maxRecDepth 20000 in
/-- Brackets that group are not printed, and the form groups otherwise. -/
theorem parse_text_group :
    let tree : Expr := .operator "*" [.operator "+" [.ofName "a", .ofName "b"], .ofName "c"]
    let other : Expr := .operator "+" [.ofName "a", .operator "*" [.ofName "b", .ofName "c"]]
    parse "(a + b) * c" = .ok tree ∧ parse tree.text = .ok other ∧ tree ≠ other := by
  intro tree other
  refine ⟨by cbv, by cbv, fun same => ?_⟩
  exact absurd (Expr.operator.inj same).1 (by decide)

end Stencil.Expr
