import Stencil.Proofs.Printed.Ends

/-! A tree that fits its place reads back from its text. -/

set_option autoImplicit false

namespace Stencil.Printed

open Grammar Token

/-- Wherever the tree fits, some tokens that derive it spell its text. -/
def Reads (tree : Expr) : Prop :=
  ∀ place depth, tree.Fits place depth →
    ∃ tokens, Spelled tree.text.toList tokens ∧ At place depth tokens tree

section

variable {tree : Expr}

/-- A tree that is derived at its rank is derived in all looser places. -/
theorem reads_of_rank {rank : Nat} (same : tree.rank = rank)
    (reads : ∀ depth, tree.Fits rank depth →
      ∃ tokens, Spelled tree.text.toList tokens ∧ At rank depth tokens tree) : Reads tree := by
  subst same
  intro place depth fits
  obtain ⟨tokens, spelled, derived⟩ := reads depth ⟨le_refl _, fits.readable, fits.nesting⟩
  exact ⟨tokens, spelled, derived.of_le fits.rank⟩

theorem reads_of_unary (formed : tree.Formed) (same : tree.rank = operandRank)
    (reads : ∀ depth, tree.Fits operandRank (depth + 1) →
      ∃ tokens, Spelled tree.text.toList tokens ∧ (nested (depth + 1)).unary tokens tree) : Reads tree := by
  refine reads_of_rank same fun depth fits => ?_
  obtain ⟨depth, rfl⟩ := Nat.exists_eq_add_of_le' (Nat.lt_of_lt_of_le formed.nesting_pos fits.nesting)
  obtain ⟨tokens, spelled, derived⟩ := reads depth fits
  exact ⟨tokens, spelled, .operand derived⟩

theorem Reads.sequence (reads : Reads tree) {depth : Nat} (within : tree.Within 0 depth) :
    ∃ tokens, Spelled tree.text.toList tokens ∧ SequenceOf (nested depth).conditional tokens tree := by
  obtain ⟨depth, rfl⟩ := Nat.exists_eq_add_of_le' (Nat.lt_of_le_of_lt (Nat.zero_le _) within.nesting)
  exact reads 0 depth (Expr.within_succ_iff.1 within)

theorem Reads.conditional (reads : Reads tree) {depth : Nat} (within : tree.Within 1 depth) :
    ∃ tokens, Spelled tree.text.toList tokens ∧ (nested depth).conditional tokens tree := by
  obtain ⟨depth, rfl⟩ := Nat.exists_eq_add_of_le' (Nat.lt_of_le_of_lt (Nat.zero_le _) within.nesting)
  exact reads 1 depth (Expr.within_succ_iff.1 within)

end

section

variable {conditional : Rule Expr} {tokens inner : List Token} {path : Path} {args : List Expr}

theorem PathOf.operand (derived : PathOf conditional tokens path) :
    OperandOf conditional tokens (.path path) := by
  obtain ⟨token, start, segments, rest, rfl, same, isRoot, derived⟩ := derived
  obtain ⟨root, whole⟩ := path
  simp only at same
  subst same
  exact .path isRoot derived

theorem PathOf.call (derived : PathOf conditional tokens path) (listed : Listed conditional inner args) :
    OperandOf conditional (tokens ++ .punct .openParen :: (inner ++ [.punct .closeParen]))
      (.call path args) := by
  obtain ⟨token, start, segments, rest, rfl, same, isRoot, derived⟩ := derived
  obtain ⟨root, whole⟩ := path
  simp only at same
  subst same
  exact .call isRoot derived listed

end

theorem reads_literal {value : Value} (formed : value.Formed) : Reads (.literal value) := by
  refine reads_of_unary (.literal formed) rfl fun depth fits => ?_
  exact exists_literal formed depth (Expr.fits_literal.1 fits)

section

variable {path : Path} (named : path.Named)
  (formed : ∀ index, .index index ∈ path.segments → index.Formed)
  (indices : ∀ index, .index index ∈ path.segments → Reads index)

include named formed indices

theorem reads_path : Reads (.path path) := by
  refine reads_of_unary (.path named formed) rfl fun depth fits => ?_
  have fits := Expr.fits_path.1 fits
  obtain ⟨tokens, spelled, derived⟩ := exists_path named fits fun index member =>
    (indices index member).sequence (fits.indices index member)
  exact ⟨tokens, fun rest closes => spelled rest closes.endsPath, .operand derived.operand⟩

theorem reads_call {args : List Expr} (formedArgs : ∀ arg ∈ args, arg.Formed)
    (each : ∀ arg ∈ args, Reads arg) : Reads (.call path args) := by
  refine reads_of_unary (.call named formed formedArgs) rfl fun depth fits => ?_
  obtain ⟨fits, within⟩ := Expr.fits_call.1 fits
  obtain ⟨tokens, spelled, derived⟩ := exists_path named fits fun index member =>
    (indices index member).sequence (fits.indices index member)
  obtain ⟨_, more, inner, rfl, listed⟩ := exists_listed .paren .wide fun arg member =>
    (each arg member).conditional (within arg member)
  refine ⟨_, fun rest closes => ?_, .operand (derived.call listed)⟩
  have ends : EndsPath (enclosed .openParen .closeParen
      (List.intercalate [',', ' '] (args.map fun arg => arg.text.toList)) ++ rest) := by
    rintro c same
    cases same
    decide
  rw [Expr.text_call, List.append_assoc, spelled _ ends, more rest closes, prepend_append]

end

theorem reads_array {items : List Expr} (other : ∃ item ∈ items, item.isLiteral = false)
    (formed : ∀ item ∈ items, item.Formed) (each : ∀ item ∈ items, Reads item) :
    Reads (.operator Operator.array items) := by
  refine reads_of_unary (.array other formed) (rank_bracket (Or.inl rfl) items) fun depth fits => ?_
  have within := Expr.fits_array.1 fits
  obtain ⟨_, spelled, inner, rfl, listed⟩ := exists_listed .bracket .wide fun item member =>
    (each item member).conditional (within item member)
  rw [Expr.text_array]
  exact ⟨_, spelled, .operand (.array listed other)⟩

/-- A key that is a word stands before a colon and a value. -/
theorem Spelled.keyed {key : String} (word : isWord key.toList = true) {text : List Char}
    {tokens : List Token} (spelled : Spelled text tokens) :
    Spelled (key.toList ++ ':' :: ' ' :: text) (wordToken key :: .punct .colon :: tokens) := by
  intro rest closes
  have stop : ∀ c ∈ (':' :: ' ' :: (text ++ rest)).head?, isNameChar c = false := Text.stop_cons rfl _
  rw [List.append_assoc, List.cons_append, List.cons_append,
    lex_word word stop fun _ _ _ same => (by cases same), lex_colon, spelled rest closes, prepend_cons,
    prepend_cons]

/-- A member whose key is a word reads back. -/
theorem exists_member {member : String × Expr} {depth : Nat} (word : isWord member.1.toList = true)
    (reads : Reads member.2) (within : member.2.Within 1 depth) :
    ∃ tokens, Spelled (Expr.memberText member) tokens ∧
      MemberOf (nested depth).conditional tokens member := by
  obtain ⟨key, value⟩ := member
  obtain ⟨tokens, spelled, derived⟩ := reads.conditional within
  exact ⟨_, spelled.keyed word, .keyed (key_word key) derived⟩

theorem reads_object {members : List (String × Expr)}
    (other : ∃ member ∈ members, member.2.isLiteral = false)
    (formed : ∀ member ∈ members, member.2.Formed) (each : ∀ member ∈ members, Reads member.2) :
    Reads (.operator Operator.object (alternating members)) := by
  refine reads_of_unary (.object other formed) (rank_bracket (Or.inr rfl) _) fun depth fits => ?_
  have fits := (Expr.fits_object formed).1 fits
  obtain ⟨_, spelled, inner, rfl, listed⟩ := exists_listed .brace .wide fun member among =>
    exists_member (fits member among).1 (each member among) (fits member among).2
  rw [Expr.text_object]
  exact ⟨_, spelled, .operand (.object listed other)⟩

theorem reads_unary {punct : Punct} {arg : Expr} (sign : punct ∈ Punct.unary)
    (other : ¬ (punct = .minus ∧ IsNumber arg)) (formed : arg.Formed) (reads : Reads arg) :
    Reads (.operator punct.text [arg]) := by
  refine reads_of_unary (.unary sign other formed) (rank_unary punct arg) fun depth fits => ?_
  obtain ⟨tokens, spelled, derived⟩ := reads operandRank depth (Expr.fits_unary.1 fits)
  refine ⟨_, fun rest closes => ?_, .operator sign (At.unary derived) other⟩
  have opens := (framed_expr formed).opens.append rest
  rw [Expr.text_unary, List.append_assoc, lex_punct fun _ => opens.symbol, spelled rest closes,
    prepend_cons]

theorem reads_binary {level : Nat} {operators : List Punct} {punct : Punct} {left right : Expr}
    (here : Punct.levels[level]? = some operators) (member : punct ∈ operators) (first : Reads left)
    (second : Reads right) : Reads (.operator punct.text [left, right]) := by
  refine reads_of_rank (rank_binary here member left right) fun depth fits => ?_
  obtain ⟨fitsLeft, fitsRight⟩ := (Expr.fits_binary here member).1 fits
  obtain ⟨tokens, spelled, derived⟩ := first (level + 2) depth fitsLeft
  obtain ⟨others, more, tighter⟩ := second (level + 3) depth fitsRight
  refine ⟨tokens ++ .punct punct :: others, fun rest closes => ?_, ?_⟩
  · rw [Expr.text_binary, List.append_assoc, List.cons_append, List.append_assoc, List.cons_append,
      spelled _ (closes_cons (by decide) _), lex_spaced, more rest closes, prepend_append, prepend_cons]
  · obtain ⟨small, rfl⟩ := List.getElem?_eq_some_iff.1 here
    simp only [At] at derived tighter ⊢
    rw [List.drop_eq_getElem_cons small] at derived ⊢
    exact .join member derived tighter

theorem reads_conditional {test consequent alternate : Expr} (first : Reads test)
    (second : Reads consequent) (third : Reads alternate) :
    Reads (.operator Operator.conditional [test, consequent, alternate]) := by
  refine reads_of_rank (rank_conditional test consequent alternate) fun depth fits => ?_
  obtain ⟨fits, within, others⟩ := Expr.fits_conditional.1 fits
  obtain ⟨tokens, spelled, derived⟩ := first 2 depth fits
  obtain ⟨middle, more, chosen⟩ := second.conditional within
  obtain ⟨last, rest, otherwise⟩ := third.conditional others
  refine ⟨_, fun after closes => ?_, .choice derived chosen otherwise⟩
  simp only [Expr.text_conditional, List.append_assoc, List.cons_append]
  rw [spelled _ (closes_cons (by decide) _), lex_question, more _ (closes_cons (by decide) _),
    lex_otherwise, rest after closes, prepend_append, prepend_cons, prepend_append, prepend_cons]

theorem reads_sequence {first second : Expr} {rest : List Expr}
    (each : ∀ item ∈ first :: second :: rest, Reads item) :
    Reads (.sequence (first :: second :: rest)) := by
  refine reads_of_rank rfl fun depth fits => ?_
  have fits := Expr.fits_sequence.1 fits
  obtain ⟨tokens, spelled, separated⟩ := exists_separated .wide (List.cons_ne_nil first (second :: rest))
    fun item member => each item member 1 depth (fits item member)
  rw [Expr.text_sequence]
  refine ⟨tokens, spelled, ?_⟩
  cases separated with
  | cons derived separated => exact .more derived separated

/-- A well formed tree reads back wherever it fits. -/
theorem reads_of_formed {tree : Expr} (formed : tree.Formed) : Reads tree := by
  induction formed with
  | literal formed => exact reads_literal formed
  | path named formed indices => exact reads_path named formed indices
  | call named formed formedArgs indices each => exact reads_call named formed indices formedArgs each
  | array other formed each => exact reads_array other formed each
  | object other formed each => exact reads_object other formed each
  | unary sign other formed reads => exact reads_unary sign other formed reads
  | binary here member _ _ first second => exact reads_binary here member first second
  | conditional _ _ _ first second third => exact reads_conditional first second third
  | sequence _ _ _ first second rest =>
      exact reads_sequence (List.forall_mem_cons.2 ⟨first, List.forall_mem_cons.2 ⟨second, rest⟩⟩)

end Stencil.Printed
