import Stencil.Proofs.Printed.Reads

/-! A tree that reads back from its text fits its place.

What derives the tree at the start of its text takes the text whole, so its parts are
derived from theirs. Groups are not written, and what is not in a group is derived at its
rank.
-/

set_option autoImplicit false

namespace Stencil.Printed

open Grammar Token

/-- Whatever derives the tree in a place takes its text whole, and the tree fits there. -/
def Aligns (tree : Expr) : Prop :=
  ∀ place depth, place ≤ operandRank →
    Aligned [] (At place depth · tree) tree.text.toList (tree.Fits place depth)

/-- What reads as the text of a well formed tree begins with no group. -/
theorem head_ne_group {tree : Expr} (formed : tree.Formed) {rest : List Char} {tokens after : List Token}
    (same : (lex (tree.text.toList ++ rest)).items = tokens ++ after) :
    tokens.head? ≠ some (.punct .openParen) := by
  intro head
  obtain ⟨others, rfl⟩ := List.head?_eq_some_iff.1 head
  exact ((framed_expr formed).opens.append rest).head_ne (by rw [same]; rfl)

section

variable {tree : Expr}

theorem aligns_of_rank (formed : tree.Formed) {rank : Nat} (same : tree.rank = rank)
    (aligned : ∀ depth, Aligned [] (fun tokens => tokens.head? ≠ some (.punct .openParen) ∧
      At rank depth tokens tree) tree.text.toList (tree.Fits rank depth)) : Aligns tree := by
  subst same
  intro place depth least tokens after rest closes stops read derived
  have head := head_ne_group formed read
  obtain ⟨le, derived⟩ := (derived.rank_or_group least).resolve_left head
  obtain ⟨fits, whole⟩ := aligned depth tokens after rest closes stops read ⟨head, derived⟩
  exact ⟨⟨le, fits.readable, fits.nesting⟩, whole⟩

theorem aligns_of_unary (formed : tree.Formed) (same : tree.rank = operandRank)
    (aligned : ∀ depth, Aligned [] (fun tokens => tokens.head? ≠ some (.punct .openParen) ∧
      (nested (depth + 1)).unary tokens tree) tree.text.toList (tree.Fits operandRank (depth + 1))) :
    Aligns tree := by
  refine aligns_of_rank formed same fun depth => ?_
  rintro tokens after rest closes stops read ⟨head, derived⟩
  cases depth with
  | zero => exact (At.unary derived).elim
  | succ depth => exact aligned depth tokens after rest closes stops read ⟨head, At.unary derived⟩

/-- A tree is derived in brackets by the rule of sequences. -/
theorem Aligns.sequence (aligns : Aligns tree) (depth : Nat) :
    Aligned [] (SequenceOf (nested depth).conditional · tree) tree.text.toList (tree.Within 0 depth) := by
  intro tokens after rest closes stops read derived
  cases depth with
  | zero => cases derived <;> contradiction
  | succ depth =>
      rw [Expr.within_succ_iff]
      exact aligns 0 depth (Nat.zero_le _) tokens after rest closes stops read derived

theorem Aligns.conditional (aligns : Aligns tree) (depth : Nat) :
    Aligned [] ((nested depth).conditional · tree) tree.text.toList (tree.Within 1 depth) := by
  intro tokens after rest closes stops read derived
  cases depth with
  | zero => exact derived.elim
  | succ depth =>
      rw [Expr.within_succ_iff]
      exact aligns 1 depth (by decide) tokens after rest closes stops read derived

end

section

variable {conditional unary : Rule Expr} {tokens : List Token} {tree : Expr}

/-- An operand that is neither a literal nor an operator with a sign. -/
theorem operand_of_prefixed (derived : PrefixedOf conditional unary tokens tree)
    (other : tree.isLiteral = false) (unsigned : ∀ (punct : Punct) arg, tree ≠ .operator punct.text [arg]) :
    OperandOf conditional tokens tree := by
  cases derived with
  | operand derived => exact derived
  | negative => cases other
  | operator => exact absurd rfl (unsigned _ _)

theorem pathOf_of_operand {path : Path} (derived : OperandOf conditional tokens (.path path))
    (head : tokens.head? ≠ some (.punct .openParen)) : PathOf conditional tokens path := by
  generalize made : Expr.path path = tree at derived
  cases derived with
  | path isRoot derived =>
      cases made
      exact ⟨_, _, _, _, rfl, rfl, isRoot, derived⟩
  | group => exact absurd rfl head
  | _ => cases made

theorem call_of_operand {path : Path} {args : List Expr}
    (derived : OperandOf conditional tokens (.call path args))
    (head : tokens.head? ≠ some (.punct .openParen)) :
    ∃ first second, tokens = first ++ second ∧ PathOf conditional first path ∧
      Enclosed .openParen .closeParen (Listed conditional · args) second := by
  generalize made : Expr.call path args = tree at derived
  cases derived with
  | call isRoot derived listed =>
      cases made
      exact ⟨_ :: _, _, rfl, ⟨_, _, _, _, rfl, rfl, isRoot, derived⟩, _, rfl, listed⟩
  | group => exact absurd rfl head
  | _ => cases made

theorem array_ne_object : Operator.array ≠ Operator.object := by decide

theorem array_of_operand {items : List Expr}
    (derived : OperandOf conditional tokens (.operator Operator.array items))
    (head : tokens.head? ≠ some (.punct .openParen)) :
    Enclosed .openBracket .closeBracket (Listed conditional · items) tokens := by
  generalize made : Expr.operator Operator.array items = tree at derived
  cases derived with
  | array listed =>
      obtain ⟨-, rfl⟩ := Expr.operator.inj made
      exact ⟨_, rfl, listed⟩
  | object => exact absurd (Expr.operator.inj made).1 array_ne_object
  | group => exact absurd rfl head
  | _ => cases made

theorem alternating_injective : Function.Injective alternating := by
  intro first second same
  induction first generalizing second with
  | nil =>
      cases second with
      | nil => rfl
      | cons => cases same
  | cons member first ih =>
      cases second with
      | nil => cases same
      | cons other second =>
          obtain ⟨key, same⟩ := List.cons.inj same
          obtain ⟨value, same⟩ := List.cons.inj same
          have key := Value.string.inj (Expr.literal.inj key)
          rw [ih same, Prod.ext key value]

theorem object_of_operand {members : List (String × Expr)}
    (derived : OperandOf conditional tokens (.operator Operator.object (alternating members)))
    (head : tokens.head? ≠ some (.punct .openParen)) :
    Enclosed .openBrace .closeBrace (Listed (MemberOf conditional) · members) tokens := by
  generalize made : Expr.operator Operator.object (alternating members) = tree at derived
  cases derived with
  | object listed =>
      rw [alternating_injective (Expr.operator.inj made).2]
      exact ⟨_, rfl, listed⟩
  | array => exact absurd (Expr.operator.inj made).1.symm array_ne_object
  | group => exact absurd rfl head
  | _ => cases made

end

theorem aligns_literal {value : Value} (formed : value.Formed) : Aligns (.literal value) := by
  refine aligns_of_unary (.literal formed) rfl fun depth => ?_
  rintro tokens after rest closes stops read ⟨-, derived⟩
  rw [Expr.fits_literal]
  exact aligned_literal formed (depth + 1) tokens after rest closes stops read derived

section

variable {path : Path} (named : path.Named)
  (formed : ∀ index, .index index ∈ path.segments → index.Formed)
  (indices : ∀ index, .index index ∈ path.segments → Aligns index)

include named formed indices

theorem aligns_path : Aligns (.path path) := by
  refine aligns_of_unary (.path named formed) rfl fun depth => ?_
  rintro tokens after rest closes stops read ⟨head, derived⟩
  have operand := operand_of_prefixed derived rfl fun _ _ same => by cases same
  rw [Expr.fits_path]
  exact aligned_path named (fun index member => (indices index member).sequence depth) read
    (pathOf_of_operand operand head)

theorem aligns_call {args : List Expr} (formedArgs : ∀ arg ∈ args, arg.Formed)
    (each : ∀ arg ∈ args, Aligns arg) : Aligns (.call path args) := by
  refine aligns_of_unary (.call named formed formedArgs) rfl fun depth => ?_
  rintro tokens after rest closes stops read ⟨head, derived⟩
  have operand := operand_of_prefixed derived rfl fun _ _ same => by cases same
  obtain ⟨first, second, rfl, derived, listed⟩ := call_of_operand operand head
  rw [Expr.text_call, List.append_assoc] at read ⊢
  rw [List.append_assoc] at read
  obtain ⟨fits, whole⟩ := aligned_path named (fun index member => (indices index member).sequence depth)
    read derived
  rw [whole] at read ⊢
  have later := List.append_cancel_left read
  obtain ⟨within, more⟩ := aligned_listed .paren .wide List.not_mem_nil List.not_mem_nil
    (fun arg member => (each arg member).conditional depth) second after rest closes stops later listed
  exact ⟨Expr.fits_call.2 ⟨fits, within⟩, by rw [more, prepend_append]⟩

end

theorem aligns_array {items : List Expr} (other : ∃ item ∈ items, item.isLiteral = false)
    (formed : ∀ item ∈ items, item.Formed) (each : ∀ item ∈ items, Aligns item) :
    Aligns (.operator Operator.array items) := by
  refine aligns_of_unary (.array other formed) (rank_bracket (Or.inl rfl) items) fun depth => ?_
  rintro tokens after rest closes stops read ⟨head, derived⟩
  have operand := operand_of_prefixed derived rfl fun punct _ same =>
    (Expr.text_ne_bracket punct).2 (Expr.operator.inj same).1.symm
  rw [Expr.text_array] at read ⊢
  rw [Expr.fits_array]
  exact aligned_listed .bracket .wide List.not_mem_nil List.not_mem_nil
    (fun item member => (each item member).conditional depth) tokens after rest closes stops read
    (array_of_operand operand head)

/-- The key of a member is a word, since its text and a colon do not read as a string. -/
theorem aligned_member {member : String × Expr} {depth : Nat} (aligns : Aligns member.2) :
    Aligned [.colon] (MemberOf (nested depth).conditional · member) (Expr.memberText member)
      (isWord member.1.toList = true ∧ member.2.Within 1 depth) := by
  obtain ⟨key, value⟩ := member
  intro tokens after rest closes stops read derived
  rw [Expr.memberText, List.append_assoc, List.cons_append, List.cons_append] at read ⊢
  -- A first token that is the key leaves the colon.
  have key_whole {token : Token} {others : List Token}
      (head : (lex (key.toList ++ ':' :: ' ' :: (value.text.toList ++ rest))).items = token :: others)
      (written : token.raw.toList = key.toList) (word : isWord key.toList = true) :
      lex (key.toList ++ ':' :: ' ' :: (value.text.toList ++ rest)) =
        ((lex (value.text.toList ++ rest)).cons (.punct .colon)).cons token := by
    rw [lex_of_word word head written, lex_colon]
  have valid : ∀ token ∈ (lex (key.toList ++ ':' :: ' ' :: (value.text.toList ++ rest))).items,
      token.Valid := valid_of_mem_readAll _
  rw [read] at valid
  cases derived with
  | @keyed token _ tokens _ isKey derived =>
      have word : token.raw.toList = key.toList ∧ isWord key.toList = true := by
        have proper := valid token List.mem_cons_self
        cases isKey with
        | identifier => exact ⟨rfl, by rw [isWord, show isName key.toList = true from proper, Bool.true_or]⟩
        | number => exact ⟨rfl, by rw [isWord, show isNumeral key.toList = true from proper, Bool.or_true]⟩
        | string => exact absurd rfl (lex_ne_string read)
      have whole := key_whole read word.1 word.2
      rw [whole] at read ⊢
      obtain ⟨-, later⟩ := items_cons read
      obtain ⟨-, later⟩ := items_cons later
      obtain ⟨within, more⟩ := aligns.conditional depth tokens after rest closes (stops_none after) later
        derived
      exact ⟨⟨word.2, within⟩, by rw [more, prepend_cons, prepend_cons]⟩
  | shorthand =>
      have proper : isName key.toList = true := valid _ List.mem_cons_self
      have whole := key_whole read rfl (by rw [isWord, proper, Bool.true_or])
      rw [whole] at read
      exact absurd (items_cons read).2.symm (stops.ne List.mem_cons_self)

theorem aligns_object {members : List (String × Expr)}
    (other : ∃ member ∈ members, member.2.isLiteral = false)
    (formed : ∀ member ∈ members, member.2.Formed) (each : ∀ member ∈ members, Aligns member.2) :
    Aligns (.operator Operator.object (alternating members)) := by
  refine aligns_of_unary (.object other formed) (rank_bracket (Or.inr rfl) _) fun depth => ?_
  rintro tokens after rest closes stops read ⟨head, derived⟩
  have operand := operand_of_prefixed derived rfl fun punct _ same =>
    (Expr.text_ne_bracket punct).1 (Expr.operator.inj same).1.symm
  rw [Expr.text_object] at read ⊢
  rw [Expr.fits_object formed]
  exact aligned_listed .brace .wide (by decide) (by decide)
    (fun member among => aligned_member (each member among)) tokens after rest closes stops read
    (object_of_operand operand head)

theorem text_injective : Function.Injective Punct.text := by
  intro first second same
  have symbols : first.symbol = second.symbol := String.ofList_inj.1 same
  have apart : ∀ first ∈ Punct.all, ∀ second ∈ Punct.all, first.symbol = second.symbol → first = second := by
    decide
  exact apart first (Punct.mem_all first) second (Punct.mem_all second) symbols

/-- No operand is an operator with arguments of its own, unless it is in a group. -/
theorem group_of_operator {conditional : Rule Expr} {tokens : List Token} {punct : Punct}
    {args : List Expr} (derived : OperandOf conditional tokens (.operator punct.text args)) :
    tokens.head? = some (.punct .openParen) := by
  obtain ⟨noObject, noArray⟩ := Expr.text_ne_bracket punct
  generalize made : Expr.operator punct.text args = tree at derived
  cases derived with
  | group => rfl
  | array => exact absurd (Expr.operator.inj made).1 noArray
  | object => exact absurd (Expr.operator.inj made).1 noObject
  | _ => cases made

theorem aligns_unary {punct : Punct} {arg : Expr} (sign : punct ∈ Punct.unary)
    (other : ¬ (punct = .minus ∧ IsNumber arg)) (formed : arg.Formed) (aligns : Aligns arg) :
    Aligns (.operator punct.text [arg]) := by
  refine aligns_of_unary (.unary sign other formed) (rank_unary punct arg) fun depth => ?_
  rintro tokens after rest closes stops read ⟨head, derived⟩
  have opens := (framed_expr formed).opens.append rest
  rw [Expr.text_unary, List.append_assoc, lex_punct fun _ => opens.symbol] at read ⊢
  rw [Expr.fits_unary]
  generalize made : Expr.operator punct.text [arg] = tree at derived
  cases derived with
  | operand derived =>
      subst made
      exact absurd (group_of_operator derived) head
  | negative => cases made
  | operator _ derived _ =>
      obtain ⟨name, args⟩ := Expr.operator.inj made
      obtain rfl := text_injective name
      obtain ⟨rfl, -⟩ := List.cons.inj args
      obtain ⟨fits, whole⟩ := aligns operandRank depth (le_refl _) _ after rest closes stops
        (items_cons read).2 (.operand derived)
      exact ⟨fits, by rw [whole, prepend_cons]⟩

theorem aligns_binary {level : Nat} {operators : List Punct} {punct : Punct} {left right : Expr}
    (here : Punct.levels[level]? = some operators) (member : punct ∈ operators) (formedLeft : left.Formed)
    (formedRight : right.Formed) (first : Aligns left) (second : Aligns right) :
    Aligns (.operator punct.text [left, right]) := by
  have rank := rank_binary here member left right
  refine aligns_of_rank (.binary here member formedLeft formedRight) rank fun depth => ?_
  rintro tokens after rest closes stops read ⟨head, derived⟩
  obtain ⟨small, rfl⟩ := List.getElem?_eq_some_iff.1 here
  have least : level + 3 ≤ operandRank := Nat.add_le_add_right small 2
  rw [Expr.fits_binary here member]
  generalize made : Expr.operator punct.text [left, right] = tree at derived
  simp only [At] at derived
  rw [List.drop_eq_getElem_cons small] at derived
  cases derived with
  | tighter derived =>
      subst made
      obtain ⟨le, -⟩ := (At.rank_or_group least derived).resolve_left head
      omega
  | @join _ _ other leftTokens rightTokens one two among derived tighter =>
      obtain ⟨name, args⟩ := Expr.operator.inj made
      obtain rfl := text_injective name
      obtain ⟨rfl, rfl⟩ : left = one ∧ right = two := by simpa using args
      have derived : At (level + 2) depth leftTokens left := by
        simp only [At]
        rwa [List.drop_eq_getElem_cons small]
      rw [Expr.text_binary, List.append_assoc, List.cons_append, List.append_assoc, List.cons_append] at read ⊢
      rw [List.append_assoc] at read
      obtain ⟨fitsLeft, whole⟩ := first (level + 2) depth (Nat.le_of_succ_le least) leftTokens _ _
        (closes_cons (by decide) _) (stops_none _) read derived
      rw [whole, lex_spaced] at read ⊢
      have later := (items_cons (List.append_cancel_left read)).2
      obtain ⟨fitsRight, more⟩ := second (level + 3) depth least rightTokens after rest closes stops later
        tighter
      exact ⟨⟨fitsLeft, fitsRight⟩, by rw [more, prepend_append, prepend_cons]⟩

theorem aligns_conditional {test consequent alternate : Expr} (formedTest : test.Formed)
    (formedConsequent : consequent.Formed) (formedAlternate : alternate.Formed) (first : Aligns test)
    (second : Aligns consequent) (third : Aligns alternate) :
    Aligns (.operator Operator.conditional [test, consequent, alternate]) := by
  refine aligns_of_rank (.conditional formedTest formedConsequent formedAlternate)
    (rank_conditional test consequent alternate) fun depth => ?_
  rintro tokens after rest closes stops read ⟨head, derived⟩
  rw [Expr.fits_conditional]
  generalize made : Expr.operator Operator.conditional [test, consequent, alternate] = tree at derived
  cases derived with
  | test derived =>
      subst made
      obtain ⟨le, -⟩ := (At.rank_or_group (show 2 ≤ operandRank by decide) derived).resolve_left head
      exact absurd le (by rw [rank_conditional]; decide)
  | @choice testTokens middle last _ _ _ derived chosen otherwise =>
      cases made
      simp only [Expr.text_conditional, List.append_assoc, List.cons_append] at read ⊢
      obtain ⟨fits, whole⟩ := first 2 depth (by decide) testTokens _ _ (closes_cons (by decide) _)
        (stops_none _) read derived
      rw [whole, lex_question] at read ⊢
      have later := (items_cons (List.append_cancel_left read)).2
      obtain ⟨within, more⟩ := second.conditional depth middle _ _ (closes_cons (by decide) _)
        (stops_none _) later chosen
      rw [more, lex_otherwise] at later ⊢
      have later := (items_cons (List.append_cancel_left later)).2
      obtain ⟨others, ended⟩ := third.conditional depth last after rest closes stops later otherwise
      refine ⟨⟨fits, within, others⟩, ?_⟩
      rw [ended, prepend_append, prepend_cons, prepend_append, prepend_cons]

theorem aligns_sequence {first second : Expr} {others : List Expr}
    (formed : ∀ item ∈ first :: second :: others, item.Formed)
    (each : ∀ item ∈ first :: second :: others, Aligns item) :
    Aligns (.sequence (first :: second :: others)) := by
  obtain ⟨one, formed⟩ := List.forall_mem_cons.1 formed
  obtain ⟨two, formed⟩ := List.forall_mem_cons.1 formed
  have rank : (Expr.sequence (first :: second :: others)).rank = 0 := rfl
  refine aligns_of_rank (.sequence one two formed) rank fun depth => ?_
  rintro tokens after rest closes stops read ⟨head, derived⟩
  rw [Expr.fits_sequence]
  rw [Expr.text_sequence] at read ⊢
  have separated := aligned_separated .wide List.not_mem_nil fun item member =>
    each item member 1 depth (by decide)
  generalize made : Expr.sequence (first :: second :: others) = tree at derived
  cases derived with
  | one derived =>
      subst made
      obtain ⟨le, -⟩ := (At.rank_or_group (show 1 ≤ operandRank by decide) derived).resolve_left head
      omega
  | more derived separate =>
      cases made
      exact separated _ after rest closes stops read (.cons derived separate)

/-- A well formed tree fits wherever it reads back. -/
theorem aligns_of_formed {tree : Expr} (formed : tree.Formed) : Aligns tree := by
  induction formed with
  | literal formed => exact aligns_literal formed
  | path named formed indices => exact aligns_path named formed indices
  | call named formed formedArgs indices each => exact aligns_call named formed indices formedArgs each
  | array other formed each => exact aligns_array other formed each
  | object other formed each => exact aligns_object other formed each
  | unary sign other formed aligns => exact aligns_unary sign other formed aligns
  | binary here member left right first second => exact aligns_binary here member left right first second
  | conditional test consequent alternate first second third =>
      exact aligns_conditional test consequent alternate first second third
  | sequence one two others first second rest =>
      exact aligns_sequence (List.forall_mem_cons.2 ⟨one, List.forall_mem_cons.2 ⟨two, others⟩⟩)
        (List.forall_mem_cons.2 ⟨first, List.forall_mem_cons.2 ⟨second, rest⟩⟩)

end Stencil.Printed
