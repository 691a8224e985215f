import Stencil.Proofs.Printed.Formed
import Stencil.Proofs.Printed.Place
import Stencil.Proofs.Printed.Spelling
import Stencil.Proofs.Token.Quoted

/-! The text of a value reads as the literal of that value.

Numbers, names and strings are one token, with a minus before a negative number; arrays
and objects are lists in brackets. No other tokens at the start of the text derive the
literal, and none derive it with less depth to nest.
-/

set_option autoImplicit false

namespace Stencil

open Grammar Token Printed

namespace Value

theorem texts_eq_map (items : List Value) : texts items = items.map text := by
  induction items with
  | nil => rfl
  | cons item rest ih => rw [texts, ih, List.map_cons]

theorem memberTexts_eq_map (entries : List (String × Value)) :
    memberTexts entries = entries.map fun entry => quote entry.1 ++ ":" ++ entry.2.text := by
  induction entries with
  | nil => rfl
  | cons entry rest ih => rw [memberTexts, ih, List.map_cons]

theorem nestings_eq_map (items : List Value) : nestings items = items.map nesting := by
  induction items with
  | nil => rfl
  | cons item rest ih => rw [nestings, ih, List.map_cons]

theorem memberNestings_eq_map (entries : List (String × Value)) :
    memberNestings entries = entries.map fun entry => entry.2.nesting := by
  induction entries with
  | nil => rfl
  | cons entry rest ih => rw [memberNestings, ih, List.map_cons]

/-- The text of a member of an object. -/
def memberText (entry : String × Expr) : List Char :=
  (quote entry.1).toList ++ ':' :: entry.2.text.toList

theorem text_array (items : List Value) :
    (text (.array items)).toList = enclosed .openBracket .closeBracket
      (List.intercalate [','] ((items.map Expr.literal).map fun item => item.text.toList)) := by
  simp only [text, texts_eq_map, String.toList_append, String.toList_intercalate, List.map_map,
    enclosed, List.append_assoc]
  rfl

theorem text_object (members : Dict Value) :
    (text (.object members)).toList = enclosed .openBrace .closeBrace
      (List.intercalate [','] ((literals members.entries).map memberText)) := by
  simp only [text, memberTexts_eq_map, String.toList_append, String.toList_intercalate, List.map_map,
    enclosed, List.append_assoc, literals]
  have same : (String.toList ∘ fun entry : String × Value => quote entry.1 ++ ":" ++ entry.2.text) =
      memberText ∘ fun entry : String × Value => (entry.1, Expr.literal entry.2) := by
    funext entry
    simp [memberText, Expr.text]
  rw [same]
  rfl

theorem nesting_array_le {items : List Value} {depth : Nat} :
    nesting (.array items) ≤ depth + 1 ↔ ∀ item ∈ items, item.nesting < depth := by
  simp only [nesting, nestings_eq_map, Nat.add_le_add_iff_right, deepest_le_iff, List.forall_mem_map]

theorem nesting_object_le {members : Dict Value} {depth : Nat} :
    nesting (.object members) ≤ depth + 1 ↔ ∀ entry ∈ members.entries, entry.2.nesting < depth := by
  simp only [nesting, memberNestings_eq_map, Nat.add_le_add_iff_right, deepest_le_iff,
    List.forall_mem_map]

theorem nesting_pos (value : Value) : 0 < value.nesting := by
  cases value <;> simp only [nesting] <;> (try split) <;> omega

end Value

namespace Printed

theorem spelled_token {text : List Char} {token : Token}
    (whole : ∀ rest, Closes rest → lex (text ++ rest) = (lex rest).cons token) : Spelled text [token] :=
  whole

theorem Spelled.minus {text : List Char} {tokens : List Token} (spelled : Spelled text tokens) :
    Spelled ('-' :: text) (.punct .minus :: tokens) := by
  intro rest closes
  rw [prepend_cons, ← spelled rest closes]
  exact lex_mark .minus (by decide) (text ++ rest)

/-- The numeral of a natural number is its digits. -/
def naturalNumeral (n : Nat) : Numeral :=
  ⟨Nat.toDigits 10 n, [], [], Double.isDigits_toDigits n, .none, .none⟩

theorem naturalNumeral_text (n : Nat) : (naturalNumeral n).text = Nat.toDigits 10 n := by
  simp [naturalNumeral, Numeral.text]

theorem spelled_numeral (numeral : Numeral) :
    Spelled numeral.text [.number (String.ofList numeral.text)] :=
  spelled_token fun _ closes => lex_numeral (closes.numeral numeral)

theorem ofNumber?_natural {n : Nat} (fits : (n : Int) ≤ Value.greatestInt) :
    Value.ofNumber? (naturalNumeral n).text = some (.int n) := by
  have digits : (naturalNumeral n).text.all Char.isDigit = true :=
    (all_isDigit_numeral _).2 ⟨rfl, rfl⟩
  rw [naturalNumeral_text] at digits ⊢
  simp [Value.ofNumber?, digits, Text.ofDecimal_toDigits, fits]

theorem ofNumber?_float {text : List Char} {x : Double} (float : text.all Char.isDigit = false)
    (read : Double.ofText? false text = some x) : Value.ofNumber? text = some (.float x) := by
  simp [Value.ofNumber?, float, read]

/-- A value of one numeral, or of a minus and one numeral. -/
theorem exists_number {value : Value} (formed : value.Formed)
    (number : IsNumber (.literal value)) :
    ∃ (numeral : Numeral) (magnitude : Value), Value.ofNumber? numeral.text = some magnitude ∧
      (value.text.toList = numeral.text ∧ magnitude = value ∧ value.nesting = 1 ∨
        value.text.toList = '-' :: numeral.text ∧ magnitude.neg? = some value ∧ value.nesting = 2) := by
  cases formed with
  | @int n signed =>
      cases n with
      | ofNat n =>
          refine ⟨naturalNumeral n, _, ofNumber?_natural signed.2, Or.inl ⟨?_, rfl, ?_⟩⟩
          · rw [naturalNumeral_text, Value.text, Value.intText, String.toList_ofList]
          · simp [Value.nesting]
      | negSucc n =>
          have fits : ((n + 1 : Nat) : Int) ≤ Value.greatestInt := by
            have := signed.1
            omega
          refine ⟨naturalNumeral (n + 1), _, ofNumber?_natural fits, Or.inr ⟨?_, ?_, ?_⟩⟩
          · rw [naturalNumeral_text, Value.text, Value.intText, String.toList_ofList]
          · exact neg?_int ⟨by simp only [Value.greatestInt]; omega, fits⟩
          · simp [Value.nesting]
  | @float x canonical =>
      obtain ⟨numeral, written, float, read⟩ := Double.exists_write Value.floatLayout canonical
      refine ⟨numeral, _, ofNumber?_float float read, ?_⟩
      obtain ⟨negative, significand, exponent⟩ := x
      cases negative with
      | false => exact Or.inl ⟨written, rfl, rfl⟩
      | true => exact Or.inr ⟨written, rfl, rfl⟩
  | _ => rcases number with ⟨n, same⟩ | ⟨x, same⟩ <;> cases same

theorem unary_number {numeral : Numeral} {value : Value} (read : Value.ofNumber? numeral.text = some value)
    (depth : Nat) :
    (nested (depth + 1)).unary [.number (String.ofList numeral.text)] (.literal value) :=
  .operand (.number (by rwa [String.toList_ofList]))

theorem exists_number_literal {value : Value} (formed : value.Formed) (number : IsNumber (.literal value))
    {depth : Nat} (fits : value.nesting ≤ depth) :
    ∃ tokens, Spelled value.text.toList tokens ∧ (nested depth).unary tokens (.literal value) := by
  obtain ⟨numeral, magnitude, read, ⟨written, rfl, once⟩ | ⟨written, negated, twice⟩⟩ :=
    exists_number formed number
  · obtain ⟨depth, rfl⟩ := Nat.exists_eq_add_of_le' (once ▸ fits)
    rw [written]
    exact ⟨_, spelled_numeral numeral, unary_number read depth⟩
  · obtain ⟨depth, rfl⟩ := Nat.exists_eq_add_of_le' (twice ▸ fits)
    rw [written]
    exact ⟨_, (spelled_numeral numeral).minus, .negative (unary_number read depth) negated⟩

theorem spelled_name {name : String} (isName : isName name.toList = true) :
    Spelled name.toList [.identifier name] :=
  spelled_token fun _ closes => lex_identifier isName closes.name

theorem Spelled.member {text : List Char} {tokens : List Token} (spelled : Spelled text tokens)
    (name : String) :
    Spelled ((Value.quote name).toList ++ ':' :: text)
      (.string (Value.quote name) :: .punct .colon :: tokens) := by
  intro rest closes
  have colon := lex_mark .colon (by decide) (text ++ rest)
  rw [List.append_assoc, lex_quote, prepend_cons, prepend_cons, ← spelled rest closes, ← colon]
  rfl

theorem member_quote {conditional : Rule Expr} {tokens : List Token} {tree : Expr} (name : String)
    (derived : conditional tokens tree) :
    MemberOf conditional (.string (Value.quote name) :: .punct .colon :: tokens) (name, tree) := by
  have keyed := MemberOf.keyed (@KeyOf.string (Value.quote name)) derived
  rwa [stringText_quote] at keyed

theorem exists_conditional_literal {value : Value}
    (exists_unary : ∀ depth, value.nesting ≤ depth + 1 → ∃ tokens,
      Spelled value.text.toList tokens ∧ (nested (depth + 1)).unary tokens (.literal value))
    {depth : Nat} (fits : value.nesting < depth) :
    ∃ tokens, Spelled value.text.toList tokens ∧ (nested depth).conditional tokens (.literal value) := by
  obtain ⟨depth, rfl⟩ := Nat.exists_eq_add_of_le' (Nat.lt_of_le_of_lt value.nesting_pos fits)
  obtain ⟨tokens, spelled, derived⟩ := exists_unary depth (Nat.le_of_lt_succ fits)
  exact ⟨tokens, spelled, conditional_of_unary derived⟩

theorem exists_members {members : Dict Value} {depth : Nat}
    (each : ∀ entry ∈ members.entries, ∃ tokens,
      Spelled entry.2.text.toList tokens ∧ (nested depth).conditional tokens (.literal entry.2)) :
    ∃ tokens, Spelled (Value.text (.object members)).toList tokens ∧
      Enclosed .openBrace .closeBrace
        (Listed (MemberOf (nested depth).conditional) · (literals members.entries)) tokens := by
  have each : ∀ member ∈ literals members.entries, ∃ tokens,
      Spelled (Value.memberText member) tokens ∧ MemberOf (nested depth).conditional tokens member := by
    refine List.forall_mem_map.2 fun entry member => ?_
    obtain ⟨tokens, spelled, derived⟩ := each entry member
    exact ⟨_, spelled.member entry.1, member_quote entry.1 derived⟩
  rw [Value.text_object]
  exact exists_listed .brace .narrow each

/-- A value reads as its literal where there is enough depth. -/
theorem exists_literal {value : Value} (formed : value.Formed) (depth : Nat)
    (fits : value.nesting ≤ depth + 1) : ∃ tokens,
      Spelled value.text.toList tokens ∧ (nested (depth + 1)).unary tokens (.literal value) := by
  induction formed generalizing depth with
  | int signed => exact exists_number_literal (.int signed) (Or.inl ⟨_, rfl⟩) fits
  | float canonical => exact exists_number_literal (.float canonical) (Or.inr ⟨_, rfl⟩) fits
  | null => exact ⟨_, spelled_name (by decide +kernel), .operand (.constant rfl)⟩
  | bool value =>
      cases value with
      | false => exact ⟨_, spelled_name (by decide +kernel), .operand (.constant rfl)⟩
      | true => exact ⟨_, spelled_name (by decide +kernel), .operand (.constant rfl)⟩
  | string text =>
      refine ⟨_, spelled_token fun rest _ => lex_quote text rest, ?_⟩
      have derived : (nested (depth + 1)).unary [.string (Value.quote text)]
          (.literal (.string (stringText (Value.quote text)))) := .operand .string
      rwa [stringText_quote] at derived
  | @array items _ ih =>
      rw [Value.nesting_array_le] at fits
      have each : ∀ item ∈ items.map Expr.literal, ∃ tokens, Spelled item.text.toList tokens ∧
          (nested depth).conditional tokens item :=
        List.forall_mem_map.2 fun item member =>
          exists_conditional_literal (ih item member) (fits item member)
      obtain ⟨tokens, spelled, inner, rfl, listed⟩ := exists_listed .bracket .narrow each
      rw [Value.text_array]
      exact ⟨_, spelled, .operand (.literalArray listed)⟩
  | @object members distinct _ ih =>
      rw [Value.nesting_object_le] at fits
      obtain ⟨tokens, spelled, inner, rfl, listed⟩ := exists_members fun entry member =>
        exists_conditional_literal (ih entry member) (fits entry member)
      have derived : (nested (depth + 1)).unary (.punct .openBrace :: (inner ++ [.punct .closeBrace]))
        (.literal (.object (.ofEntries members.entries))) := .operand (.literalObject listed)
      rw [Dict.ofEntries_of_nodup distinct] at derived
      exact ⟨_, spelled, derived⟩

/-- What a literal is derived from begins with a token of its own, with a minus, or with
a bracket. -/
theorem aligned_single {text : List Char} {token : Token} (single : Spelled text [token])
    (other : ∀ punct, token ≠ .punct punct) (value : Value) (depth : Nat) :
    Aligned [] ((nested depth).unary · (.literal value)) text (1 ≤ depth) := by
  intro tokens after rest closes _ same derived
  rw [single rest closes] at same ⊢
  cases depth with
  | zero => exact derived.elim
  | succ depth =>
      refine ⟨Nat.succ_pos depth, ?_⟩
      cases derived with
      | operand derived =>
          generalize made : Expr.literal value = tree at derived
          cases derived with
          | number | string | constant =>
              obtain ⟨rfl, -⟩ := List.cons.inj same
              rfl
          | path | call | array | object => cases made
          | _ =>
              obtain ⟨rfl, -⟩ := List.cons.inj same
              exact absurd rfl (other _)
      | negative =>
          obtain ⟨rfl, -⟩ := List.cons.inj same
          exact absurd rfl (other _)

theorem aligned_name {name : String} (isName : isName name.toList = true) (value : Value) (depth : Nat) :
    Aligned [] ((nested depth).unary · (.literal value)) name.toList (1 ≤ depth) :=
  aligned_single (spelled_name isName) (fun _ other => by cases other) value depth

theorem aligned_minus {text : List Char} {value : Value}
    (aligned : ∀ value depth, Aligned [] ((nested depth).unary · (.literal value)) text (1 ≤ depth))
    (depth : Nat) : Aligned [] ((nested depth).unary · (.literal value)) ('-' :: text) (2 ≤ depth) := by
  intro tokens after rest closes stops same derived
  have minus : lex ('-' :: text ++ rest) = (lex (text ++ rest)).cons (.punct .minus) :=
    lex_mark .minus (by decide) (text ++ rest)
  rw [minus] at same ⊢
  cases depth with
  | zero => exact derived.elim
  | succ depth =>
      cases derived with
      | operand derived =>
          generalize made : Expr.literal value = tree at derived
          cases derived with
          | path | call | array | object => cases made
          | _ => cases (List.cons.inj same).1
      | negative derived =>
          obtain ⟨some, whole⟩ := aligned _ depth _ after rest closes stops (List.cons.inj same).2 derived
          rw [whole, prepend_cons]
          exact ⟨Nat.succ_le_succ some, rfl⟩

theorem aligned_number {value : Value} (formed : value.Formed) (number : IsNumber (.literal value))
    (depth : Nat) :
    Aligned [] ((nested depth).unary · (.literal value)) value.text.toList (value.nesting ≤ depth) := by
  obtain ⟨numeral, magnitude, -, ⟨written, -, once⟩ | ⟨written, -, twice⟩⟩ := exists_number formed number
  · rw [written, once]
    exact aligned_single (spelled_numeral numeral) (fun _ other => by cases other) value depth
  · rw [written, twice]
    exact aligned_minus (aligned_single (spelled_numeral numeral) fun _ other => by cases other) depth

/-- A literal is no operator, so it is derived by itself. -/
theorem aligned_conditional {value : Value} {text : List Char} {least : Nat}
    (aligned : ∀ depth, Aligned [] ((nested depth).unary · (.literal value)) text (least ≤ depth))
    (depth : Nat) : Aligned [] ((nested depth).conditional · (.literal value)) text (least < depth) := by
  intro tokens after rest closes stops same derived
  cases depth with
  | zero => exact derived.elim
  | succ depth =>
      cases derived with
      | test derived =>
          obtain ⟨enough, whole⟩ :=
            aligned depth tokens after rest closes stops same derived.unary_of_literal
          exact ⟨Nat.lt_succ_of_le enough, whole⟩

theorem aligned_quoted_member {tree : Expr} {conditional : Rule Expr} {holds : Prop}
    (aligned : Aligned [] (conditional · tree) tree.text.toList holds) (name : String) :
    Aligned [] (MemberOf conditional · (name, tree)) (Value.memberText (name, tree)) holds := by
  intro tokens after rest closes stops same derived
  have whole : lex (Value.memberText (name, tree) ++ rest) =
      ((lex (tree.text.toList ++ rest)).cons (.punct .colon)).cons (.string (Value.quote name)) := by
    have colon := lex_mark .colon (by decide) (tree.text.toList ++ rest)
    rw [Value.memberText, List.append_assoc, lex_quote, ← colon]
    rfl
  rw [whole] at same ⊢
  cases derived with
  | keyed key derived =>
      obtain ⟨rfl, later⟩ := List.cons.inj same
      obtain ⟨-, later⟩ := List.cons.inj later
      obtain ⟨here, whole⟩ := aligned _ after rest closes stops later derived
      rw [whole, prepend_cons, prepend_cons]
      exact ⟨here, rfl⟩
  | shorthand => cases (List.cons.inj same).1

/-- What derives an array and begins with its bracket is a list of its items. -/
theorem enclosed_of_array {depth : Nat} {tokens : List Token} {items : List Value}
    (derived : (nested (depth + 1)).unary tokens (.literal (.array items)))
    (head : tokens.head? = some (.punct .openBracket)) :
    Enclosed .openBracket .closeBracket (Listed (nested depth).conditional · (items.map .literal))
      tokens := by
  cases derived with
  | operand derived =>
      generalize made : Expr.literal (.array items) = tree at derived
      cases derived with
      | literalArray listed =>
          cases made
          exact ⟨_, rfl, listed⟩
      | path | call | array | object => cases made
      | _ => cases head
  | negative => cases head

theorem enclosed_of_object {depth : Nat} {tokens : List Token} {members : Dict Value}
    (derived : (nested (depth + 1)).unary tokens (.literal (.object members)))
    (head : tokens.head? = some (.punct .openBrace)) :
    ∃ values, Enclosed .openBrace .closeBrace
      (Listed (MemberOf (nested depth).conditional) · (literals values)) tokens := by
  cases derived with
  | operand derived =>
      generalize made : Expr.literal (.object members) = tree at derived
      cases derived with
      | literalObject listed => exact ⟨_, _, rfl, listed⟩
      | path | call | array | object => cases made
      | _ => cases head
  | negative => cases head

/-- At a limit that suffices, the members of an object are taken up to its bracket. -/
theorem items_of_listed {depth limit : Nat} (enough : depth ≤ limit) {tokens : List Token}
    {members : List (String × Expr)}
    (listed : Listed (MemberOf (nested depth).conditional) tokens members) (rest : List Token) :
    let source : Source := ⟨"", none⟩
    outcome (source.items .closeBrace (source.member (source.level limit).conditional)
      (tokens ++ .punct .closeBrace :: rest)) = .ok (members, rest) := by
  intro source
  have whole : source.fault = none := rfl
  have complete := member_complete whole (level_complete whole depth limit).1
  have found := items_reaches whole complete starts_member (show .closeBrace ∈ closingMarks by decide)
    (by decide) (by decide) listed rest
  exact found.resolve_right fun runsOut => by omega

/-- The tokens of an object that are first in some tokens have one list of members. -/
theorem members_unique {depth other : Nat} {first second after rest : List Token}
    {members others : List (String × Expr)}
    (here : Enclosed .openBrace .closeBrace (Listed (MemberOf (nested depth).conditional) · members) first)
    (there : Enclosed .openBrace .closeBrace (Listed (MemberOf (nested other).conditional) · others) second)
    (same : first ++ after = second ++ rest) : members = others := by
  obtain ⟨inner, rfl, here⟩ := here
  obtain ⟨inside, rfl, there⟩ := there
  have left := items_of_listed (Nat.le_add_right depth other) here after
  have right := items_of_listed (Nat.le_add_left other depth) there rest
  have same : inner ++ .punct .closeBrace :: after = inside ++ .punct .closeBrace :: rest := by
    simpa using same
  rw [same] at left
  exact congrArg Prod.fst (Except.ok.inj (left.symm.trans right))

theorem head?_of_cons {token : Token} {tokens after : List Token} {reading : Reading Token SyntaxError}
    (some : tokens ≠ []) (same : (reading.cons token).items = tokens ++ after) :
    tokens.head? = Option.some token := by
  cases tokens with
  | nil => exact absurd rfl some
  | cons first tokens => rw [(List.cons.inj same).1, List.head?_cons]

theorem aligned_array {items : List Value}
    (each : ∀ item ∈ items, ∀ depth,
      Aligned [] ((nested depth).unary · (.literal item)) item.text.toList (item.nesting ≤ depth))
    (depth : Nat) :
    Aligned [] ((nested depth).unary · (.literal (.array items))) (Value.text (.array items)).toList
      ((Value.array items).nesting ≤ depth) := by
  intro tokens after rest closes stops same derived
  cases depth with
  | zero => exact derived.elim
  | succ depth =>
      rw [Value.nesting_array_le]
      rw [Value.text_array] at same ⊢
      have inner : ∀ item ∈ items.map Expr.literal,
          Aligned [] ((nested depth).conditional · item) item.text.toList (item.nesting < depth) :=
        List.forall_mem_map.2 fun item member => aligned_conditional (each item member) depth
      have head : tokens.head? = some (.punct .openBracket) := by
        rw [IsBracket.bracket.lex_enclosed] at same
        exact head?_of_cons ((starts_nested _).2 tokens _ derived).1 same
      have listed := aligned_listed .bracket .narrow List.not_mem_nil List.not_mem_nil inner
      obtain ⟨all, whole⟩ := listed tokens after rest closes stops same (enclosed_of_array derived head)
      exact ⟨List.forall_mem_map.1 all, whole⟩

theorem aligned_object {members : Dict Value} (formed : ∀ entry ∈ members.entries, entry.2.Formed)
    (each : ∀ entry ∈ members.entries, ∀ depth,
      Aligned [] ((nested depth).unary · (.literal entry.2)) entry.2.text.toList (entry.2.nesting ≤ depth))
    (depth : Nat) :
    Aligned [] ((nested depth).unary · (.literal (.object members)))
      (Value.text (.object members)).toList ((Value.object members).nesting ≤ depth) := by
  intro tokens after rest closes stops same derived
  cases depth with
  | zero => exact derived.elim
  | succ depth =>
      rw [Value.nesting_object_le]
      rw [Value.text_object] at same ⊢
      have inner : ∀ member ∈ literals members.entries,
          Aligned [] (MemberOf (nested depth).conditional · member) (Value.memberText member)
            (member.2.nesting < depth) :=
        List.forall_mem_map.2 fun entry member =>
          aligned_quoted_member (aligned_conditional (each entry member) depth) entry.1
      have head : tokens.head? = some (.punct .openBrace) := by
        rw [IsBracket.brace.lex_enclosed] at same
        exact head?_of_cons ((starts_nested _).2 tokens _ derived).1 same
      obtain ⟨values, other⟩ := enclosed_of_object derived head
      -- Repeated names would be lost, but the printed form has none.
      obtain ⟨written, spelled, printed⟩ := exists_members fun entry member =>
        exists_conditional_literal (exists_literal (formed entry member))
          (Value.nesting_object_le.1 (Nat.le_succ _) entry member)
      have whole := congrArg Reading.items (spelled rest closes)
      rw [Value.text_object] at whole
      rw [members_unique other printed (same.symm.trans whole)] at other
      have listed := aligned_listed .brace .narrow List.not_mem_nil List.not_mem_nil inner
      obtain ⟨all, whole⟩ := listed tokens after rest closes stops same other
      exact ⟨List.forall_mem_map.1 all, whole⟩

/-- Nothing else reads as the literal of a value, and nothing with less depth. -/
theorem aligned_literal {value : Value} (formed : value.Formed) (depth : Nat) :
    Aligned [] ((nested depth).unary · (.literal value)) value.text.toList (value.nesting ≤ depth) := by
  induction formed generalizing depth with
  | int signed => exact aligned_number (.int signed) (Or.inl ⟨_, rfl⟩) depth
  | float canonical => exact aligned_number (.float canonical) (Or.inr ⟨_, rfl⟩) depth
  | null => exact aligned_name (by decide +kernel) .null depth
  | bool value =>
      cases value with
      | false => exact aligned_name (by decide +kernel) (.bool false) depth
      | true => exact aligned_name (by decide +kernel) (.bool true) depth
  | string text =>
      exact aligned_single (spelled_token fun rest _ => lex_quote text rest)
        (fun _ other => by cases other) (.string text) depth
  | array _ each => exact aligned_array each depth
  | object _ formed each => exact aligned_object formed each depth

end Printed

end Stencil
