import Stencil.Proofs.Double.Layout
import Stencil.Proofs.Entries
import Stencil.Proofs.Grammar.Fold
import Stencil.Proofs.Token.Word

/-! The trees that well formed tokens derive.

Names are words, integers have a negative, floats are of the format and objects have
distinct keys; and an array or object that is an operator has a member that is not a
literal.
-/

set_option autoImplicit false

namespace Stencil

open Grammar

/-- The values of literals. -/
inductive Value.Formed : Value → Prop where
  | null : Formed .null
  | bool (value : Bool) : Formed (.bool value)
  | int {n : Int} : IsSigned n → Formed (.int n)
  | float {x : Double} : x.Canonical → Formed (.float x)
  | string (text : String) : Formed (.string text)
  | array {items : List Value} : (∀ item ∈ items, Formed item) → Formed (.array items)
  | object {members : Dict Value} : members.keys.Nodup →
      (∀ entry ∈ members.entries, Formed entry.2) → Formed (.object members)

/-- The names of a path: its own, or the one at its start. -/
def Root.Named : Root → List Segment → Prop
  | .context, segments => ∃ name rest, segments = .name name :: rest ∧ Token.isName name.toList = true
  | .relative, _ => True
  | .ofAlias name, _ | .ofAttribute name, _ => Token.IsSigilName name.toList

structure Path.Named (path : Path) : Prop where
  root : path.root.Named path.segments
  words : ∀ name, .name name ∈ path.segments → Token.isWord name.toList = true

inductive Expr.Formed : Expr → Prop where
  | literal {value : Value} : value.Formed → Formed (.literal value)
  | path {path : Path} : path.Named → (∀ index, .index index ∈ path.segments → Formed index) →
      Formed (.path path)
  | call {path : Path} {args : List Expr} : path.Named →
      (∀ index, .index index ∈ path.segments → Formed index) → (∀ arg ∈ args, Formed arg) →
      Formed (.call path args)
  | array {items : List Expr} : (∃ item ∈ items, item.isLiteral = false) →
      (∀ item ∈ items, Formed item) → Formed (.operator Operator.array items)
  | object {members : List (String × Expr)} : (∃ member ∈ members, member.2.isLiteral = false) →
      (∀ member ∈ members, Formed member.2) →
      Formed (.operator Operator.object (alternating members))
  | unary {punct : Punct} {arg : Expr} : punct ∈ Punct.unary → ¬ (punct = .minus ∧ IsNumber arg) →
      Formed arg → Formed (.operator punct.text [arg])
  | binary {level : Nat} {operators : List Punct} {punct : Punct} {left right : Expr} :
      Punct.levels[level]? = some operators → punct ∈ operators → Formed left → Formed right →
      Formed (.operator punct.text [left, right])
  | conditional {test consequent alternate : Expr} : Formed test → Formed consequent →
      Formed alternate → Formed (.operator Operator.conditional [test, consequent, alternate])
  | sequence {first second : Expr} {rest : List Expr} : Formed first → Formed second →
      (∀ tree ∈ rest, Formed tree) → Formed (.sequence (first :: second :: rest))

theorem Expr.Formed.value {value : Value} (formed : Expr.Formed (.literal value)) : value.Formed := by
  cases formed with | literal formed => exact formed

namespace Grammar

/-- Well formed tokens derive what has some property. -/
def Ensures {α : Type} (rule : Rule α) (property : α → Prop) : Prop :=
  ∀ tokens value, rule tokens value → (∀ token ∈ tokens, token.Valid) → property value

section

variable {α : Type} {item : Rule α} {property : α → Prop}

theorem ensures_separated (each : Ensures item property) :
    Ensures (Separated item) fun values => values ≠ [] ∧ ∀ value ∈ values, property value := by
  intro tokens values derived valid
  refine ⟨by cases derived <;> simp, ?_⟩
  induction derived with
  | one derived => exact List.forall_mem_singleton.2 (each _ _ derived valid)
  | cons derived _ ih =>
      simp only [List.forall_mem_append, List.forall_mem_cons] at valid
      exact List.forall_mem_cons.2 ⟨each _ _ derived valid.1, ih valid.2.2⟩

theorem ensures_listed (each : Ensures item property) :
    Ensures (Listed item) fun values => ∀ value ∈ values, property value := by
  intro tokens values derived valid
  cases derived with
  | none => exact fun _ member => absurd member List.not_mem_nil
  | plain derived => exact (ensures_separated each _ _ derived valid).2
  | trailing derived => exact (ensures_separated each _ _ derived (List.forall_mem_append.1 valid).1).2

end

section

variable {conditional unary : Rule Expr}

theorem ensures_sequence (inner : Ensures conditional Expr.Formed) :
    Ensures (SequenceOf conditional) Expr.Formed := by
  intro tokens tree derived valid
  cases derived with
  | one derived => exact inner _ _ derived valid
  | @more first others tree trees derived separated =>
      simp only [List.forall_mem_append, List.forall_mem_cons] at valid
      obtain ⟨some, all⟩ := ensures_separated inner _ _ separated valid.2.2
      cases trees with
      | nil => exact absurd rfl some
      | cons second rest =>
          obtain ⟨next, rest⟩ := List.forall_mem_cons.1 all
          exact .sequence (inner _ _ derived valid.1) next rest

theorem ensures_binary (operand : Ensures unary Expr.Formed) (level : Nat) :
    Ensures (BinaryOf unary (Punct.levels.drop level)) Expr.Formed := by
  intro tokens tree derived
  generalize here : Punct.levels.drop level = levels at derived
  induction derived generalizing level with
  | operand derived => exact operand _ _ derived
  | @tighter operators levels _ _ _ ih =>
      exact ih (level + 1) (by rw [← List.tail_drop, here, List.tail_cons])
  | @join operators levels punct _ _ _ _ member _ _ left right =>
      intro valid
      simp only [List.forall_mem_append, List.forall_mem_cons] at valid
      have among : Punct.levels[level]? = some operators := by
        rw [← List.head?_drop, here, List.head?_cons]
      exact .binary among member (left level here valid.1)
        (right (level + 1) (by rw [← List.tail_drop, here, List.tail_cons]) valid.2.2)

theorem ensures_ternary (inner : Ensures conditional Expr.Formed) (operand : Ensures unary Expr.Formed) :
    Ensures (TernaryOf conditional unary) Expr.Formed := by
  have binary := ensures_binary operand 0
  rw [List.drop_zero] at binary
  intro tokens tree derived valid
  cases derived with
  | test derived => exact binary _ _ derived valid
  | choice test consequent alternate =>
      simp only [List.forall_mem_append, List.forall_mem_cons] at valid
      exact .conditional (binary _ _ test valid.1) (inner _ _ consequent valid.2.2.1)
        (inner _ _ alternate valid.2.2.2.2)

theorem ensures_member (inner : Ensures conditional Expr.Formed) :
    Ensures (MemberOf conditional) fun member => member.2.Formed := by
  intro tokens member derived valid
  cases derived with
  | keyed key derived =>
      simp only [List.forall_mem_cons] at valid
      exact inner _ _ derived valid.2.2
  | @shorthand name =>
      have named : Token.isName name.toList = true := valid _ List.mem_cons_self
      refine .path ⟨⟨name, [], rfl, named⟩, ?_⟩ ?_
      · intro other member
        cases List.mem_singleton.1 member
        simp [Token.isWord, named]
      · intro index member
        cases List.mem_singleton.1 member

/-- A segment is a word, or a well formed index. -/
def SegmentFormed : Segment → Prop
  | .name name => Token.isWord name.toList = true
  | .index index => index.Formed

theorem word_of_segment {token : Token} {name : String} (segment : SegmentOf token name)
    (valid : token.Valid) : Token.isWord name.toList = true := by
  cases segment with
  | identifier =>
      have valid : Token.isName name.toList = true := valid
      simp [Token.isWord, valid]
  | number =>
      have valid : Token.isNumeral name.toList = true := valid
      simp [Token.isWord, valid]

theorem ensures_segments (inner : Ensures conditional Expr.Formed) :
    Ensures (SegmentsOf conditional) fun segments => ∀ segment ∈ segments, SegmentFormed segment := by
  intro tokens segments derived valid
  induction derived with
  | nil => exact fun _ member => absurd member List.not_mem_nil
  | name segment _ ih =>
      simp only [List.forall_mem_cons] at valid
      exact List.forall_mem_cons.2 ⟨word_of_segment segment valid.2.1, ih valid.2.2⟩
  | index sequence _ ih =>
      simp only [List.forall_mem_cons, List.forall_mem_append] at valid
      exact List.forall_mem_cons.2 ⟨ensures_sequence inner _ _ sequence valid.2.1, ih valid.2.2.2⟩

/-- The root of a path, with the segments after it. -/
theorem named_of_root {token : Token} {root : Root} {start segments : List Segment}
    (isRoot : RootOf token root start) (valid : token.Valid)
    (all : ∀ segment ∈ segments, SegmentFormed segment) :
    Path.Named ⟨root, start ++ segments⟩ ∧
      ∀ index, .index index ∈ start ++ segments → index.Formed := by
  have whole : ∀ segment ∈ start ++ segments, SegmentFormed segment := by
    refine List.forall_mem_append.2 ⟨?_, all⟩
    cases isRoot with
    | @name name =>
        have valid : Token.isName name.toList = true := valid
        refine List.forall_mem_singleton.2 ?_
        simp [SegmentFormed, Token.isWord, valid]
    | _ => exact fun _ member => absurd member List.not_mem_nil
  refine ⟨⟨?_, fun name member => whole _ member⟩, fun index member => whole _ member⟩
  cases isRoot with
  | name => exact ⟨_, _, rfl, valid⟩
  | this => trivial
  | aliasName => exact valid
  | attributeName => exact valid

theorem formed_of_number {text : List Char} {value : Value}
    (read : Value.ofNumber? text = some value) : value.Formed := by
  rcases ofNumber?_cases read with ⟨n, rfl, -⟩ | ⟨x, rfl, found⟩
  · exact .int (isSigned_ofNumber? read)
  · exact .float (Double.canonical_of_ofDecimal? found)

theorem formed_of_neg {value opposite : Value} (formed : value.Formed)
    (negated : value.neg? = some opposite) : opposite.Formed := by
  cases formed with
  | int signed =>
      rw [neg?_int signed] at negated
      cases negated
      exact .int ⟨by simp only [IsSigned] at signed; omega, by simp only [IsSigned] at signed; omega⟩
  | float canonical =>
      cases negated
      exact .float canonical.neg
  | _ => cases negated

theorem formed_of_constant {name : String} {value : Value} (known : constant? name = some value) :
    value.Formed := by
  rcases constant?_cases known with ⟨truth, rfl⟩ | rfl
  · exact .bool truth
  · exact .null

theorem ensures_operand (inner : Ensures conditional Expr.Formed) :
    Ensures (OperandOf conditional) Expr.Formed := by
  have member := ensures_member inner
  intro tokens tree derived valid
  cases derived with
  | number read => exact .literal (formed_of_number read)
  | string => exact .literal (.string _)
  | constant known => exact .literal (formed_of_constant known)
  | group derived =>
      simp only [List.forall_mem_cons, List.forall_mem_append] at valid
      exact ensures_sequence inner _ _ derived valid.2.1
  | literalArray listed =>
      simp only [List.forall_mem_cons, List.forall_mem_append] at valid
      have all := ensures_listed inner _ _ listed valid.2.1
      exact .literal (.array fun item among => (all _ (List.mem_map_of_mem among)).value)
  | array listed other =>
      simp only [List.forall_mem_cons, List.forall_mem_append] at valid
      exact .array other (ensures_listed inner _ _ listed valid.2.1)
  | literalObject listed =>
      simp only [List.forall_mem_cons, List.forall_mem_append] at valid
      have all := ensures_listed member _ _ listed valid.2.1
      refine .literal (.object (Dict.nodup_ofEntries _) fun entry among => ?_)
      exact (all _ (List.mem_map_of_mem (Dict.mem_of_mem_ofEntries _ entry among))).value
  | object listed other =>
      simp only [List.forall_mem_cons, List.forall_mem_append] at valid
      exact .object other (ensures_listed member _ _ listed valid.2.1)
  | path root segments =>
      simp only [List.forall_mem_cons] at valid
      obtain ⟨named, indices⟩ := named_of_root root valid.1
        (ensures_segments inner _ _ segments valid.2)
      exact .path named indices
  | call root segments listed =>
      simp only [List.forall_mem_cons, List.forall_mem_append] at valid
      obtain ⟨named, indices⟩ := named_of_root root valid.1
        (ensures_segments inner _ _ segments valid.2.1)
      exact .call named indices (ensures_listed inner _ _ listed valid.2.2.2.1)

theorem ensures_prefixed (inner : Ensures conditional Expr.Formed)
    (operand : Ensures unary Expr.Formed) : Ensures (PrefixedOf conditional unary) Expr.Formed := by
  intro tokens tree derived valid
  cases derived with
  | operand derived => exact ensures_operand inner _ _ derived valid
  | negative derived negated =>
      have formed := operand _ _ derived (List.forall_mem_cons.1 valid).2
      exact .literal (formed_of_neg formed.value negated)
  | operator sign derived other =>
      exact .unary sign other (operand _ _ derived (List.forall_mem_cons.1 valid).2)

end

/-- Well formed tokens derive well formed trees. -/
theorem ensures_nested (depth : Nat) :
    Ensures (nested depth).conditional Expr.Formed ∧ Ensures (nested depth).unary Expr.Formed := by
  induction depth with
  | zero => exact ⟨fun _ _ => False.elim, fun _ _ => False.elim⟩
  | succ depth ih => exact ⟨ensures_ternary ih.1 ih.2, ensures_prefixed ih.1 ih.2⟩

end Grammar

end Stencil
