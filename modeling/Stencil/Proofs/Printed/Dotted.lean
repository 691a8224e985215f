import Mathlib.Data.List.Chain
import Stencil.Proofs.Printed.RoundTrip
import Stencil.Proofs.Token.Identifier

/-! Names with points between them.

A number token takes a point and the digits after it as its fraction, and a number is one
segment of a path. So the segments after the first name keep apart just if no two that are
made of digits stand side by side.
-/

set_option autoImplicit false

namespace Stencil

open Grammar Token

namespace Printed

variable {first : String} {others : List String}

theorem texts_names (names : List String) :
    (Segment.texts false (names.map .name)).toList = names.flatMap fun name => '.' :: name.toList := by
  induction names with
  | nil => rfl
  | cons name names ih => rw [List.map_cons, texts_name, ih, List.flatMap_cons, List.cons_append]

/-- A path of names is written as these, with a point before each but the first one. -/
theorem text_names (first : String) (others : List String) :
    (Path.text ⟨.context, (first :: others).map .name⟩).toList =
      first.toList ++ others.flatMap fun name => '.' :: name.toList := by
  have spread : Path.text ⟨.context, (first :: others).map .name⟩ =
      "" ++ (first ++ Segment.texts false (others.map .name)) := rfl
  rw [spread, String.empty_append, String.toList_append, texts_names]

theorem intercalate_names (first : String) (others : List String) :
    (".".intercalate (first :: others)).toList =
      first.toList ++ others.flatMap fun name => '.' :: name.toList := by
  rw [String.toList_intercalate]
  induction others generalizing first with
  | nil => simp
  | cons next others ih =>
      rw [List.map_cons, List.map_cons, List.intercalate_cons_cons, ← List.map_cons, ih]
      simp

theorem named_names (isFirst : isName first.toList = true)
    (words : ∀ name ∈ others, isWord name.toList = true) :
    Path.Named ⟨.context, (first :: others).map .name⟩ := by
  refine ⟨⟨first, _, rfl, isFirst⟩, fun name member => ?_⟩
  obtain ⟨other, among, same⟩ := List.mem_map.1 member
  obtain rfl := Segment.name.inj same
  rcases List.mem_cons.1 among with rfl | later
  · rw [isWord, isFirst, Bool.true_or]
  · exact words other later

theorem index_notMem_names {index : Expr} {names : List String} :
    Segment.index index ∉ names.map Segment.name := by
  intro member
  obtain ⟨_, _, same⟩ := List.mem_map.1 member
  cases same

theorem apart_names_iff (names : List String) :
    Segment.apart (names.map .name) = true ↔ names.IsChain fun name next => joins name next = false := by
  induction names with
  | nil => simp [Segment.apart]
  | cons name names ih =>
      cases names with
      | nil => simp [Segment.apart]
      | cons next names =>
          rw [List.isChain_cons_cons, ← ih]
          simp [Segment.apart]

/-- The first name goes on with no digits. -/
theorem apart_names_cons (isFirst : isName first.toList = true) :
    Segment.apart ((first :: others).map .name) = true ↔
      others.IsChain fun name next => joins name next = false := by
  rw [apart_names_iff, List.isChain_cons, and_iff_right fun next _ => joins_of_isName isFirst next]

theorem areReadable_names (names : List String) : Segment.areReadable (names.map .name) = true := by
  induction names with
  | nil => rfl
  | cons name names ih =>
      rw [List.map_cons, Segment.areReadable, ih]
      rfl

theorem nestings_names (names : List String) : Segment.nestings (names.map .name) = [] := by
  induction names with
  | nil => rfl
  | cons name names ih =>
      rw [List.map_cons, Segment.nestings, ih]
      rfl

theorem starts_name (lookup : IsLookup first) (segments : List Segment) :
    Root.context.starts (.name first :: segments) = true := by
  obtain ⟨plain, other⟩ := not_mem_reservedWords_iff.1 lookup.unreserved
  simp [Root.starts, plain, other]

end Printed

instance (text : List Char) : Decidable (IsDigits text) :=
  haveI : Decidable (∀ c ∈ text, c.isDigit = true) := List.decidableBAll _ text
  decidable_of_iff (text ≠ [] ∧ ∀ c ∈ text, c.isDigit = true)
    ⟨fun ⟨filled, all⟩ => ⟨filled, all⟩, fun digits => ⟨digits.some, digits.all⟩⟩

/-- What may stand after a point: an identifier, or digits. -/
def IsSegment (name : String) : Prop :=
  IsIdentifier name ∨ IsDigits name.toList

instance (name : String) : Decidable (IsSegment name) :=
  inferInstanceAs (Decidable (IsIdentifier name ∨ IsDigits name.toList))

namespace IsSegment

variable {name next : String}

theorem isWord (segment : IsSegment name) : isWord name.toList = true := by
  rcases segment with identifier | digits
  · rw [Token.isWord, identifier.isName, Bool.true_or]
  · have numeral : isNumeral name.toList = true :=
      isNumeral_iff.2 ⟨⟨_, [], [], digits, .none, .none⟩, by simp [Numeral.text]⟩
    rw [Token.isWord, numeral, Bool.or_true]

/-- A segment begins with a digit just if it is made of digits. -/
theorem head?_iff (segment : IsSegment name) :
    name.toList.head?.any Char.isDigit = true ↔ IsDigits name.toList := by
  obtain ⟨c, others, same, -⟩ := exists_cons_of_isWord segment.isWord
  rw [same, List.head?_cons, Option.any_some]
  refine ⟨fun digit => segment.elim (fun identifier => ?_) (same ▸ ·),
    fun digits => digits.all c List.mem_cons_self⟩
  have named := identifier.isName
  rw [same] at named
  have other := isDigit_of_isNameStart (Bool.and_eq_true_iff.1 named).1
  exact absurd (digit.symm.trans other) (by decide)

theorem joins_eq_false_iff (segment : IsSegment name) (other : IsSegment next) :
    joins name next = false ↔ ¬ (IsDigits name.toList ∧ IsDigits next.toList) := by
  have whole : name.toList.all Char.isDigit = true ↔ IsDigits name.toList := by
    obtain ⟨c, others, same, -⟩ := exists_cons_of_isWord segment.isWord
    refine ⟨fun all => ⟨by simp [same], List.all_eq_true.1 all⟩, fun digits => ?_⟩
    exact List.all_eq_true.2 digits.all
  rw [← whole, ← other.head?_iff, ← Bool.and_eq_true_iff, Bool.not_eq_true]
  rfl

end IsSegment

namespace Expr

open Printed

/-- Names with points between them are read as the path of just these names, unless two
of them that are made of digits stand side by side. -/
theorem parse_dotted_iff {first : String} {segments : List String} (lookup : IsLookup first)
    (each : ∀ name ∈ segments, IsSegment name) :
    parse (".".intercalate (first :: segments)) =
        .ok (.path ⟨.context, (first :: segments).map .name⟩) ↔
      segments.IsChain fun name next => ¬ (IsDigits name.toList ∧ IsDigits next.toList) := by
  have isFirst := lookup.identifier.isName
  have written : ".".intercalate (first :: segments) =
      (Expr.path ⟨.context, (first :: segments).map .name⟩).text :=
    String.toList_inj.1 ((intercalate_names first segments).trans (text_names first segments).symm)
  have formed : Formed (.path ⟨.context, (first :: segments).map .name⟩) :=
    .path (named_names isFirst fun name among => (each name among).isWord)
      fun index member => absurd member index_notMem_names
  have shallow : (Expr.path ⟨.context, (first :: segments).map .name⟩).nesting < depthLimit := by
    rw [Expr.nesting, Path.nesting, nestings_names]
    decide
  have readable : (Expr.path ⟨.context, (first :: segments).map .name⟩).isReadable = true ↔
      segments.IsChain fun name next => joins name next = false := by
    rw [Expr.isReadable, Path.isReadable, areReadable_names, List.map_cons, starts_name lookup,
      Bool.true_and, Bool.and_true, ← List.map_cons, apart_names_cons isFirst]
  rw [written, parse_text_of_formed formed]
  calc Within 0 depthLimit (.path ⟨.context, (first :: segments).map .name⟩)
      ↔ (Expr.path ⟨.context, (first :: segments).map .name⟩).isReadable = true :=
        ⟨Within.readable, fun readable => ⟨Nat.zero_le _, readable, shallow⟩⟩
    _ ↔ segments.IsChain fun name next => joins name next = false := readable
    _ ↔ segments.IsChain fun name next => ¬ (IsDigits name.toList ∧ IsDigits next.toList) :=
        List.IsChain.iff_of_mem_imp fun name next isIn follows =>
          (each name isIn).joins_eq_false_iff (each next follows)

theorem parse_dotted_index :
    let segments := ["b", "0", "_1"]
    let tree : Expr := .path ⟨.context, ("a" :: segments).map .name⟩
    ".".intercalate ("a" :: segments) = "a.b.0._1" ∧
      (parse (".".intercalate ("a" :: segments)) = .ok tree ↔
        segments.IsChain fun name next => ¬ (IsDigits name.toList ∧ IsDigits next.toList)) ∧
      parse "a.b.0._1" = .ok tree := by
  intro segments tree
  have written : ".".intercalate ("a" :: segments) = "a.b.0._1" := by decide +kernel
  have dotted := parse_dotted_iff (show IsLookup "a" by decide)
    (show ∀ name ∈ segments, IsSegment name by decide)
  exact ⟨written, dotted, written ▸ dotted.2 (by decide)⟩

set_option maxRecDepth 20000 in
/-- Digits, a point and digits are one number, which is one segment. -/
theorem parse_dotted_digits :
    let segments := ["1", "2"]
    let tree : Expr := .path ⟨.context, [.name "a", .name "1.2"]⟩
    IsLookup "a" ∧ (∀ name ∈ segments, IsSegment name) ∧
      ".".intercalate ("a" :: segments) = "a.1.2" ∧ parse "a.1.2" = .ok tree ∧
      tree ≠ .path ⟨.context, ("a" :: segments).map .name⟩ := by
  intro segments tree
  refine ⟨by decide, by decide, by decide +kernel, by cbv, fun same => ?_⟩
  exact absurd (congrArg List.length (Path.mk.inj (Expr.path.inj same)).2) (by decide)

end Expr

end Stencil
