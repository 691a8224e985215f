import Stencil.Proofs.Printed.Literal

/-! The shapes of trees: how each is written, and when it fits a place.

A tree fits a place if it is readable, its rank is that of the place at least, and there
is enough depth to nest.
-/

set_option autoImplicit false

namespace Stencil

open Grammar Printed

namespace Expr

theorem texts_eq_map (args : List Expr) : texts args = args.map text := by
  induction args with
  | nil => rfl
  | cons arg rest ih => rw [texts, ih, List.map_cons]

theorem labelled_eq_map (args : List Expr) :
    labelled args = args.map fun arg => (arg.literal?, arg.text) := by
  induction args with
  | nil => rfl
  | cons arg rest ih => rw [labelled, ih, List.map_cons]

theorem areReadable_iff {args : List Expr} :
    areReadable args = true ↔ ∀ arg ∈ args, arg.isReadable = true := by
  induction args with
  | nil => simp [areReadable]
  | cons arg rest ih => simp [areReadable, ih]

theorem nestings_eq_map (args : List Expr) : nestings args = args.map nesting := by
  induction args with
  | nil => rfl
  | cons arg rest ih => rw [nestings, ih, List.map_cons]

theorem stand_replicate_iff {place : Nat} {args : List Expr} :
    stand (List.replicate args.length place) args = true ↔ ∀ arg ∈ args, place ≤ arg.rank := by
  induction args with
  | nil => simp [stand]
  | cons arg rest ih =>
      simp only [stand] at ih
      simp [stand, List.replicate_succ, ih]

end Expr

/-- A tree in a place of some rank, with some depth to nest. -/
structure Expr.Fits (place depth : Nat) (tree : Expr) : Prop where
  rank : place ≤ tree.rank
  readable : tree.isReadable = true
  nesting : tree.nesting ≤ depth

/-- A tree in brackets of some depth, or after another mark that takes depth. -/
structure Expr.Within (place depth : Nat) (tree : Expr) : Prop where
  rank : place ≤ tree.rank
  readable : tree.isReadable = true
  nesting : tree.nesting < depth

theorem Expr.within_succ_iff {place depth : Nat} {tree : Expr} :
    tree.Within place (depth + 1) ↔ tree.Fits place depth :=
  ⟨fun within => ⟨within.rank, within.readable, Nat.le_of_lt_succ within.nesting⟩,
    fun fits => ⟨fits.rank, fits.readable, Nat.lt_succ_of_le fits.nesting⟩⟩

/-- The text of a member of an object. -/
def Expr.memberText (member : String × Expr) : List Char :=
  member.1.toList ++ ':' :: ' ' :: member.2.text.toList

namespace Expr

section

variable {punct : Punct} {depth : Nat}

theorem text_ne_bracket (punct : Punct) :
    punct.text ≠ Operator.object ∧ punct.text ≠ Operator.array := by
  cases punct <;> decide

theorem toList_punct (punct : Punct) : punct.text.toList = punct.symbol :=
  String.toList_ofList

theorem text_unary (punct : Punct) (arg : Expr) :
    (operator punct.text [arg]).text.toList = punct.symbol ++ arg.text.toList := by
  obtain ⟨noObject, noArray⟩ := text_ne_bracket punct
  simp only [text, labelled, operatorText, noObject, noArray, if_false, List.map_cons, List.map_nil,
    String.toList_append, toList_punct]

theorem text_binary (punct : Punct) (left right : Expr) :
    (operator punct.text [left, right]).text.toList =
      left.text.toList ++ ' ' :: (punct.symbol ++ ' ' :: right.text.toList) := by
  obtain ⟨noObject, noArray⟩ := text_ne_bracket punct
  simp only [text, labelled, operatorText, noObject, noArray, if_false, List.map_cons, List.map_nil,
    String.toList_append, toList_punct, List.append_assoc]
  rfl

theorem text_conditional (test consequent alternate : Expr) :
    (operator Operator.conditional [test, consequent, alternate]).text.toList =
      test.text.toList ++ ' ' :: '?' :: ' ' ::
        (consequent.text.toList ++ ' ' :: ':' :: ' ' :: alternate.text.toList) := by
  have apart : Operator.conditional ≠ Operator.object ∧ Operator.conditional ≠ Operator.array := by
    decide
  simp only [text, labelled, operatorText, apart.1, apart.2, if_false, if_true, List.map_cons,
    List.map_nil, String.toList_append, List.append_assoc]
  rfl

theorem text_array (items : List Expr) :
    (operator Operator.array items).text.toList = enclosed .openBracket .closeBracket
      (List.intercalate [',', ' '] (items.map fun item => item.text.toList)) := by
  have apart : Operator.array ≠ Operator.object := by decide
  simp only [text, labelled_eq_map, operatorText, apart, if_false, if_true, String.toList_append,
    String.toList_intercalate, List.map_map, enclosed, List.append_assoc]
  rfl

theorem pairTexts_alternating (members : List (String × Expr)) :
    pairTexts (labelled (alternating members)) =
      members.map fun member => member.1 ++ ": " ++ member.2.text := by
  induction members with
  | nil => rfl
  | cons member rest ih =>
      change pairTexts ((_, _) :: (_, _) :: labelled (alternating rest)) = _
      rw [pairTexts, ih]
      rfl

theorem text_object (members : List (String × Expr)) :
    (operator Operator.object (alternating members)).text.toList = enclosed .openBrace .closeBrace
      (List.intercalate [',', ' '] (members.map memberText)) := by
  have same : (String.toList ∘ fun member : String × Expr => member.1 ++ ": " ++ member.2.text) =
      memberText := by
    funext member
    simp [memberText]
  simp only [text, operatorText, pairTexts_alternating, if_true, String.toList_append,
    String.toList_intercalate, List.map_map, enclosed, List.append_assoc, same]
  rfl

theorem text_sequence (items : List Expr) :
    (sequence items).text.toList =
      List.intercalate [',', ' '] (items.map fun item => item.text.toList) := by
  simp only [text, texts_eq_map, String.toList_intercalate, List.map_map]
  rfl

theorem text_call (path : Path) (args : List Expr) :
    (call path args).text.toList = path.text.toList ++ enclosed .openParen .closeParen
      (List.intercalate [',', ' '] (args.map fun arg => arg.text.toList)) := by
  simp only [text, texts_eq_map, String.toList_append, String.toList_intercalate, List.map_map,
    enclosed, List.append_assoc]
  rfl

theorem nesting_bracket {name : String} (bracket : name = Operator.array ∨ name = Operator.object)
    (args : List Expr) : (operator name args).nesting = deepest (args.map nesting) + 1 := by
  have found : (name = Operator.object || name = Operator.array) = true := by
    rcases bracket with rfl | rfl <;> decide
  simp only [nesting, nestings_eq_map, Operator.nesting, found, if_true]

theorem nesting_unary (punct : Punct) (arg : Expr) :
    (operator punct.text [arg]).nesting = arg.nesting + 1 := by
  have other : (punct.text = Operator.object || punct.text = Operator.array) = false := by
    simp [text_ne_bracket]
  simp only [nesting, nestings, Operator.nesting, other, Bool.false_eq_true, if_false]
  exact Nat.max_eq_left (Nat.zero_le _)

theorem nesting_binary (punct : Punct) (left right : Expr) :
    (operator punct.text [left, right]).nesting = max left.nesting right.nesting := by
  have other : (punct.text = Operator.object || punct.text = Operator.array) = false := by
    simp [text_ne_bracket]
  simp only [nesting, nestings, Operator.nesting, other, Bool.false_eq_true, if_false]

theorem nesting_conditional (test consequent alternate : Expr) :
    (operator Operator.conditional [test, consequent, alternate]).nesting =
      max test.nesting (max (consequent.nesting + 1) (alternate.nesting + 1)) := by
  have other : (Operator.conditional = Operator.object || Operator.conditional = Operator.array) =
      false := by decide
  simp only [nesting, nestings, Operator.nesting, other, Bool.false_eq_true, if_false, deepest,
    List.map_cons, List.map_nil, List.foldr_cons, List.foldr_nil, Nat.max_zero]

theorem foldr_max_le_iff {depths : List Nat} {limit : Nat} :
    depths.foldr max 0 ≤ limit ↔ ∀ depth ∈ depths, depth ≤ limit := by
  induction depths with
  | nil => simp
  | cons depth depths ih => simp [ih]

/-- Printed forms nest at least once. -/
theorem Formed.nesting_pos {tree : Expr} (formed : tree.Formed) : 0 < tree.nesting := by
  induction formed with
  | literal _ => exact Value.nesting_pos _
  | @path path => cases path with | mk => exact Nat.succ_pos _
  | call => exact Nat.lt_of_lt_of_le (Nat.succ_pos _) (Nat.le_max_right _ _)
  | array => rw [nesting_bracket (Or.inl rfl)]; exact Nat.succ_pos _
  | object => rw [nesting_bracket (Or.inr rfl)]; exact Nat.succ_pos _
  | unary => rw [nesting_unary]; exact Nat.succ_pos _
  | binary _ _ _ _ left => rw [nesting_binary]; exact Nat.lt_of_lt_of_le left (Nat.le_max_left _ _)
  | conditional _ _ _ test =>
      rw [nesting_conditional]
      exact Nat.lt_of_lt_of_le test (Nat.le_max_left _ _)
  | sequence _ _ _ first => exact Nat.lt_of_lt_of_le first (Nat.le_max_left _ _)

theorem readable_bracket {name : String} (bracket : name = Operator.array ∨ name = Operator.object)
    (args : List Expr) :
    (operator name args).isReadable = true ↔ (∀ arg ∈ args, 1 ≤ arg.rank ∧ arg.isReadable = true) ∧
      (name = Operator.object → keysAreWords args = true) := by
  have places : Operator.places name args.length = List.replicate args.length 1 := by
    rcases bracket with rfl | rfl <;> rfl
  simp only [isReadable, places, Bool.and_eq_true, stand_replicate_iff, areReadable_iff,
    Bool.or_eq_true, bne_iff_ne, imp_iff_not_or]
  grind

theorem readable_unary (punct : Punct) (arg : Expr) :
    (operator punct.text [arg]).isReadable = true ↔
      operandRank ≤ arg.rank ∧ arg.isReadable = true := by
  have all : ∀ punct ∈ Punct.all, Operator.places punct.text 1 = [operandRank] := by decide
  have places := all punct (Punct.mem_all punct)
  simp [isReadable, areReadable, stand, places, text_ne_bracket]

theorem readable_binary {level : Nat} {operators : List Punct}
    (here : Punct.levels[level]? = some operators) (member : punct ∈ operators) (left right : Expr) :
    (operator punct.text [left, right]).isReadable = true ↔
      (level + 2 ≤ left.rank ∧ level + 3 ≤ right.rank) ∧
        left.isReadable = true ∧ right.isReadable = true := by
  have rank : Operator.rank punct.text 2 = level + 2 := rank_binary here member left right
  have places : Operator.places punct.text 2 = [level + 2, level + 3] := by
    simp [Operator.places, text_ne_bracket, rank]
  simp [isReadable, areReadable, stand, places, text_ne_bracket]

theorem readable_conditional (test consequent alternate : Expr) :
    (operator Operator.conditional [test, consequent, alternate]).isReadable = true ↔
      (2 ≤ test.rank ∧ 1 ≤ consequent.rank ∧ 1 ≤ alternate.rank) ∧
        test.isReadable = true ∧ consequent.isReadable = true ∧ alternate.isReadable = true := by
  have places : Operator.places Operator.conditional 3 = [2, 1, 1] := by decide
  have apart : Operator.conditional ≠ Operator.object := by decide
  simp [isReadable, areReadable, stand, places, apart]

theorem keysAreWords_alternating (members : List (String × Expr)) :
    keysAreWords (alternating members) = true ↔
      ∀ member ∈ members, Token.isWord member.1.toList = true := by
  induction members with
  | nil => exact ⟨fun _ _ member => absurd member List.not_mem_nil, fun _ => rfl⟩
  | cons member rest ih =>
      rw [List.forall_mem_cons, ← ih]
      exact Bool.and_eq_true_iff

theorem forall_mem_alternating {property : Expr → Prop} {members : List (String × Expr)} :
    (∀ arg ∈ alternating members, property arg) ↔
      ∀ member ∈ members, property (.literal (.string member.1)) ∧ property member.2 := by
  induction members with
  | nil => exact ⟨fun _ _ member => absurd member List.not_mem_nil,
      fun _ _ member => absurd member List.not_mem_nil⟩
  | cons member rest ih =>
      change (∀ arg ∈ .literal (.string member.1) :: member.2 :: alternating rest, property arg) ↔ _
      rw [List.forall_mem_cons, List.forall_mem_cons, List.forall_mem_cons, ih, and_assoc]

theorem fits_iff {place : Nat} {tree : Expr} :
    tree.Fits place depth ↔ place ≤ tree.rank ∧ tree.isReadable = true ∧ tree.nesting ≤ depth :=
  ⟨fun fits => ⟨fits.rank, fits.readable, fits.nesting⟩, fun ⟨rank, readable, nesting⟩ =>
    ⟨rank, readable, nesting⟩⟩

theorem within_iff {place : Nat} {tree : Expr} :
    tree.Within place depth ↔ place ≤ tree.rank ∧ tree.isReadable = true ∧ tree.nesting < depth :=
  ⟨fun within => ⟨within.rank, within.readable, within.nesting⟩, fun ⟨rank, readable, nesting⟩ =>
    ⟨rank, readable, nesting⟩⟩

theorem fits_literal {value : Value} :
    Fits operandRank depth (literal value) ↔ value.nesting ≤ depth :=
  ⟨Fits.nesting, fun enough => ⟨le_refl _, rfl, enough⟩⟩

theorem fits_bracket {name : String} (bracket : name = Operator.array ∨ name = Operator.object)
    (args : List Expr) :
    (operator name args).Fits operandRank (depth + 1) ↔
      (∀ arg ∈ args, arg.Within 1 depth) ∧ (name = Operator.object → keysAreWords args = true) := by
  simp only [fits_iff, within_iff, rank_bracket bracket, readable_bracket bracket,
    nesting_bracket bracket, Nat.add_le_add_iff_right, deepest_le_iff, List.forall_mem_map]
  grind

theorem fits_array {items : List Expr} :
    (operator Operator.array items).Fits operandRank (depth + 1) ↔
      ∀ item ∈ items, item.Within 1 depth := by
  have apart : Operator.array ≠ Operator.object := by decide
  simp [fits_bracket (Or.inl rfl), apart]

theorem fits_object {members : List (String × Expr)} (formed : ∀ member ∈ members, member.2.Formed) :
    (operator Operator.object (alternating members)).Fits operandRank (depth + 1) ↔
      ∀ member ∈ members, Token.isWord member.1.toList = true ∧ member.2.Within 1 depth := by
  rw [fits_bracket (Or.inr rfl), forall_mem_alternating, keysAreWords_alternating]
  constructor
  · exact fun ⟨all, words⟩ member among => ⟨words rfl member among, (all member among).2⟩
  · intro all
    refine ⟨fun member among => ?_, fun _ member among => (all member among).1⟩
    obtain ⟨-, within⟩ := all member among
    -- A key nests once, and so does its value at least.
    have enough := Nat.lt_of_le_of_lt (formed member among).nesting_pos within.nesting
    exact ⟨⟨show 1 ≤ operandRank by decide, rfl, enough⟩, within⟩

theorem fits_unary {arg : Expr} :
    (operator punct.text [arg]).Fits operandRank (depth + 1) ↔ arg.Fits operandRank depth := by
  simp only [fits_iff, rank_unary, readable_unary, nesting_unary, Nat.add_le_add_iff_right]
  grind

theorem fits_binary {level : Nat} {operators : List Punct}
    (here : Punct.levels[level]? = some operators) (member : punct ∈ operators) {left right : Expr} :
    (operator punct.text [left, right]).Fits (level + 2) depth ↔
      left.Fits (level + 2) depth ∧ right.Fits (level + 3) depth := by
  simp only [fits_iff, rank_binary here member, readable_binary here member, nesting_binary]
  grind

theorem fits_conditional {test consequent alternate : Expr} :
    (operator Operator.conditional [test, consequent, alternate]).Fits 1 depth ↔
      test.Fits 2 depth ∧ consequent.Within 1 depth ∧ alternate.Within 1 depth := by
  simp only [fits_iff, within_iff, rank_conditional, readable_conditional, nesting_conditional]
  grind

theorem fits_sequence {items : List Expr} :
    (sequence items).Fits 0 depth ↔ ∀ item ∈ items, item.Fits 1 depth := by
  have readable : (sequence items).isReadable = true ↔
      (∀ item ∈ items, 1 ≤ item.rank) ∧ ∀ item ∈ items, item.isReadable = true := by
    rw [isReadable, Bool.and_eq_true, stand_replicate_iff, areReadable_iff]
  simp only [fits_iff, readable, nesting, nestings_eq_map, foldr_max_le_iff, List.forall_mem_map]
  grind

end

end Expr

/-- A path in a place with some depth to nest in its brackets. -/
structure Path.Fits (depth : Nat) (path : Path) : Prop where
  starts : path.root.starts path.segments = true
  apart : Segment.apart path.segments = true
  indices : ∀ index, .index index ∈ path.segments → index.Within 0 depth

theorem Segment.areReadable_iff {segments : List Segment} :
    Segment.areReadable segments = true ↔
      ∀ index, .index index ∈ segments → index.isReadable = true := by
  induction segments with
  | nil => exact ⟨fun _ _ member => absurd member List.not_mem_nil, fun _ => rfl⟩
  | cons segment rest ih =>
      cases segment with
      | name _ => simp [Segment.areReadable, Segment.isReadable, ih]
      | index _ => simp [Segment.areReadable, Segment.isReadable, ih]

theorem Segment.nestings_lt_iff {segments : List Segment} {depth : Nat} :
    (∀ nesting ∈ Segment.nestings segments, nesting < depth) ↔
      ∀ index, .index index ∈ segments → index.nesting < depth := by
  induction segments with
  | nil => exact ⟨fun _ _ member => absurd member List.not_mem_nil,
      fun _ _ member => absurd member List.not_mem_nil⟩
  | cons segment rest ih =>
      cases segment with
      | name _ => simpa [Segment.nestings, Segment.nesting] using ih
      | index _ => simp [Segment.nestings, Segment.nesting, ih]

namespace Expr

variable {depth : Nat} {path : Path} {args : List Expr}

theorem fits_path_iff :
    path.isReadable = true ∧ path.nesting ≤ depth + 1 ↔ path.Fits depth := by
  obtain ⟨root, segments⟩ := path
  simp only [Path.isReadable, Path.nesting, Bool.and_eq_true, Segment.areReadable_iff,
    Nat.add_le_add_iff_right, deepest_le_iff, Segment.nestings_lt_iff]
  constructor
  · exact fun ⟨⟨⟨starts, apart⟩, readable⟩, nests⟩ =>
      ⟨starts, apart, fun index among => ⟨Nat.zero_le _, readable index among, nests index among⟩⟩
  · exact fun fits => ⟨⟨⟨fits.starts, fits.apart⟩, fun index among => (fits.indices index among).readable⟩,
      fun index among => (fits.indices index among).nesting⟩

theorem fits_path : (Expr.path path).Fits operandRank (depth + 1) ↔ path.Fits depth := by
  rw [← fits_path_iff]
  exact ⟨fun fits => ⟨fits.readable, fits.nesting⟩, fun fits => ⟨le_refl _, fits.1, fits.2⟩⟩

theorem fits_call : (Expr.call path args).Fits operandRank (depth + 1) ↔
    path.Fits depth ∧ ∀ arg ∈ args, arg.Within 1 depth := by
  rw [← fits_path_iff]
  simp only [fits_iff, within_iff, isReadable, nesting, Bool.and_eq_true, stand_replicate_iff,
    areReadable_iff, nestings_eq_map, max_le_iff, Nat.add_le_add_iff_right, deepest_le_iff,
    List.forall_mem_map]
  have operand : operandRank ≤ (Expr.call path args).rank := le_refl _
  grind

end Expr

end Stencil
