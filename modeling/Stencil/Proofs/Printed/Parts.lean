import Stencil.Proofs.Printed.RoundTrip

/-! The shape of every part of a tree.

Each node of a tree that is read from a source has the number and kind of arguments that
its operator takes, however deep it stands in arguments and indices.
-/

set_option autoImplicit false

namespace Stencil

open Grammar

def Segment.index? : Segment → Option Expr
  | .name _ => none
  | .index expr => some expr

def Path.indices (path : Path) : List Expr :=
  path.segments.filterMap Segment.index?

/-- What an expression is built of: its arguments, and the indices of its path. -/
def Expr.children : Expr → List Expr
  | .empty | .literal _ => []
  | .path names => names.indices
  | .call names args => names.indices ++ args
  | .operator _ args | .sequence args => args

/-- An expression, and whatever it is built of at any depth. -/
inductive Expr.Part (tree : Expr) : Expr → Prop where
  | whole : Part tree tree
  | child {part child : Expr} : Part tree part → child ∈ part.children → Part tree child

/-- What an operator is applied to. An object takes keys in turn with values, and neither an
object nor an array has literals alone. -/
structure Operator.Shaped (name : String) (args : List Expr) : Prop where
  conditional : name = Operator.conditional → args.length = 3
  object : name = Operator.object → ∃ members, args = alternating members ∧
    ∃ member ∈ members, member.2.isLiteral = false
  array : name = Operator.array → ∃ item ∈ args, item.isLiteral = false
  symbol : name ∉ [Operator.conditional, Operator.object, Operator.array] →
    (∃ punct ∈ Punct.unary, ∃ arg, name = punct.text ∧ args = [arg] ∧
      ¬ (punct = .minus ∧ IsNumber arg)) ∨
    ∃ punct ∈ Punct.levels.flatten, ∃ left right, name = punct.text ∧ args = [left, right]

/-- A path into the data at hand begins with a name. -/
def Path.Shaped (path : Path) : Prop :=
  path.root = .context → ∃ name rest, path.segments = .name name :: rest

/-- The shape of one node of a tree. -/
def Expr.Shaped : Expr → Prop
  | .empty => False
  | .literal _ => True
  | .path names | .call names _ => names.Shaped
  | .operator name args => Operator.Shaped name args
  | .sequence args => 2 ≤ args.length

theorem Path.mem_indices_iff {path : Path} {index : Expr} :
    index ∈ path.indices ↔ .index index ∈ path.segments := by
  rw [Path.indices, List.mem_filterMap]
  constructor
  · rintro ⟨segment, among, same⟩
    cases segment with
    | name => cases same
    | index other => exact Option.some.inj same ▸ among
  · exact fun among => ⟨_, among, rfl⟩

theorem Path.Named.shaped {path : Path} (named : path.Named) : path.Shaped := by
  intro context
  have root := named.root
  rw [context] at root
  obtain ⟨name, rest, same, -⟩ := root
  exact ⟨name, rest, same⟩

/-- An operator that is named by a symbol takes what the symbol does. -/
theorem Operator.shaped_symbol {punct : Punct} {args : List Expr}
    (takes : (∃ sign ∈ Punct.unary, ∃ arg, punct.text = sign.text ∧ args = [arg] ∧
        ¬ (sign = .minus ∧ IsNumber arg)) ∨
      ∃ sign ∈ Punct.levels.flatten, ∃ left right, punct.text = sign.text ∧ args = [left, right]) :
    Shaped punct.text args := by
  have other : punct.text ≠ Operator.conditional := by cases punct <;> decide
  obtain ⟨noObject, noArray⟩ := Expr.text_ne_bracket punct
  exact ⟨fun same => absurd same other, fun same => absurd same noObject,
    fun same => absurd same noArray, fun _ => takes⟩

namespace Expr

variable {source : String} {tree part child : Expr}

theorem Formed.shaped (formed : tree.Formed) : tree.Shaped := by
  cases formed with
  | literal => trivial
  | path named => exact named.shaped
  | call named => exact named.shaped
  | array other =>
      exact ⟨fun same => absurd same (by decide), fun same => absurd same (by decide), fun _ => other,
        fun none => absurd none (by decide)⟩
  | object other =>
      exact ⟨fun same => absurd same (by decide), fun _ => ⟨_, rfl, other⟩,
        fun same => absurd same (by decide), fun none => absurd none (by decide)⟩
  | @unary punct arg sign other =>
      exact Operator.shaped_symbol (.inl ⟨punct, sign, arg, rfl, rfl, other⟩)
  | @binary level operators punct left right here member =>
      have among : punct ∈ Punct.levels.flatten :=
        List.mem_flatten.2 ⟨operators, List.mem_of_getElem? here, member⟩
      exact Operator.shaped_symbol (.inr ⟨punct, among, left, right, rfl, rfl⟩)
  | conditional =>
      exact ⟨fun _ => rfl, fun same => absurd same (by decide), fun same => absurd same (by decide),
        fun none => absurd none (by decide)⟩
  | sequence => exact Nat.le_add_left 2 _

/-- What a well formed tree is built of is well formed, -/
theorem Formed.of_child (formed : tree.Formed) (among : child ∈ tree.children) : child.Formed := by
  cases formed with
  | literal => cases among
  | path _ indices => exact indices child (Path.mem_indices_iff.1 among)
  | call _ indices args =>
      rcases List.mem_append.1 among with index | arg
      · exact indices child (Path.mem_indices_iff.1 index)
      · exact args child arg
  | array _ items => exact items child among
  | object _ members =>
      obtain ⟨member, isMember, isArg⟩ := List.mem_flatMap.1 among
      rcases List.mem_pair.1 isArg with rfl | rfl
      · exact .literal (.string member.1)
      · exact members member isMember
  | unary _ _ arg => exact List.mem_singleton.1 among ▸ arg
  | binary _ _ left right => rcases List.mem_pair.1 among with rfl | rfl <;> assumption
  | conditional test consequent alternate =>
      simp only [children, List.mem_cons, List.not_mem_nil, or_false] at among
      rcases among with rfl | rfl | rfl <;> assumption
  | sequence first second rest =>
      simp only [children, List.mem_cons] at among
      rcases among with rfl | rfl | later
      · exact first
      · exact second
      · exact rest child later

/-- and so at any depth. -/
theorem Formed.of_part (formed : tree.Formed) (within : tree.Part part) : part.Formed := by
  induction within with
  | whole => exact formed
  | child _ among ih => exact ih.of_child among

/-- Every part of a tree that is read from a source has its shape. -/
theorem shaped_of_part (parsed : parse source = .ok tree) : ∀ part, tree.Part part → part.Shaped :=
  fun _ within => ((formed_of_parse parsed).of_part within).shaped

set_option maxRecDepth 20000 in
theorem shaped_index :
    let index : Expr := .sequence [.operator "-" [.ofName "b"], .literal (.int (-1))]
    let path : Path := ⟨.context, [.name "a", .index index]⟩
    let tree : Expr := .operator Operator.object [.literal (.string "x"), .path path]
    parse "\x7bx: a[-b, -1]\x7d" = .ok tree ∧ tree.Part index ∧
      (∀ part, tree.Part part → part.Shaped) := by
  intro index path tree
  have parsed : parse "\x7bx: a[-b, -1]\x7d" = .ok tree := by cbv
  have isPath : tree.Part (.path path) := .child .whole (.tail _ (.head _))
  exact ⟨parsed, .child isPath (.head _), shaped_of_part parsed⟩

end Expr

end Stencil
