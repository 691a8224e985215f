import Stencil.Expr.Text
import Stencil.Proofs.Grammar.Rules
import Stencil.Proofs.Token.Word

/-! Which trees read back from their printed forms.

The printed form sets no brackets, so an argument has to stand in a place where no
brackets are needed: its rank is at least that of the place. And names are printed as
they are, so each has to read as one word. Printed forms also nest, and a shorthand
member nests deeper than it was written.
-/

set_option autoImplicit false

namespace Stencil

/-- The rank of operands, which stand anywhere. -/
def operandRank : Nat := 8

namespace Operator

/-- The level of a binary operator; the loosest has level 0. -/
def level? (name : String) : Option Nat :=
  Punct.levels.findIdx? fun operators => operators.any (·.text == name)

/-- Conditionals stand below binary operators, and these by level. -/
def rank (name : String) (arity : Nat) : Nat :=
  if name = conditional then 1
  else match arity with
    | 2 => ((level? name).map (· + 2)).getD operandRank
    | _ => operandRank

/-- The least ranks of arguments. Binary operators group to the left. -/
def places (name : String) (arity : Nat) : List Nat :=
  if name = object || name = array then List.replicate arity 1
  else match arity with
    | 3 => [2, 1, 1]
    | 2 => [rank name 2, rank name 2 + 1]
    | arity => List.replicate arity operandRank

end Operator

namespace Expr

/-- How tightly an expression holds together. -/
def rank : Expr → Nat
  | .sequence _ => 0
  | .operator name args => Operator.rank name args.length
  | _ => operandRank

/-- Every argument has the rank that its place takes at least. -/
def stand (places : List Nat) (args : List Expr) : Bool :=
  (places.zip args).all fun (place, arg) => decide (place ≤ arg.rank)

/-- Keys print without quotes. -/
def keysAreWords : List Expr → Bool
  | .literal (.string key) :: _ :: rest => Token.isWord key.toList && keysAreWords rest
  | [] => true
  | _ => false

end Expr

/-- A name that starts a path is taken neither for a literal nor for the scope. -/
def Root.starts : Root → List Segment → Bool
  | .context, .name name :: _ => (Grammar.constant? name).isNone && name != "this"
  | .context, _ => false
  | _, _ => true

/-- Two numbers with a point between them are one number. -/
def joins (first second : String) : Bool :=
  first.toList.all Char.isDigit && second.toList.head?.any Char.isDigit

/-- Neighbouring names stay apart. -/
def Segment.apart : List Segment → Bool
  | .name first :: .name second :: rest => !joins first second && Segment.apart (.name second :: rest)
  | _ :: rest => Segment.apart rest
  | [] => true

theorem Segment.apart_tail {segment : Segment} {rest : List Segment}
    (apart : Segment.apart (segment :: rest) = true) : Segment.apart rest = true := by
  cases segment with
  | index _ => exact apart
  | name first =>
      cases rest with
      | nil => rfl
      | cons second rest =>
          cases second with
          | index _ => exact apart
          | name _ => exact (Bool.and_eq_true_iff.1 apart).2

mutual
/-- Every argument stands in its place, and every name is a word of its own. -/
def Expr.isReadable : Expr → Bool
  | .empty => false
  | .literal _ => true
  | .path path => path.isReadable
  | .call path args =>
      path.isReadable && Expr.stand (List.replicate args.length 1) args && Expr.areReadable args
  | .operator name args =>
      Expr.stand (Operator.places name args.length) args &&
        (name != Operator.object || Expr.keysAreWords args) && Expr.areReadable args
  | .sequence args => Expr.stand (List.replicate args.length 1) args && Expr.areReadable args

def Expr.areReadable : List Expr → Bool
  | [] => true
  | arg :: rest => arg.isReadable && Expr.areReadable rest

def Path.isReadable : Path → Bool
  | ⟨root, segments⟩ => root.starts segments && Segment.apart segments && Segment.areReadable segments

def Segment.areReadable : List Segment → Bool
  | [] => true
  | segment :: rest => segment.isReadable && Segment.areReadable rest

def Segment.isReadable : Segment → Bool
  | .name _ => true
  | .index index => index.isReadable
end

/-- What contents of the given depths take when they stand in brackets. -/
def deepest (depths : List Nat) : Nat :=
  (depths.map (· + 1)).foldr max 0

theorem deepest_le_iff {depths : List Nat} {limit : Nat} :
    deepest depths ≤ limit ↔ ∀ depth ∈ depths, depth < limit := by
  induction depths with
  | nil => simp [deepest]
  | cons depth depths ih =>
      change max (depth + 1) (deepest depths) ≤ limit ↔ _
      rw [List.forall_mem_cons, ← ih]
      omega

mutual
/-- The depth to which the text of a value nests. -/
def Value.nesting : Value → Nat
  | .int n => if n < 0 then 2 else 1
  | .float x => if x.negative then 2 else 1
  | .array items => deepest (Value.nestings items) + 1
  | .object members => deepest (Value.memberNestings members.entries) + 1
  | _ => 1

def Value.nestings : List Value → List Nat
  | [] => []
  | item :: rest => item.nesting :: Value.nestings rest

def Value.memberNestings : List (String × Value) → List Nat
  | [] => []
  | (_, value) :: rest => value.nesting :: Value.memberNestings rest
end

/-- The depth of an operator, from the depths of its arguments. -/
def Operator.nesting (name : String) (depths : List Nat) : Nat :=
  if name = object || name = array then deepest depths + 1
  else match depths with
    | [test, consequent, alternate] => max test (deepest [consequent, alternate])
    | [left, right] => max left right
    | depths => deepest depths

mutual
/-- The depth to which the printed form nests. -/
def Expr.nesting : Expr → Nat
  | .empty => 0
  | .literal value => value.nesting
  | .path path => path.nesting
  | .call path args => max path.nesting (deepest (Expr.nestings args) + 1)
  | .operator name args => Operator.nesting name (Expr.nestings args)
  | .sequence args => (Expr.nestings args).foldr max 0

def Expr.nestings : List Expr → List Nat
  | [] => []
  | arg :: rest => arg.nesting :: Expr.nestings rest

def Path.nesting : Path → Nat
  | ⟨_, segments⟩ => deepest (Segment.nestings segments) + 1

def Segment.nestings : List Segment → List Nat
  | [] => []
  | segment :: rest => segment.nesting ++ Segment.nestings rest

/-- The depth of an index. -/
def Segment.nesting : Segment → List Nat
  | .name _ => []
  | .index index => [index.nesting]
end

end Stencil
