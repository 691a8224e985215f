import Mathlib.Data.List.Forall2
import Stencil.Proofs.Derivation.Acceptance
import Stencil.Proofs.Events

/-! A template in document order.

Walking a template puts out what its source was read as, piece by piece. How an
ending is spelled is not in the template, and neither is the else of a loop.
-/

set_option autoImplicit false

namespace Stencil

/-- What a walk comes by. An ending is known by the opener of its block. -/
inductive Visit where
  | start (name : String) (attributes : Dict Attribute)
  | finish (name : String)
  | text (data : String)
  | expression (expression : Expression)
  | comment (data : String)
  | otherwise
  | ending (opener : Expression)

namespace Node

mutual
/-- A node in document order. Views are not walked. -/
def walk : Node → List Visit
  | .element ⟨name, attributes, content, isVoid⟩ =>
      .start name attributes :: if isVoid then [] else walkAll content ++ [.finish name]
  | .text data => [.text data]
  | .dynamic expression => [.expression expression]
  | .comment data => [.comment data]
  | .conditional ⟨guards, contents⟩ =>
      walkBranches guards contents ++ (guards.head?.map .ending).toList
  | .each opener content otherwise =>
      .expression opener :: (walkAll content ++ (walkOtherwise otherwise ++ [.ending opener]))
  | .block opener content => .expression opener :: (walkAll content ++ [.ending opener])
  | .view _ _ | .dynamicView _ _ => []

def walkAll : List Node → List Visit
  | [] => []
  | node :: rest => walk node ++ walkAll rest

def walkBranches : List Expression → List (List Node) → List Visit
  | guard :: guards, content :: contents =>
      .expression guard :: (walkAll content ++ walkBranches guards contents)
  | _, _ => []

def walkOtherwise : Option (List Node) → List Visit
  | none => []
  | some content => .otherwise :: walkAll content
end

end Node

/-- The piece that is visited. -/
inductive Recalls : Visit → Piece → Prop where
  | start {name : String} {attributes : Dict Attribute} :
      Recalls (.start name attributes) (.start name attributes)
  | finish {tag name : String} : Recalls (.finish name) (.finish tag name)
  | text {data : String} : Recalls (.text data) (.text data)
  | expression {expression : Expression} : Recalls (.expression expression) (.expression expression)
  | comment {data : String} : Recalls (.comment data) (.comment data)
  | otherwise {expression : Expression} : expression.IsElse → Recalls .otherwise (.expression expression)
  | ending {opener expression : Expression} : opener.Closes expression →
      Recalls (.ending opener) (.expression expression)

section

variable {blocks : BlockMap}

open List (Forall₂ rel_append)
open Node (walkAll walkBranches walkOtherwise)

/-- A block is walked as it was read, with all of its parts after the first in one. -/
theorem Recalls.block {opener ending : Expression} (closes : opener.Closes ending)
    {first others later : List Visit} {inside more rest : List Piece}
    (body : Forall₂ Recalls first inside) (parts : Forall₂ Recalls others more)
    (after : Forall₂ Recalls later rest) :
    Forall₂ Recalls (.expression opener :: (first ++ (others ++ .ending opener :: later)))
      (.expression opener :: (inside ++ (more ++ .expression ending :: rest))) :=
  .cons .expression (rel_append body (rel_append parts (.cons (.ending closes) after)))

-- Every rule of the grammar writes its node out in the order of the walk.
mutual
theorem Derives.recalls {pieces : List Piece} {nodes : List Node} :
    Derives blocks pieces nodes → Forall₂ Recalls (walkAll nodes) pieces
  | .nil => .nil
  | .text rest => .cons .text rest.recalls
  | .comment rest => .cons .comment rest.recalls
  | .value _ rest => .cons .expression rest.recalls
  | .void _ rest => .cons .start rest.recalls
  | .element _ inside rest => by
      simp only [walkAll, Node.walk, Bool.false_eq_true, if_false, List.cons_append, List.append_assoc]
      exact .cons .start (rel_append inside.recalls (.cons .finish rest.recalls))
  | .conditional _ closes inside more rest => by
      simp only [walkAll, Branches.ofList, Node.walk, List.map_cons, walkBranches, List.head?_cons,
        Option.map_some, Option.toList_some, List.cons_append, List.append_assoc]
      exact Recalls.block closes inside.recalls more.recalls rest.recalls
  | .each _ closes inside more rest => by
      simp only [walkAll, Node.walk, List.cons_append, List.append_assoc]
      exact Recalls.block closes inside.recalls more.recalls rest.recalls
  | .block _ closes inside rest => by
      simp only [walkAll, Node.walk, List.cons_append, List.append_assoc]
      exact Recalls.block closes inside.recalls .nil rest.recalls

theorem DerivesBranches.recalls {pieces : List Piece} {branches : List Branch} :
    DerivesBranches blocks pieces branches →
      Forall₂ Recalls (walkBranches (branches.map (·.guard)) (branches.map (·.content))) pieces
  | .nil => .nil
  | .cons _ inside more => .cons .expression (rel_append inside.recalls more.recalls)

theorem DerivesElse.recalls {pieces : List Piece} {otherwise : Option (List Node)} :
    DerivesElse blocks pieces otherwise → Forall₂ Recalls (walkOtherwise otherwise) pieces
  | .none => .nil
  | .some isElse inside => .cons (.otherwise isElse) inside.recalls
end

end

end Stencil
