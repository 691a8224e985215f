import Stencil.Failure
import Stencil.Template.Node

/-! The open scopes of a template that is being built.

The nodes of every scope are kept newest first. An element or block stands as
the newest node of the scope around it, with its content empty, until the scope
that collects its content closes.
-/

set_option autoImplicit false

namespace Stencil

structure Scope where
  current : List Node
  /-- The scopes around the current one, from the inside out. -/
  outer : List (List Node)

namespace Scope

def root : Scope :=
  ⟨[], []⟩

/-- The number of scopes that are open above the root. -/
def depth (scope : Scope) : Nat :=
  scope.outer.length

def append (scope : Scope) (node : Node) : Scope :=
  { scope with current := node :: scope.current }

/-- A scope for the content of the newest node. -/
def enter (scope : Scope) : Scope :=
  ⟨[], scope.current :: scope.outer⟩

/-- The content of the current scope in document order, and the scope around
it; the root has none. -/
def leave? (scope : Scope) : Option (List Node × Scope) :=
  match scope.outer with
  | [] => none
  | around :: outer => some (scope.current.reverse, ⟨around, outer⟩)

/-- The content of the root, when no scope is open any more. -/
def finish (scope : Scope) : Except Failure Template :=
  if scope.outer.isEmpty then .ok scope.current.reverse
  else .error (.of (.openScopes scope.depth))

@[simp] theorem leave?_enter (scope : Scope) : scope.enter.leave? = some ([], scope) := rfl

end Scope

end Stencil
