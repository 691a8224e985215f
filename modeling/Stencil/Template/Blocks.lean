import Stencil.Block
import Stencil.Template.Scope

/-! Opening, continuing and closing blocks. -/

set_option autoImplicit false

namespace Stencil.Scope

/-- A block of a kind, with its content still to come. -/
def blockNode (opener : Expression) : BlockKind → Node
  | .conditional => .conditional (.single opener)
  | .each => .each opener [] none
  | .generic => .block opener []

def openBlock (scope : Scope) (kind : BlockKind) (opener : Expression) : Scope :=
  (scope.append (blockNode opener kind)).enter

/-- Ends one part of a block and starts the next: any number of branches of a
conditional, one else part of a loop. -/
def continueBlock (scope : Scope) (keyword : Keyword) (expression : Expression) :
    Except Failure Scope :=
  match scope.leave? with
  | some (content, ⟨.conditional branches :: before, outer⟩) =>
      .ok (Scope.enter ⟨.conditional ((branches.fill content).add expression) :: before, outer⟩)
  | some (content, ⟨.each opener _ none :: before, outer⟩) =>
      if keyword = .orElse then .ok (Scope.enter ⟨.each opener content (some []) :: before, outer⟩)
      else .error (.of (.strayElse expression.marks.source))
  | _ => .error (.of (.strayElse expression.marks.source))

/-- Ends a block. An ending that names a keyword ends the block that this
keyword opened, and no other. -/
def closeBlock (scope : Scope) (keyword : Keyword) (expression : Expression) : Except Failure Scope :=
  let mismatch : Except Failure Scope := .error (.of (.closedBlock expression.marks.source))
  match scope.leave? with
  | some (content, ⟨node :: before, outer⟩) =>
      match node.opener?.bind (·.marks.keyword) with
      | some opened =>
          if keyword = .close || keyword = opened then .ok ⟨node.fill content :: before, outer⟩
          else mismatch
      | none => mismatch
  | _ => mismatch

/-- What an expression with a keyword does to the blocks that are open. -/
def addBlock (scope : Scope) (blocks : BlockMap) (keyword : Keyword) (expression : Expression) :
    Except Failure Scope :=
  if expression.marks.isEnd then scope.closeBlock keyword expression
  else if keyword.continues then scope.continueBlock keyword expression
  else .ok (scope.openBlock (blocks.kind keyword) expression)

end Stencil.Scope
