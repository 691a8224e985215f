import Stencil.Dict
import Stencil.Expression.Keyword

/-! Kinds of blocks, and the keywords that open them. -/

set_option autoImplicit false

namespace Stencil

inductive BlockKind where
  /-- Branches with a test each. -/
  | conditional
  /-- A loop, which may have an else part. -/
  | each
  /-- One content. -/
  | generic
  deriving DecidableEq, Repr

/-- The kind of block that each keyword opens. -/
abbrev BlockMap := Dict BlockKind

namespace BlockMap

def builtins : BlockMap :=
  .ofEntries [("if", .conditional), ("unless", .conditional), ("each", .each), ("with", .generic)]

/-- A keyword that is not in the map opens a generic block. -/
def kind (blocks : BlockMap) (keyword : Keyword) : BlockKind :=
  (blocks.find? keyword.text).getD .generic

/-- The words that open or continue a block when a path follows them. -/
def openers (blocks : BlockMap) : List String :=
  blocks.keys ++ ["else if"]

end BlockMap

end Stencil
