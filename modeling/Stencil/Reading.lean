/-! Items read from a text up to its end or to a first fault. -/

set_option autoImplicit false

namespace Stencil

/-- The items before the fault, if there is one, are in order and complete. -/
structure Reading (α ε : Type) where
  items : List α
  fault : Option ε
  deriving Repr

namespace Reading

variable {α ε : Type}

def nil : Reading α ε :=
  ⟨[], none⟩

def failed (fault : ε) : Reading α ε :=
  ⟨[], some fault⟩

def cons (item : α) (reading : Reading α ε) : Reading α ε :=
  { reading with items := item :: reading.items }

end Reading

end Stencil
