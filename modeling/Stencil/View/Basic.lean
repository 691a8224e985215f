import Stencil.Text.Blank

/-! Views: templates that have names. -/

set_option autoImplicit false

namespace Stencil

/-- What a view declares besides its name and source. The names of child
elements stand in one text, with blanks between them. -/
structure ViewOptions where
  attributes : Option String := none
  arrays : Option String := none
  element : Option String := none
  isString : Bool := false
  deriving Repr

structure View where
  name : String
  source : String
  /-- Whether the source has no markup. -/
  isString : Bool
  /-- The child elements that are passed as attributes. -/
  attributes : List String
  /-- The child elements that are collected into arrays. -/
  arrays : List String
  element : Option String
  deriving DecidableEq, Repr

/-- The part of a name before its last colon. -/
def enclosing? (name : String) : Option String :=
  match name.toList.reverse.dropWhile (· != ':') with
  | [] => none
  | _ :: before => some (String.ofList before.reverse)

namespace View

/-- The words of a text, each one once. -/
def names (list : Option String) : List String :=
  ((Text.words (list.getD "").toList).map String.ofList).eraseDups

def ofSource (name source : String) (options : ViewOptions) : View :=
  ⟨name, source, options.isString, names options.attributes, names options.arrays, options.element⟩

/-- The namespace in which the references of a view are looked up first. -/
def home? (view : View) : Option String :=
  enclosing? view.name

end View

/-- How the names and elements of views resolve while a template compiles. -/
structure ViewLookup where
  /-- The view of a name as seen from a namespace. -/
  find? : String → Option String → Option View
  /-- The view of a custom element. -/
  element? : String → Option View

namespace ViewLookup

/-- No views at all. -/
def detached : ViewLookup :=
  ⟨fun _ _ => none, fun _ => none⟩

end ViewLookup

end Stencil
