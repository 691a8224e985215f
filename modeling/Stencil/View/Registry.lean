import Stencil.Template.Compile

/-! Registered views, and their lookup through namespaces. -/

set_option autoImplicit false

namespace Stencil

/-- The template of a view, compiled in the namespace of the view. -/
def View.compile (compiler : Compiler) (lookup : ViewLookup) (view : View) :
    Except Failure Template :=
  let context : ViewContext := ⟨lookup, view.home?⟩
  let compiled :=
    if view.isString then compiler.compileString context view.source
    else compiler.compileMarkup context view.source
  compiled.mapError (·.within (.template view.name view.source))

/-- Views by their full names, and by the tags of their elements in lower case. -/
structure Registry where
  names : Dict View
  elements : Dict View

namespace Registry

def empty : Registry :=
  ⟨.empty, .empty⟩

/-- The registry with a view, in place of the view that has its name. The tag
of an earlier view of that name stays bound to the earlier view. -/
def add (registry : Registry) (view : View) : Registry :=
  ⟨registry.names.insert view.name view,
    match view.element with
    | some tag => registry.elements.insert (String.ofList (tag.toList.map Char.toLower)) view
    | none => registry.elements⟩

def register (registry : Registry) (name source : String) (options : ViewOptions) : Registry :=
  registry.add (.ofSource name source options)

theorem length_of_enclosing? {name outer : String} (found : enclosing? name = some outer) :
    outer.toList.length < name.toList.length := by
  unfold enclosing? at found
  split at found
  · exact absurd found (by simp)
  · rename_i c before dropped
    obtain rfl := Option.some.inj found
    have := Text.length_dropWhile_le (· != ':') name.toList.reverse
    simp only [dropped, List.length_cons, List.length_reverse] at this
    simp only [String.toList_ofList, List.length_reverse]
    omega

/-- The full names that a name may stand for within a namespace, from the
innermost namespace to none. -/
def candidates (name : String) (home : String) : List String :=
  (home ++ ":" ++ name) ::
    match found : enclosing? home with
    | some outer =>
        have := length_of_enclosing? found
        candidates name outer
    | none => [name]
termination_by home.toList.length

/-- An empty namespace is none. -/
def candidatesFrom (name : String) : Option String → List String
  | none => [name]
  | some home => if home.isEmpty then [name] else candidates name home

/-- The view of the first candidate that is registered. -/
def find? (registry : Registry) (name : String) (home : Option String) : Option View :=
  (candidatesFrom name home).findSome? registry.names.find?

def lookup (registry : Registry) : ViewLookup :=
  ⟨registry.find?, registry.elements.find?⟩

/-- The template of a registered view, if there is one of that name. -/
def compile (registry : Registry) (compiler : Compiler) (name : String) :
    Option (Except Failure Template) :=
  (registry.names.find? name).map (View.compile compiler registry.lookup)

end Registry

end Stencil
