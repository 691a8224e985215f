import Stencil.Text.Search

/-! Paths of files, and the names of views from them. -/

set_option autoImplicit false

namespace Stencil.Embed

/-- The texts between the slashes of a path. -/
def segments (path : String) : List String :=
  (path.toList.splitOn '/').map String.ofList

/-- Whether a path starts at the root. -/
def isAbsolute (path : String) : Bool :=
  path.toList.head? == some '/'

/-- The path of an argument below a top. An absolute one stands for itself. -/
def joined (top argument : String) : String :=
  if isAbsolute argument then argument else top ++ "/" ++ argument

/-- The components of a path: the root as a slash, then the segments that are
not empty. A dot counts at the start of a relative path and nowhere else. -/
def components (path : String) : List String :=
  match segments path with
  | [] => []
  | first :: rest =>
      let inner := rest.filter fun segment => segment != "" && segment != "."
      if first = "" then (if path.isEmpty then inner else "/" :: inner) else first :: inner

/-- A file name split at its last dot, unless that is its first character. -/
def splitExtension (name : String) : String × Option String :=
  if name = ".." then (name, none)
  else
    let backward := name.toList.reverse
    match backward.dropWhile (· != '.') with
    | [] => (name, none)
    | [_] => (name, none)
    | _ :: before =>
        (String.ofList before.reverse, some (String.ofList (backward.takeWhile (· != '.')).reverse))

/-- The last component of a path without its extension. What is left of a name
whose only other character is a dot reads as the parent directory. -/
def withoutExtension (component : String) : String :=
  if component ∈ ["/", ".", ".."] then component
  else
    let stem := (splitExtension component).1
    if stem = "." then ".." else stem

/-- The view name of components below a root: without the extension of the last
one, joined by colons. -/
def joinName : List String → String
  | [] => ""
  | [last] => withoutExtension last
  | component :: rest => component ++ ":" ++ joinName rest

/-- The view name of a file below a root, if it is below the root. -/
def viewName? (root path : String) : Option String :=
  (Text.strip? (components root) (components path)).map joinName

end Stencil.Embed
