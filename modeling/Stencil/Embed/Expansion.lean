import Stencil.Embed.FileTree
import Stencil.Embed.Name
import Stencil.Text.Quoted
import Stencil.View.Registry

/-! Embedding views in a program: from texts, from files, from directories.

What is embedded is compiled first, and a fault in it stops the expansion.
-/

set_option autoImplicit false

namespace Stencil.Embed

inductive Fault where
  | template (failure : Failure)
  | missingFile (path : String)
  | missingDirectory (path : String)
  | unreadable (path : String)
  /-- There is no function name for a view without a name. -/
  | noFunctionName

def quotedPath (path : String) : String :=
  String.ofList (Text.quoted path.toList)

def Fault.message : Fault → String
  | .template failure => failure.message
  | .missingFile path => "File not found: " ++ quotedPath path
  | .missingDirectory path => "Directory not found: " ++ quotedPath path
  | .unreadable path => "Failed to read " ++ quotedPath path
  | .noFunctionName => "No function name for a view without a name"

/-- A lookup that finds a view for every name, so that a template can be
compiled without the views that it refers to. -/
def unchecked : ViewLookup :=
  ⟨fun name _ => some (.ofSource name "" {}), fun _ => none⟩

/-- Compiles a template alone. -/
def validate (name source : String) : Except Failure Unit := do
  let _ ← (View.ofSource name source {}).compile .standard unchecked
  pure ()

/-- A function that gives a view. -/
structure ViewFunction where
  function : String
  view : String
  deriving DecidableEq, Repr

/-- The function for a view of a name and a source. -/
def viewFunction (name source : String) : Except Fault ViewFunction := do
  (validate name source).mapError .template
  match functionName? name with
  | some function => pure ⟨function, name⟩
  | none => .error .noFunctionName

/-- The function for the view of a file, which has the name of the file without
its extension. -/
def fileFunction (tree : FileTree) (top relative : String) : Except Fault ViewFunction :=
  let path := joined top relative
  match (tree.file? relative).bind File.text?, (components path).getLast? with
  | some source, some last => viewFunction (splitExtension last).1 source
  | _, _ => .error (.missingFile path)

/-- The path of a place below a directory. -/
def pathBelow (directory : String) (place : List String) : String :=
  let inner := "/".intercalate place
  if directory.endsWith "/" then directory ++ inner else directory ++ "/" ++ inner

def isTemplate (file : File) : Bool :=
  file.place.getLast?.any fun name => (splitExtension name).2 == some "html"

/-- A view that is read from a file. -/
structure ViewFile where
  name : String
  source : String
  path : String
  deriving DecidableEq, Repr

/-- The view of a file below a directory. -/
def readView (directory : String) (file : File) : Except Fault ViewFile :=
  let path := pathBelow directory file.place
  match viewName? directory path, file.text? with
  | some name, some source => .ok ⟨name, source, path⟩
  | _, _ => .error (.unreadable path)

/-- The registry of all views of some files. -/
def registryOf (views : List ViewFile) : Registry :=
  views.foldl (fun registry view => registry.register view.name view.source {}) .empty

/-- The first failure of the views that some files register. -/
def checkViews (registry : Registry) : List ViewFile → Except Fault Unit
  | [] => .ok ()
  | view :: rest =>
      match registry.compile .standard view.name with
      | some (.error failure) => .error (.template failure)
      | _ => checkViews registry rest

/-- The views of a directory, in the order of its files. All are registered
before any is compiled, so that they can refer to each other. -/
def directoryViews (tree : FileTree) (top relative : String) : Except Fault (List ViewFile) := do
  let directory := joined top relative
  match tree.directory? relative with
  | none => .error (.missingDirectory directory)
  | some place => do
      let views ← ((tree.below place).filter isTemplate).mapM (readView directory)
      checkViews (registryOf views) views
      pure views

end Stencil.Embed
