import Stencil.Embed.Path

/-! Trees of files. -/

set_option autoImplicit false

namespace Stencil.Embed

/-- A file with its place below the top. -/
structure File where
  place : List String
  content : ByteArray

/-- The files of a tree, and the directories that are there without them. -/
structure FileTree where
  files : List File
  directories : List (List String)

namespace FileTree

def empty : FileTree :=
  ⟨[], []⟩

/-- The tree with a file, in place of the file that stood there. -/
def addFile (tree : FileTree) (place : List String) (content : ByteArray) : FileTree :=
  { tree with files := tree.files.filter (·.place != place) ++ [⟨place, content⟩] }

def addDirectory (tree : FileTree) (place : List String) : FileTree :=
  { tree with directories := tree.directories ++ [place] }

/-- Whether a directory is at a place: the top, or whatever holds something. -/
def isDirectory (tree : FileTree) (place : List String) : Bool :=
  place.isEmpty || tree.directories.any (place.isPrefixOf ·) ||
    tree.files.any fun file => place.isPrefixOf file.place && place != file.place

/-- The place that the segments of a path lead to, from a place on. Every
segment but the first needs a directory before it. -/
def walk (tree : FileTree) (place : List String) : List String → Option (List String)
  | [] => some place
  | segment :: rest =>
      if !tree.isDirectory place then none
      else if segment = "" || segment = "." then walk tree place rest
      else if segment = ".." then (if place.isEmpty then none else walk tree place.dropLast rest)
      else walk tree (place ++ [segment]) rest

/-- The place that a path leads to below the top. An absolute path leads out of the tree. -/
def place? (tree : FileTree) (path : String) : Option (List String) :=
  if isAbsolute path then none else tree.walk [] (segments path)

def fileAt? (tree : FileTree) (place : List String) : Option File :=
  tree.files.find? (·.place == place)

/-- The file that a path leads to. -/
def file? (tree : FileTree) (path : String) : Option File :=
  (tree.place? path).bind tree.fileAt?

/-- The directory that a path leads to. -/
def directory? (tree : FileTree) (path : String) : Option (List String) :=
  (tree.place? path).filter tree.isDirectory

/-- The files below a directory with their places below it, a directory's files
at its place among the other names. -/
def below (tree : FileTree) (directory : List String) : List File :=
  let inside := tree.files.filterMap fun file =>
    match Text.strip? directory file.place with
    | some (name :: rest) => some ⟨name :: rest, file.content⟩
    | _ => none
  inside.mergeSort fun first second => (compare first.place second.place).isLE

end FileTree

/-- The text of a file, if it is UTF-8. -/
def File.text? (file : File) : Option String :=
  String.fromUTF8? file.content

end Stencil.Embed
