/-!
# Files

What can stand at a path, why a file cannot be read or written, and a small tree of
files kept in memory. Paths are relative to the tree's root; a path that begins with
the root's own name is taken relative to it.
-/

namespace Lehce

/-- What stands at a path. A path is blocked when it goes through something that is no directory. -/
inductive Entry where
  | file (content : List UInt8)
  | directory
  | missing
  | blocked
  deriving Repr, DecidableEq

/-- Why a file cannot be read or written. -/
inductive FileProblem where
  | missing (path : String)
  | blocked (path : String)
  | readsDirectory (path : String)
  | writesDirectory (path : String)
  deriving Repr, DecidableEq

/-- The text of a problem. -/
def FileProblem.message : FileProblem → String
  | missing path => "open " ++ path ++ ": no such file or directory"
  | blocked path => "open " ++ path ++ ": not a directory"
  | readsDirectory path => "read " ++ path ++ ": is a directory"
  | writesDirectory path => "open " ++ path ++ ": is a directory"

/-- The content of the file at a path. -/
def Entry.read (entry : Entry) (path : String) : Except FileProblem (List UInt8) :=
  match entry with
  | file content => .ok content
  | directory => .error (.readsDirectory path)
  | missing => .error (.missing path)
  | blocked => .error (.blocked path)

/-- Whether anything stands there. -/
def Entry.exists : Entry → Bool
  | file _ | directory => true
  | missing | blocked => false

/-- The directory that a path lies in. -/
def parentPath (path : String) : String :=
  match (path.splitOn "/").dropLast with
  | [] => "."
  | [""] => "/"
  | parts => "/".intercalate parts

/-- Why the file at a path cannot be written. -/
def writeProblem? (entry : String → Entry) (path : String) : Option FileProblem :=
  match entry path with
  | .file _ => none
  | .directory => some (.writesDirectory path)
  | .blocked => some (.blocked path)
  | .missing =>
    match entry (parentPath path) with
    | .directory => none
    | .file _ | .blocked => some (.blocked path)
    | .missing => some (.missing path)

/-- A tree of files in memory, with directories that exist even when they are empty. -/
structure FileTree where
  root : String
  files : List (List String × List UInt8) := []
  directories : List (List String) := []

namespace FileTree

/-- The parts of a path without those that change nothing; nothing lies above the root. -/
def cleanParts (parts : List String) : List String :=
  (parts.foldl (fun clean part =>
    if part = "" ∨ part = "." then clean
    else if part = ".." then clean.drop 1
    else part :: clean) []).reverse

/-- The parts of a path inside the tree; a path that starts elsewhere has none. -/
def parts? (tree : FileTree) (path : String) : Option (List String) :=
  let parts := path.splitOn "/"
  let root := tree.root.splitOn "/"
  if parts.take root.length = root then some (cleanParts (parts.drop root.length))
  else if path.startsWith "/" then none
  else some (cleanParts parts)

/-- What stands at a path of the tree. -/
def entry (tree : FileTree) (path : String) : Entry :=
  match tree.parts? path with
  | none => .missing
  | some parts =>
    match tree.files.lookup parts with
    | some content => .file content
    | none =>
      let inside (other : List String) : Bool := other.take parts.length == parts
      if parts.isEmpty || tree.files.any (fun (other, _) => inside other) ||
          tree.directories.any inside then .directory
      else if tree.files.any fun (other, _) => parts.take other.length == other then .blocked
      else .missing

/-- The tree with a file written. -/
def write (tree : FileTree) (path : String) (content : List UInt8) : FileTree :=
  match tree.parts? path with
  | none => tree
  | some parts =>
    { tree with files := tree.files.filter (·.1 != parts) ++ [(parts, content)] }

/-- The path of some parts. -/
def pathOf (parts : List String) : String := "/".intercalate parts

end FileTree

end Lehce
