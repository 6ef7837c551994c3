/-!
# Files

What reading a file by its path comes to. Paths are texts with slashes between their components;
lengths of paths and names are in bytes. Joining paths looks nothing up: dots stay as they are. In
a tree of files a path is followed component by component, as a file system does: every component
but the last must be a directory that exists.
-/

namespace Dynval

/-- Why a file cannot be read. -/
inductive ReadFailure where
  | missing
  | directory
  /-- A file stands where a directory is needed. -/
  | notDirectory
  /-- A path or a name in it is too long. -/
  | tooLong
  /-- A path holds the character with code zero. -/
  | nulInPath
  | other (reason : String)
deriving DecidableEq, Inhabited

def ReadFailure.message : ReadFailure → String
  | missing => "No such file or directory (os error 2)"
  | directory => "Is a directory (os error 21)"
  | notDirectory => "Not a directory (os error 20)"
  | tooLong => "File name too long (os error 36)"
  | nulInPath => "file name contained an unexpected NUL byte"
  | other reason => reason

/-- The files that can be read, by their paths. -/
abbrev Files := String → Except ReadFailure String

/-- The first length of a path that is refused. -/
def pathLimit : Nat := 4096

/-- The greatest length of a name in a path. -/
def nameLimit : Nat := 255

/-- Why a path leads to no file, whatever files there are. -/
def pathFailure? (path : String) : Option ReadFailure :=
  if path.toList.contains '\x00' then some .nulInPath
  else if path.isEmpty then some .missing
  else if pathLimit ≤ path.utf8ByteSize then some .tooLong
  else none

/-! ### Paths -/

namespace Path

def isAbsolute (path : String) : Bool :=
  path.toList.head? = some '/'

/-- Components without the empty ones and single dots behind them. -/
def dropTrailing (components : List String) : List String :=
  (components.reverse.dropWhile fun c => c == "" || c == ".").reverse

/-- What stands before the components of a path: a slash, a single dot, or nothing. -/
def start (path : String) : String :=
  match path.toList with
  | '/' :: _ => "/"
  | ['.'] => "."
  | '.' :: '/' :: _ => "."
  | _ => ""

/-- The path without its last component. The root and the empty path have no parent. -/
def parent? (path : String) : Option String :=
  let first := start path
  let body := String.ofList (path.toList.drop first.length)
  match dropTrailing (body.splitOn "/") with
  | [] => if first = "." then some "" else none
  | components =>
    some (first ++ String.intercalate "/" (dropTrailing components.dropLast))

/-- A path seen from a directory. -/
def join (directory path : String) : String :=
  if isAbsolute path then path
  else if directory.isEmpty || directory.toList.getLast? = some '/' then directory ++ path
  else directory ++ "/" ++ path

end Path

/-! ### Trees -/

/-- The directories and files below a working directory, each by the names that lead to it. -/
structure FileTree where
  directories : List (List String) := []
  files : List (List String × String) := []
deriving Inhabited

namespace FileTree

/-- Whether a component of a path leads nowhere else. -/
def isIdle (name : String) : Bool :=
  name == "" || name == "."

/-- Make a directory inside the one of the given names, unless the component leads up. -/
def makeDirectory (spot : FileTree × List String) (name : String) : FileTree × List String :=
  let (tree, names) := spot
  if name = ".." then (tree, names.dropLast)
  else
    let inner := names ++ [name]
    ({ tree with directories := inner :: tree.directories }, inner)

/-- Add a file, and the directories on its path. -/
def add (tree : FileTree) (path text : String) : FileTree :=
  let components := (path.splitOn "/").filter fun name => !isIdle name
  let (tree, names) := components.dropLast.foldl makeDirectory (tree, [])
  match components.getLast? with
  | some name => { tree with files := (names ++ [name], text) :: tree.files }
  | none => tree

def ofFiles (files : List (String × String)) : FileTree :=
  files.foldl (fun tree f => tree.add f.1 f.2) {}

/-- Where a path has led. -/
inductive Place where
  /-- A directory, by the names that lead to it from the working directory. -/
  | directory (names : List String)
  /-- A directory that is not below the working directory. -/
  | outside
  | file (text : String)
deriving Inhabited

/-- Follow one component. -/
def enter (tree : FileTree) : Place → String → Except ReadFailure Place
  | .file _, _ => .error .notDirectory
  | .outside, name =>
    if isIdle name ∨ name = ".." then .ok .outside
    else if nameLimit < name.utf8ByteSize then .error .tooLong
    else .error .missing
  | .directory names, name =>
    if isIdle name then .ok (.directory names)
    else if name = ".." then
      .ok (if names.isEmpty then .outside else .directory names.dropLast)
    else if nameLimit < name.utf8ByteSize then .error .tooLong
    else
      let inner := names ++ [name]
      match tree.files.lookup inner with
      | some text => .ok (.file text)
      | none => if inner ∈ tree.directories then .ok (.directory inner) else .error .missing

def read (tree : FileTree) : Files := fun path =>
  match pathFailure? path with
  | some failure => .error failure
  | none =>
    let origin := if path.toList.head? = some '/' then Place.outside else .directory []
    match (path.splitOn "/").foldlM tree.enter origin with
    | .ok (.file text) => .ok text
    | .ok _ => .error .directory
    | .error failure => .error failure

end FileTree

end Dynval
