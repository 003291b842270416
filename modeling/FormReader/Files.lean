import FormReader.Bytes
import FormReader.Failure

/-!
# Files and paths

The files of one directory that has no directories below it: a path that leads anywhere else leads
to nothing.

## Implementation notes

The entries are kept in the order in which the files were made, each name once.
-/

namespace FormReader

namespace Path

/-! ### Paths -/

/-- The byte between two names. -/
def slash : UInt8 := Bytes.ofChar '/'

/-- Whether a path starts at the root. -/
def isRooted : Bytes → Bool
  | c :: _ => c == slash
  | [] => false

/-- Goes on to the next name of a path; `done` holds the names so far, the last one first. -/
def enter (rooted : Bool) (done : List Bytes) (name : Bytes) : List Bytes :=
  if name = [] ∨ name = "." then done
  else if name = ".." then
    match done with
    | last :: before => if last = ".." then name :: done else before
    | [] => if rooted then [] else [name]
  else name :: done

/-- The names of a path after cleaning. -/
def names (path : Bytes) : List Bytes :=
  ((Bytes.splitAt slash path).foldl (enter (isRooted path)) []).reverse

/-- The shortest path to the same place. -/
def clean (path : Bytes) : Bytes :=
  let joined := List.intercalate [slash] (names path)
  if isRooted path then slash :: joined
  else if joined.isEmpty then "."
  else joined

/-- The path of a name inside a directory. -/
def join (directory name : Bytes) : Bytes :=
  if directory.isEmpty then clean name else clean (directory ++ slash :: name)

end Path

/-! ### Files -/

/-- Files with their contents, by name. -/
structure Files where
  entries : List (Bytes × Bytes) := []
  deriving DecidableEq, Repr, Inhabited

namespace Files

/-- The name of the file that a path leads to, if it stays in the directory. -/
def nameOf? (path : Bytes) : Option Bytes :=
  if path.isEmpty || Path.isRooted path then none
  else
    match Path.names path with
    | [name] => if name = ".." then none else some name
    | _ => none

/-- The content of the file at a path. -/
def get? (fs : Files) (path : Bytes) : Option Bytes :=
  (nameOf? path).bind fun name => fs.entries.lookup name

/-- Puts a content in the place of the old one, or adds a file at the end. -/
def setEntry (name content : Bytes) : List (Bytes × Bytes) → List (Bytes × Bytes)
  | [] => [(name, content)]
  | e :: rest => if e.1 = name then (name, content) :: rest else e :: setEntry name content rest

/-- Gives the file at a path a content. There is no result if the path leads out of the
directory. -/
def set? (fs : Files) (path content : Bytes) : Option Files :=
  (nameOf? path).map fun name => { entries := setEntry name content fs.entries }

/-- Adds bytes at the end of the file at a path, which is made if it is not there. -/
def append? (fs : Files) (path more : Bytes) : Option Files :=
  fs.set? path ((fs.get? path).getD [] ++ more)

/-- The content of the file at a path, or the failure to open it. -/
def read (fs : Files) (path : Bytes) : Except Failure Bytes :=
  match fs.get? path with
  | some content => .ok content
  | none => .error (.noFile path)

end Files

end FormReader
