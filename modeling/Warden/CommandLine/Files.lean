/-!
# Files by path

What reading a path gives, the directory beside a path, and a tree of files in memory in which paths
are looked up.
-/

namespace Warden.CommandLine

/-- What reading a path gives. -/
inductive FileState where
  /-- There is no file at the path; a directory is none. -/
  | absent
  /-- There is a file, but it cannot be read as text. -/
  | unreadable
  | text (s : String)
  deriving DecidableEq, Repr, Inhabited

/-- A file with these bytes, which are text if they are UTF-8. -/
def FileState.ofBytes (bytes : ByteArray) : FileState :=
  match String.fromUTF8? bytes with
  | some s => .text s
  | none => .unreadable

/-- The steps of a path. -/
def steps (path : String) : List String :=
  path.splitOn "/"

/-- Whether a step stays where it is. -/
def isIdle (step : String) : Bool :=
  step == "" || step == "."

/-- Drops idle steps from the end of a path, but never its first step. The path is reversed. -/
def dropIdle : List String → List String
  | [] => []
  | [first] => [first]
  | step :: path => if isIdle step then dropIdle path else step :: path

/-- The directory that a path leads through to its last step, `.` if there is none. -/
def directoryOf (path : String) : String :=
  match dropIdle ((dropIdle (steps path).reverse).drop 1) with
  | [] => "."
  | [""] => if path.startsWith "/" then "" else "."
  | parent => "/".intercalate parent.reverse

/-- The path of a file in the directory of another path. -/
def beside (path name : String) : String :=
  directoryOf path ++ "/" ++ name

/-- Files below one directory, by the steps that lead to them. -/
structure FileTree where
  files : List (List String × ByteArray) := []

namespace FileTree

/-- A tree of files given by their paths. -/
def ofList (files : List (String × ByteArray)) : FileTree :=
  ⟨files.map fun (path, bytes) => ((steps path).filter (!isIdle ·), bytes)⟩

/-- Whether there is a directory at the end of some steps. -/
def hasDirectory (t : FileTree) (place : List String) : Bool :=
  place.isEmpty || t.files.any fun (path, _) => place.isPrefixOf path && place.length < path.length

/-- What is found by going some steps from a directory of the tree. Nothing is known outside it. -/
def walk (t : FileTree) (place : List String) : List String → FileState
  | [] => .absent
  | [name] =>
    if isIdle name then .absent
    else match t.files.find? (·.1 == place ++ [name]) with
      | some (_, bytes) => .ofBytes bytes
      | none => .absent
  | step :: path =>
    if isIdle step then t.walk place path
    else if step == ".." then
      if place.isEmpty then .absent else t.walk place.dropLast path
    else if t.hasDirectory (place ++ [step]) then t.walk (place ++ [step]) path
    else .absent

/-- What reading a relative path gives. -/
def read (t : FileTree) (path : String) : FileState :=
  if path.startsWith "/" then .absent else t.walk [] (steps path)

end FileTree

end Warden.CommandLine
