import StructTables.Path

/-! # File trees

A file tree says which files and directories there are, by location: the names that lead there from
the root. Paths are looked up in it from the working directory. The tree answers as the operating
system does, which knows three reasons to refuse. -/

namespace StructTables
open Text

abbrev Bytes := List UInt8

/-- The names that lead to a file or directory from the root. -/
abbrev Location := List Text

inductive Node where
  | file (content : Bytes)
  | directory
  deriving DecidableEq

/-- Why the operating system refuses. -/
inductive Refusal where
  | notFound
  | notDirectory
  | isDirectory
  deriving DecidableEq

def Refusal.message : Refusal → Text
  | .notFound => "No such file or directory (os error 2)".toList
  | .notDirectory => "Not a directory (os error 20)".toList
  | .isDirectory => "Is a directory (os error 21)".toList

structure FileTree where
  /-- What there is, the latest entry of a location counting. -/
  nodes : List (Location × Node)
  /-- The working directory. -/
  current : Location
  deriving DecidableEq

namespace FileTree

/-- What there is at a location. The root is always a directory. -/
def node? (tree : FileTree) (location : Location) : Option Node :=
  if location.isEmpty then some .directory
  else (tree.nodes.find? (·.1 == location)).map (·.2)

def put (tree : FileTree) (location : Location) (content : Bytes) : FileTree :=
  { tree with nodes := (location, .file content) :: tree.nodes }

/-! ## Looking up paths -/

/-- The location that a name leads to from a directory. -/
def stepFrom (location : Location) (name : Text) : Location :=
  if name = ['.'] then location
  else if name = ['.', '.'] then location.dropLast
  else location ++ [name]

/-- Follows names from a location. Each is looked up in a directory, and only the last may lead to
what is no directory. -/
def follow (tree : FileTree) (location : Location) : List Text → Except Refusal Location
  | [] => .ok location
  | name :: more =>
    match tree.node? location with
    | none => .error .notFound
    | some (.file _) => .error .notDirectory
    | some .directory => tree.follow (stepFrom location name) more

def origin (tree : FileTree) (path : Text) : Location :=
  if Path.isAbsolute path then [] else tree.current

/-- What a path leads to. One that ends in a slash has to lead to a directory. -/
def find (tree : FileTree) (path : Text) : Except Refusal Node :=
  if path.isEmpty then .error .notFound
  else
    match tree.follow (tree.origin path) (Path.steps path) with
    | .error refusal => .error refusal
    | .ok location =>
      match tree.node? location with
      | none => .error .notFound
      | some (.file content) =>
        if Path.endsInSlash path then .error .notDirectory else .ok (.file content)
      | some .directory => .ok .directory

def pathExists (tree : FileTree) (path : Text) : Bool :=
  match tree.find path with
  | .ok _ => true
  | .error _ => false

def isDirectory (tree : FileTree) (path : Text) : Bool :=
  match tree.find path with
  | .ok .directory => true
  | _ => false

/-! ## Reading and writing -/

def read (tree : FileTree) (path : Text) : Except Refusal Bytes :=
  match tree.find path with
  | .error refusal => .error refusal
  | .ok .directory => .error .isDirectory
  | .ok (.file content) => .ok content

/-- Where writing to a path puts the file: in a directory that is there, under a last name that is a
name of its own. -/
def target (tree : FileTree) (path : Text) : Except Refusal Location :=
  if path.isEmpty then .error .notFound
  else
    let steps := Path.steps path
    match tree.follow (tree.origin path) steps.dropLast with
    | .error refusal => .error refusal
    | .ok parent =>
      match tree.node? parent, steps.getLast? with
      | none, _ => .error .notFound
      | some (.file _), _ => .error .notDirectory
      | some .directory, none => .error .isDirectory
      | some .directory, some name =>
        if Path.endsInSlash path || name = ['.'] || name = ['.', '.'] then .error .isDirectory
        else if tree.node? (parent ++ [name]) = some .directory then .error .isDirectory
        else .ok (parent ++ [name])

/-- Writes a file, in place of one that is there. -/
def write (tree : FileTree) (path : Text) (content : Bytes) : Except Refusal FileTree :=
  (tree.target path).map fun location => tree.put location content

end FileTree
end StructTables
