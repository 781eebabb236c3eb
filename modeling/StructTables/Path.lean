import StructTables.Text.Basic

/-! # Paths

A path is kept as it is given, since messages and sheets show it so. What it leads to is a matter of
the file tree. -/

namespace StructTables.Path
open Text

def isAbsolute (path : Text) : Bool := startsWith path ['/']

def endsInSlash (path : Text) : Bool := endsWith path ['/']

/-- The path below a directory. An absolute path stays as it is, and so does every path if the
directory is the empty path. -/
def below (directory path : Text) : Text :=
  if isAbsolute path then path
  else if directory.isEmpty || endsInSlash directory then directory ++ path
  else directory ++ '/' :: path

/-- The names that a path leads through; empty ones mean nothing. -/
def steps (path : Text) : List Text := (splitOn '/' path).filter (! ·.isEmpty)

/-- The path that the JSON of an output is written to. -/
def json (output : Text) : Text := output ++ ".json".toList

end StructTables.Path
