import StructTables.ConversionError
import StructTables.Text.Blank
import StructTables.Text.Utf8

/-! # Groups

A group is a set of headers that are converted into one sheet. The groups of a run are listed in a
file with one group a line: name, kind, output and inputs, with commas between them. -/

namespace StructTables
open Text

structure Group where
  name : Text
  kind : Text
  output : Text
  inputs : List Text
  deriving DecidableEq

namespace Group

/-! ## Lists of groups -/

/-- The number of the first empty field, counted from the given one. -/
def emptyField? (number : Nat) : List Text → Option Nat
  | [] => none
  | field :: more => if field.isEmpty then some number else emptyField? (number + 1) more

/-- Reads the fields of a line. An output is a path below the given directory. -/
def ofFields (directory : Text) (fields : List Text) : Except GroupFault Group :=
  match fields with
  | name :: kind :: output :: input :: inputs =>
    match emptyField? 1 fields with
    | some number => .error (.emptyField number)
    | none => .ok ⟨name, kind, Path.below directory output, input :: inputs⟩
  | _ => .error (.tooFewFields fields.length)

/-- The group of a line. A line that is blank or a comment has none. -/
def ofLine (directory line : Text) : Except GroupFault (Option Group) :=
  let line := trim line
  if line.isEmpty || startsWith line ['#'] then .ok none
  else (ofFields directory ((splitOn ',' line).map trim)).map some

/-- Reads the lines of a list of groups from the one of the given number on. The first faulty line
makes the whole list invalid. -/
def ofLines (source directory : Text) (number : Nat) :
    List Text → Except ConversionError (List Group)
  | [] => .ok []
  | line :: more =>
    match ofLine directory line with
    | .error fault => .error (.listing source number fault)
    | .ok group? => (ofLines source directory (number + 1) more).map (group?.toList ++ ·)

/-- Reads a list of groups. The source only names it in errors. -/
def ofListing (source directory content : Text) : Except ConversionError (List Group) :=
  ofLines source directory 1 (lines content)

/-- Reads the list of groups in a file. -/
def load (tree : FileTree) (path directory : Text) : Except ConversionError (List Group) :=
  match tree.read path with
  | .error refusal => .error (.file path (.refused refusal))
  | .ok bytes =>
    match decodeUtf8? bytes with
    | none => .error (.file path .notText)
    | some content => ofListing path directory content

end Group
end StructTables
