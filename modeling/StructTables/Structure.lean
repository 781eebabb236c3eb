import StructTables.Text.Blank

/-! # Structures

What one structure definition of a header says: its name, the form of its definition and its members
in order of declaration. -/

namespace StructTables
open Text

structure Member where
  dataType : Text
  name : Text
  arraySize : Text := []
  bitLength : Text := []
  description : Text := []
  deriving DecidableEq

namespace Member

/-- Appends a remark to the description. A remark without text leaves no trace. -/
def describe (m : Member) (remark : Text) : Member :=
  if (trim remark).isEmpty then m
  else if m.description.isEmpty then { m with description := trim remark }
  else { m with description := m.description ++ ' ' :: trim remark }

end Member

/-- The form of a definition: `struct Name ... ;` or `typedef struct ... Name;`. -/
inductive Form where
  | tagged
  | typedef
  deriving DecidableEq

structure Structure where
  name : Text
  form : Form
  members : List Member := []
  deriving DecidableEq

namespace Structure

def contains (s : Structure) (name : Text) : Bool := s.members.any (·.name == name)

def find? (s : Structure) (name : Text) : Option Member := s.members.find? (·.name == name)

/-- Adds a member, unless there is one of that name already. -/
def push (s : Structure) (m : Member) : Structure :=
  if s.contains m.name then s else { s with members := s.members ++ [m] }

/-- Appends a remark to the first of the members that has the given name. -/
def describeNamed (name remark : Text) : List Member → List Member
  | [] => []
  | m :: more =>
    if m.name = name then m.describe remark :: more else m :: describeNamed name remark more

def describe (s : Structure) (name remark : Text) : Structure :=
  { s with members := describeNamed name remark s.members }

end Structure
end StructTables
