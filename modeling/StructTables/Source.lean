import StructTables.Text.Blank

/-! # Sources

A source is the content of one header file. It is read as logical lines: trimmed, and joined with
the next line wherever a line ends in a backslash, if the source is read so. -/

namespace StructTables.Source
open Text

def continues (line : Text) : Bool := endsWith line ['\\']

/-- Joins lines, `pending` being the logical line so far. Whether it goes on is asked of that whole
line, so a backslash that only the next line brings into last place counts as well. A backslash at
the end of the source joins nothing and is kept. -/
def joinedFrom (pending : Text) : List Text → List Text
  | [] => [pending]
  | line :: more =>
    if continues pending then joinedFrom (pending.dropLast ++ line) more
    else pending :: joinedFrom line more

def joined : List Text → List Text
  | [] => []
  | line :: more => joinedFrom line more

def logicalLines (joining : Bool) (content : Text) : List Text :=
  let physical := (lines content).map trim
  if joining then joined physical else physical

end StructTables.Source
