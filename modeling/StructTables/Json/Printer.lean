import StructTables.Json.Value

/-! # Writing JSON

JSON is written over several lines, two spaces deeper for every array or object around. In a string
only the quote, the backslash and the control characters are escaped, the latter by a letter where
there is one and by number otherwise. -/

namespace StructTables.Json
open Text

/-- The lower-case hexadecimal digit of a number below 16. -/
def hexDigit (n : Nat) : Char := Nat.digitChar n

def escape (c : Char) : Text :=
  if c = '"' then ['\\', '"']
  else if c = '\\' then ['\\', '\\']
  else if c = '\n' then ['\\', 'n']
  else if c = '\r' then ['\\', 'r']
  else if c = '\t' then ['\\', 't']
  else if c.toNat = 0x8 then ['\\', 'b']
  else if c.toNat = 0xC then ['\\', 'f']
  else if c.toNat < 0x20 then
    ['\\', 'u', '0', '0', hexDigit (c.toNat / 16), hexDigit (c.toNat % 16)]
  else [c]

def quote (t : Text) : Text := '"' :: t.flatMap escape ++ ['"']

/-- The written form of a string. One that no text stands for is written as one that reads so. -/
def writtenString : Option Text → Text
  | some t => quote t
  | none => "\"\\ud800\"".toList

def newLine (depth : Nat) : Text := '\n' :: List.replicate (2 * depth) ' '

mutual

/-- The written form of a value that stands at the given depth. -/
def written (depth : Nat) : Json → Text
  | .null => "null".toList
  | .bool b => if b then "true".toList else "false".toList
  | .number digits => digits
  | .string text? => writtenString text?
  | .array [] => ['[', ']']
  | .array (item :: more) =>
    '[' :: newLine (depth + 1) ++ written (depth + 1) item ++ writtenItems (depth + 1) more ++
      newLine depth ++ [']']
  | .object [] => ['\x7b', '\x7d']
  | .object ((key, value) :: more) =>
    '\x7b' :: newLine (depth + 1) ++ writtenString key ++ [':', ' '] ++ written (depth + 1) value ++
      writtenEntries (depth + 1) more ++ newLine depth ++ ['\x7d']

/-- The items of an array behind the first. -/
def writtenItems (depth : Nat) : List Json → Text
  | [] => []
  | item :: more => ',' :: newLine depth ++ written depth item ++ writtenItems depth more

/-- The entries of an object behind the first. -/
def writtenEntries (depth : Nat) : List (Option Text × Json) → Text
  | [] => []
  | (key, value) :: more =>
    ',' :: newLine depth ++ writtenString key ++ [':', ' '] ++ written depth value ++
      writtenEntries depth more

end

def render (value : Json) : Text := written 0 value

end StructTables.Json
