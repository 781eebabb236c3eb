import StructTables.Comment
import StructTables.Macro.Basic
import StructTables.Structure
import StructTables.Text.WordCharacter

/-! # Opening lines

Which lines may open a structure, what name they give it, and whether a body follows. -/

namespace StructTables
open Text

namespace Outline

def structKeyword : Text := "struct".toList

def typedefKeyword : Text := "typedef".toList

/-- The text after `typedef` and the blanks that have to follow it. -/
def afterTypedef? (line : Text) : Option Text :=
  if !startsWith line typedefKeyword then none
  else match line.drop typedefKeyword.length with
    | [] => none
    | c :: r => if isBlank c then some (trimStart r) else none

/-- Whether the line begins with the word `typedef`. -/
def isTypedef (line : Text) : Bool := line == typedefKeyword || (afterTypedef? line).isSome

/-- Whether the line begins with `struct` or `typedef struct`. -/
def namesStructure (line : Text) : Bool :=
  (afterKeyword? structKeyword line).isSome ||
    ((afterTypedef? line).bind (afterKeyword? structKeyword)).isSome

/-- The name that the text begins with, and what follows the name. -/
def cutName (t : Text) : Text × Text :=
  match t with
  | [] => ([], [])
  | c :: _ =>
    if Macro.isIdentifierStart c then (t.takeWhile isWordCharacter, t.dropWhile isWordCharacter)
    else ([], t)

/-- What follows the tag, if one stands behind `struct` and a blank. -/
def afterTag (t : Text) : Text :=
  match t with
  | [] => []
  | c :: r => if isBlank c then (cutName (trimStart r)).2 else t

/-- Whether the line is `typedef struct` with at most a tag, a brace and a comment behind it. -/
def opensTypedef (line : Text) : Bool :=
  match afterTypedef? line with
  | none => false
  | some rest =>
    let tagless := trimStart (afterTag (rest.drop structKeyword.length))
    let behind := trimStart (Comment.dropOne '{' tagless)
    startsWith rest structKeyword && (behind.isEmpty || Comment.begins behind)

/-- The form and the name of the structure that a line may open. The name of a typedef is known only
at its closing line, so it is empty here. A `struct` line with a semicolon, an equals sign or a
parenthesis in its code declares something else. -/
def opening? (line : Text) : Option (Form × Text) :=
  if opensTypedef line then some (.typedef, [])
  else
    let code := Comment.code line
    if code.any fun c => c == ';' || c == '=' || c == '(' then none
    else (afterKeyword? structKeyword code).map fun rest => (.tagged, (cutName (trimStart rest)).1)

/-- The first code of the lines, without the blanks around it. -/
def firstCode? (lines : List Text) : Option Text :=
  lines.findSome? fun line =>
    let code := trim (Comment.code line)
    if code.isEmpty then none else some code

/-- Whether a body begins at the line: its code ends with a brace, or the next code does begin with
one. -/
def opensBody (line : Text) (below : List Text) : Bool :=
  endsWith (trimEnd (Comment.code line)) ['{'] ||
    (firstCode? below).any fun code => startsWith code ['{']

/-- The form and the name of the structure that a line opens in place of one that is open. -/
def reopening? (line : Text) (below : List Text) : Option (Form × Text) :=
  (opening? line).filter fun _ => opensBody line below

end Outline
end StructTables
