import StructTables.Macro.Basic

/-! # Closing lines

A line that begins with a closing brace ends the structure that is open, and names it if it is a
typedef: `} Name;`, where a packing keyword or an attribute may stand ahead of the name. -/

namespace StructTables.Outline
open Text

def closes (line : Text) : Bool := startsWith line ['}']

def packingKeyword : Text := "OS_PACK".toList

def attributeKeyword : Text := "__attribute__".toList

/-- The text after the packing keyword and the blanks that have to follow it. -/
def afterPacking? (t : Text) : Option Text :=
  if !startsWith t packingKeyword then none
  else match t.drop packingKeyword.length with
    | [] => none
    | c :: r => if isBlank c then some (trimStart r) else none

/-- The text after an attribute, which ends at the first `))` behind its `((` on the same line. -/
def afterAttribute? (t : Text) : Option Text :=
  if !startsWith t attributeKeyword then none
  else
    match trimStart (t.drop attributeKeyword.length) with
    | '(' :: '(' :: r =>
      match cut? [')', ')'] r with
      | some (inside, after) => if inside.contains '\n' then none else some (trimStart after)
      | none => none
    | _ => none

/-- Removes the packing keyword or the attribute that the text begins with. -/
def withoutPacking (t : Text) : Text :=
  match afterPacking? t with
  | some r => r
  | none => (afterAttribute? t).getD t

/-- Removes the first semicolon with the blanks ahead of it and the line behind it. -/
def withoutTerminator (t : Text) : Text :=
  match cutFirst? ';' t with
  | some (before, after) => trimEnd before ++ after.dropWhile (· != '\n')
  | none => t

/-- The name that the closing line gives to a typedef: the first of its names, empty if that is not
an identifier. -/
def typedefName (closing : Text) : Text :=
  let names := withoutTerminator (withoutPacking (trimStart (closing.drop 1)))
  let name := trim (names.takeWhile (· != ','))
  if Macro.isIdentifier name then name else []

end StructTables.Outline
