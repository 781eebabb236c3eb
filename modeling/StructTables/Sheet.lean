import StructTables.Macro.Table
import StructTables.Structure

/-! # Sheets

The sheet of a group is the document that the data tables are imported from: a header of comment
rows, the macros, and a block of rows for every structure. Below a tag row, each row is a list of
quoted fields. -/

namespace StructTables.Sheet
open Text

/-- What the header of a sheet says about its group. -/
structure Header where
  group : Text
  kind : Text
  inputs : List Text
  deriving DecidableEq

/-! ## Rows -/

/-- A field between quotes. A quote inside it is written twice. -/
def quoted (field : Text) : Text :=
  '"' :: field.flatMap (fun c => if c = '"' then ['"', '"'] else [c]) ++ ['"']

def row (fields : List Text) : Text := join [','] (fields.map quoted)

def Header.rows (h : Header) : List Text :=
  ["# Created by cstruct-csv".toList, [], "# Structures extracted from:".toList] ++
    h.inputs.map ("#   ".toList ++ ·) ++
    [[],
      "# ".toList ++ h.group ++ ' ' :: h.kind ++ " data tables".toList,
      "#   Use the CCDD Data | Import table(s) command to import the ".toList ++ h.group,
      "#   data table definitions into an existing project".toList,
      []]

def macrosTag : Text := "_macros_".toList

def nameTag : Text := "_name_type_".toList

def columnTag : Text := "_column_data_".toList

def columns : List Text :=
  ["Data Type".toList, "Variable Name".toList, "Array Size".toList, "Bit Length".toList,
    "Description".toList]

def macroRow (m : Macro) : Text := row [m.name, m.value]

def macroRows (macros : List Macro) : List Text := macrosTag :: macros.map macroRow ++ [[]]

def memberRow (m : Member) : Text :=
  row [m.dataType, m.name, m.arraySize, m.bitLength, m.description]

def structureRows (s : Structure) : List Text :=
  [nameTag, row [s.name, "Structure".toList], columnTag, row columns] ++
    s.members.map memberRow ++ [[]]

/-! ## The whole sheet -/

def withoutTrailingBlanks (rows : List Text) : List Text :=
  (rows.reverse.dropWhile List.isEmpty).reverse

/-- The rows of a sheet. The macro section is left out if it is empty and not asked for. -/
def rows (header : Header) (macros : List Macro) (structures : List Structure)
    (alwaysMacroSection : Bool) : List Text :=
  withoutTrailingBlanks (header.rows ++
    (if alwaysMacroSection || !macros.isEmpty then macroRows macros else []) ++
    structures.flatMap structureRows)

def render (rows : List Text) : Text := rows.flatMap (· ++ ['\n'])

end StructTables.Sheet
