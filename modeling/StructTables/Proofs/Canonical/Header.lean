import StructTables.Macro.Table
import StructTables.Proofs.Declaration.Tidy
import StructTables.Structure

/-! # Canonical headers

A canonical header defines structures and nothing else: one declaration on each line, single spaces
between words, and a comment only behind a declaration. This module says how such a header is
written and which structures it is about. -/

namespace StructTables.Canonical
open Text Declaration

abbrev Identifier := { t : Text // Macro.isIdentifier t = true }

abbrev Literal := { t : Text // Macro.isNumeric t = true }

/-- One component of a size: a number, or the name of a macro. -/
inductive Size where
  | number (literal : Literal)
  | name (i : Identifier)

/-- What a comment says: a trimmed line of text, or nothing. A star or a backslash could end the
comment early or begin a tag in it, and a brace could begin a body. -/
structure Remark where
  text : Text
  trimmed : trim text = text
  plain : '\n' ∉ text ∧ '*' ∉ text ∧ '\\' ∉ text ∧ '{' ∉ text

/-- What makes more of a field than one value. -/
inductive Extent where
  | single
  | array (first : Size) (more : List Size)
  | bits (length : Size)

structure Field where
  /-- The first word of the type, and the words behind it. -/
  type : Identifier
  qualifiers : List Identifier := []
  stars : Nat := 0
  name : Identifier
  extent : Extent := .single
  remark : Remark

structure Definition where
  form : Form
  name : Identifier
  fields : List Field
  distinct : (fields.map (·.name.1)).Nodup

/-! ## Writing -/

def Size.text : Size → Text
  | .number literal => literal.1
  | .name i => i.1

def Extent.text : Extent → Text
  | .single => []
  | .array first more => brackets ((first :: more).map Size.text)
  | .bits length => " : ".toList ++ length.text

def Remark.comment (remark : Remark) : Text :=
  if remark.text.isEmpty then [] else " /* ".toList ++ remark.text ++ " */".toList

namespace Field

def dataType (field : Field) : Text :=
  join [' '] (field.type.1 :: field.qualifiers.map (·.1))

/-- The name with its stars. -/
def declarator (field : Field) : Text := List.replicate field.stars '*' ++ field.name.1

def declaration (field : Field) : Text :=
  field.dataType ++ ' ' :: field.declarator ++ field.extent.text

def line (field : Field) : Text := field.declaration ++ ';' :: field.remark.comment

end Field

namespace Definition

def openingLine (d : Definition) : Text :=
  match d.form with
  | .tagged => "struct ".toList ++ d.name.1 ++ [' ', '{']
  | .typedef => "typedef struct ".toList ++ ['{']

def closingLine (d : Definition) : Text :=
  match d.form with
  | .tagged => ['}', ';']
  | .typedef => '}' :: ' ' :: d.name.1 ++ [';']

def lines (d : Definition) : List Text :=
  d.openingLine :: d.fields.map Field.line ++ [d.closingLine]

end Definition

/-- The content of a header, with a line feed behind each line. -/
def write (header : List Definition) : Text :=
  (header.flatMap Definition.lines).flatMap (· ++ ['\n'])

/-! ## Meaning -/

namespace Size

/-- The size as it stands in a structure: a name is put between delimiters. -/
def written : Size → Text
  | .number literal => literal.1
  | .name i => Macro.bound i.1

def name? : Size → Option Text
  | .number _ => none
  | .name i => some i.1

end Size

namespace Extent

def dimensions : Extent → List Size
  | .array first more => first :: more
  | .single | .bits _ => []

def bitLength : Extent → List Size
  | .bits length => [length]
  | .single | .array .. => []

/-- The names of the macros in the order in which they stand in the field. -/
def names (extent : Extent) : List Text :=
  (extent.dimensions ++ extent.bitLength).filterMap Size.name?

end Extent

def Field.member (field : Field) : Member where
  dataType := typeOf field.dataType field.stars
  name := field.name.1
  arraySize := join [','] (field.extent.dimensions.map Size.written)
  bitLength := join [','] (field.extent.bitLength.map Size.written)
  description := field.remark.text

def Definition.structure (d : Definition) : Structure where
  name := d.name.1
  form := d.form
  members := d.fields.map Field.member

/-- The names in all sizes, each as often as it stands there. -/
def Definition.sizeNames (d : Definition) : List Text :=
  d.fields.flatMap fun field => field.extent.names

/-- The table of the names in all sizes of a header: each one once, with the value of an unknown
macro. -/
def table (header : List Definition) : Macro.Table :=
  ⟨(header.flatMap Definition.sizeNames).eraseDups.map fun name => ⟨name, Macro.placeholder⟩⟩

end StructTables.Canonical
