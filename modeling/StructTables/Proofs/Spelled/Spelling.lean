import StructTables.Macro.Collector
import StructTables.Proofs.Canonical.Header
import StructTables.Proofs.Text.Words

/-! # Freely spelled declarations

A declaration says the same however it is spaced: blanks may stand on both sides of brackets, colons
and commas, and more than one of them between words. A size may be any text that does not interfere
with the marks around it. This module says how such a declaration is written on one line, and which
members it adds to a structure. -/

namespace StructTables.Spelled
open Text Declaration Canonical

abbrev Blank := { c : Char // isBlank c = true }

abbrev Blanks := { t : Text // IsBlanks t }

/-- A dimension or a bit length as it is written, with the blanks around it. -/
structure Size where
  text : Text
  plain : ∀ c ∈ text, isMark c = false ∧ c ≠ ';'
  free : Comment.code text = text

/-- A bracket group. -/
structure Group where
  ahead : Blanks
  size : Size

/-- What makes more of a variable than one value. -/
inductive Extent where
  | single
  | array (first : Group) (more : List Group)
  | bits (ahead : Blanks) (length : Size)

structure Variable where
  ahead : Blanks
  stars : Nat
  name : Identifier
  extent : Extent
  behind : Blanks

structure DataType where
  text : Text
  trimmed : trim text = text
  words_ne_nil : words text ≠ []
  identifiers : ∀ w ∈ words text, Macro.isIdentifier w = true

/-- A line that declares variables of one type. -/
structure Line where
  type : DataType
  /-- The first of the blanks that part the type from the variables. -/
  gap : Blank
  first : Variable
  more : List Variable

/-! ## Writing -/

def Group.text (group : Group) : Text := group.ahead.1 ++ '[' :: (group.size.text ++ [']'])

def Extent.text : Extent → Text
  | .single => []
  | .array first more => (first :: more).flatMap Group.text
  | .bits ahead length => ahead.1 ++ ':' :: length.text

namespace Variable

/-- The name with its stars. -/
def named (v : Variable) : Text := List.replicate v.stars '*' ++ v.name.1

def text (v : Variable) : Text := v.ahead.1 ++ (v.named ++ (v.extent.text ++ v.behind.1))

end Variable

/-- Variables with commas between them. -/
def rowText (row : List Variable) : Text := join [','] (row.map Variable.text)

/-- The type and the blank that parts it from the variables. -/
def DataType.lead (type : DataType) (gap : Blank) : Text := type.text ++ [gap.1]

namespace Line

def row (line : Line) : List Variable := line.first :: line.more

def text (line : Line) : Text :=
  line.type.lead line.gap ++ (rowText line.row ++ [';'])

end Line

/-! ## Meaning -/

/-- The size of a variable, as dimensions and as bit length, written with bound names. -/
def Extent.resolve (collector : Macro.Collector) : Extent → Text × Text × Macro.Collector
  | .single => ([], [], collector)
  | .array first more =>
    let dimensions := (first :: more).map fun group => collapse group.size.text
    let (arraySize, collector) := collector.collect (join [','] dimensions)
    (arraySize, [], collector)
  | .bits _ length =>
    let (bitLength, collector) := collector.collect (collapse length.text)
    ([], bitLength, collector)

/-- Adds a variable to a structure. One whose name is taken changes nothing, the macros included. -/
def Variable.declare (dataType : Text) (v : Variable) (owner : Structure)
    (collector : Macro.Collector) : Structure × Macro.Collector :=
  if owner.contains v.name.1 then (owner, collector)
  else
    let (arraySize, bitLength, collector) := v.extent.resolve collector
    let m : Member :=
      { dataType := typeOf dataType v.stars
        name := v.name.1
        arraySize := arraySize
        bitLength := bitLength }
    ({ owner with members := owner.members ++ [m] }, collector)

/-- Adds variables one after the other. -/
def declareAll (dataType : Text) (owner : Structure) (collector : Macro.Collector) :
    List Variable → Structure × Macro.Collector
  | [] => (owner, collector)
  | v :: more =>
    let (owner, collector) := v.declare dataType owner collector
    declareAll dataType owner collector more

def Line.declare (line : Line) (owner : Structure) (collector : Macro.Collector) :
    Structure × Macro.Collector :=
  declareAll (collapse line.type.text) owner collector line.row

end StructTables.Spelled
