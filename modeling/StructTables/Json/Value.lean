import StructTables.Text.Basic

/-! # JSON values

A JSON value as it is written: an object keeps its entries in order, with repeats, and a number
keeps its digits. A string may hold code units that no text stands for, because an escape gives half
of a surrogate pair; of such a string nothing else is kept. -/

namespace StructTables

inductive Json where
  | null
  | bool (b : Bool)
  | number (digits : Text)
  | string (text? : Option Text)
  | array (items : List Json)
  | object (entries : List (Option Text × Json))

namespace Json

def ofText (t : Text) : Json := .string (some t)

def ofList {α : Type} (f : α → Json) (l : List α) : Json := .array (l.map f)

/-- The object with the given fields. -/
def record (fields : List (Text × Json)) : Json :=
  .object (fields.map fun (key, value) => (some key, value))

end Json
end StructTables
