import StructTables.Macro.Basic

/-! # Macro tables

The macros of one document in the order in which they were first registered. Registering a name that
the table already holds changes nothing, so names stay distinct. -/

namespace StructTables.Macro
open Text

structure Table where
  entries : List Macro := []
  deriving DecidableEq

namespace Table

def names (table : Table) : List Text := table.entries.map Macro.name

def contains (table : Table) (name : Text) : Bool := table.entries.any (·.name == name)

def find? (table : Table) (name : Text) : Option Macro := table.entries.find? (·.name == name)

def size (table : Table) : Nat := table.entries.length

def isEmpty (table : Table) : Bool := table.entries.isEmpty

/-- The first value registered for a name stays. -/
def register (table : Table) (name value : Text) : Table :=
  if table.contains name then table else ⟨table.entries ++ [⟨name, value⟩]⟩

/-- Puts values for bound names, one entry after the other. A value is not searched again for names
of earlier entries. -/
def substitute (table : Table) (t : Text) : Text :=
  table.entries.foldl (fun text entry => replaceAll (bound entry.name) entry.value text) t

theorem contains_iff {table : Table} {name : Text} :
    table.contains name = true ↔ name ∈ table.names := by
  simp [contains, names]

theorem contains_register {table : Table} {name value other : Text} :
    (table.register name value).contains other = (table.contains other || name == other) := by
  unfold register
  split
  case isTrue h =>
    by_cases hn : name = other
    · subst hn
      simp [h]
    · simp [hn]
  case isFalse => simp [contains]

end Table
end StructTables.Macro
