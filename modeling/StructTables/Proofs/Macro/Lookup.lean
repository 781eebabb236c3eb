import Mathlib.Data.Finset.Insert
import StructTables.Proofs.Macro.Registering

/-! # Looking names up

A table changes by registering alone, and an entry stays where it is once it is there. So the set of the
names can be kept beside the entries, to look a name up without going through these, and the two never
part. -/

namespace StructTables.Macro
open Text

namespace Table

/-- The table with macros registered one after the other. -/
def registerEach (table : Table) (macros : List Macro) : Table :=
  macros.foldl (fun table m => table.register m.name m.value) table

theorem registerEach_concat (table : Table) (macros : List Macro) (name value : Text) :
    table.registerEach (macros ++ [⟨name, value⟩]) =
      (table.registerEach macros).register name value := by
  rw [registerEach, List.foldl_append]
  rfl

theorem entries_prefix_register (table : Table) (name value : Text) :
    table.entries <+: (table.register name value).entries := by
  unfold register
  split
  · exact List.prefix_rfl
  · exact List.prefix_append _ _

theorem entries_prefix_registerEach (table : Table) (macros : List Macro) :
    table.entries <+: (table.registerEach macros).entries := by
  induction macros generalizing table with
  | nil => exact List.prefix_rfl
  | cons m more ih => exact (table.entries_prefix_register m.name m.value).trans (ih _)

theorem nodup_registerEach {table : Table} (h : table.names.Nodup) (macros : List Macro) :
    (table.registerEach macros).names.Nodup := by
  induction macros generalizing table with
  | nil => exact h
  | cons m more ih => exact ih (table.nodup_register m.name m.value h)

end Table

/-! ## A set of names -/

/-- A table that looks names up in a set of its own. -/
structure IndexedTable where
  entries : List Macro := []
  names : Finset Text := ∅

namespace IndexedTable

def register (indexed : IndexedTable) (name value : Text) : IndexedTable :=
  if name ∈ indexed.names then indexed
  else ⟨indexed.entries ++ [⟨name, value⟩], insert name indexed.names⟩

def registerEach (indexed : IndexedTable) (macros : List Macro) : IndexedTable :=
  macros.foldl (fun indexed m => indexed.register m.name m.value) indexed

/-- The entries are those of the table, and the set has the names of these and no others. -/
structure Mirrors (indexed : IndexedTable) (table : Table) : Prop where
  entries : indexed.entries = table.entries
  names : ∀ name, name ∈ indexed.names ↔ name ∈ table.names

theorem mirrors_empty : Mirrors {} {} := ⟨rfl, fun _ => by simp [Table.names]⟩

variable {indexed : IndexedTable} {table : Table}

theorem Mirrors.register (h : indexed.Mirrors table) (name value : Text) :
    (indexed.register name value).Mirrors (table.register name value) := by
  unfold IndexedTable.register Table.register
  by_cases hname : name ∈ table.names
  · rw [if_pos ((h.names name).mpr hname), if_pos (Table.contains_iff.mpr hname)]
    exact h
  · rw [if_neg (mt (h.names name).mp hname), if_neg (mt Table.contains_iff.mp hname)]
    refine ⟨congrArg (· ++ [⟨name, value⟩]) h.entries, fun other => ?_⟩
    rw [Finset.mem_insert, h.names other, Table.names, Table.names, List.map_append, List.mem_append,
      List.map_singleton, List.mem_singleton, or_comm]

theorem Mirrors.registerEach (h : indexed.Mirrors table) (macros : List Macro) :
    (indexed.registerEach macros).Mirrors (table.registerEach macros) := by
  induction macros generalizing indexed table with
  | nil => exact h
  | cons m more ih => exact ih (h.register m.name m.value)

end IndexedTable

/-- Collecting a size does nothing to a table but register macros in it. -/
theorem Collector.exists_registerEach_collect {collector : Collector} {table : Table}
    (h : ∃ macros, collector.table = table.registerEach macros) (size : Text) :
    ∃ macros, (collector.collect size).2.table = table.registerEach macros := by
  have hregister : ∀ (other : Table) (name value : Text), True → True →
      (∃ macros, other = table.registerEach macros) →
      ∃ macros, other.register name value = table.registerEach macros := by
    rintro _ name value - - ⟨macros, rfl⟩
    exact ⟨macros ++ [⟨name, value⟩], (table.registerEach_concat macros name value).symm⟩
  exact Collector.collect_keeps hregister
    ⟨trivial, fun _ _ => trivial, fun _ _ _ _ => trivial, fun _ _ _ => trivial⟩
    (fun _ _ => ⟨fun _ _ => trivial, fun _ => trivial⟩) h

end StructTables.Macro
