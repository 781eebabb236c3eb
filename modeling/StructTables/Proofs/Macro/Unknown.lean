import StructTables.Proofs.Macro.Closure

/-! # Unknown macros

Where nothing is captured, a reference registers the names that it was given and no others, each with
the value of an unknown macro. -/

namespace StructTables.Macro
open Text

/-- The table with names registered that no value is known for. -/
def Table.registerAll (table : Table) (names : List Text) : Table :=
  names.foldl (fun table name => table.register name placeholder) table

theorem Table.registerAll_append (table : Table) (names more : List Text) :
    table.registerAll (names ++ more) = (table.registerAll names).registerAll more :=
  List.foldl_append

theorem visit_nil (table : Table) (stack : List Text) : visit [] table stack = table.registerAll stack := by
  induction stack generalizing table with
  | nil => rw [visit, Table.registerAll, List.foldl_nil]
  | cons name more ih =>
    rw [visit, Table.registerAll, List.foldl_cons, ← Table.registerAll, ← ih]
    split
    case isTrue h => rw [Table.register, if_pos h]
    case isFalse => rfl

theorem register_eraseDups (seen : List Text) (name : Text) :
    Table.register ⟨seen.eraseDups.map (⟨·, placeholder⟩)⟩ name placeholder =
      ⟨(seen ++ [name]).eraseDups.map (⟨·, placeholder⟩)⟩ := by
  have hcontains : Table.contains ⟨seen.eraseDups.map (⟨·, placeholder⟩)⟩ name = seen.contains name := by
    rw [Bool.eq_iff_iff, Table.contains_iff, Table.names, List.map_map, List.contains_iff_mem]
    simp [Function.comp_def]
  rw [Table.register, hcontains, List.eraseDups_append]
  by_cases h : name ∈ seen
  · simp [h, List.removeAll]
  · simp [h, List.removeAll, List.eraseDups_cons]

theorem registerAll_eraseDups (seen names : List Text) :
    Table.registerAll ⟨seen.eraseDups.map (⟨·, placeholder⟩)⟩ names =
      ⟨(seen ++ names).eraseDups.map (⟨·, placeholder⟩)⟩ := by
  induction names generalizing seen with
  | nil => rw [List.append_nil, Table.registerAll, List.foldl_nil]
  | cons name more ih =>
    rw [Table.registerAll, List.foldl_cons, register_eraseDups, ← Table.registerAll, ih,
      List.append_assoc, List.singleton_append]

namespace Collector

/-- The collector with names registered that no value is known for. -/
def registerAll (collector : Collector) (names : List Text) : Collector :=
  { collector with table := collector.table.registerAll names }

theorem registerAll_append (collector : Collector) (names more : List Text) :
    collector.registerAll (names ++ more) = (collector.registerAll names).registerAll more := by
  rw [registerAll, Table.registerAll_append]
  rfl

end Collector

end StructTables.Macro
