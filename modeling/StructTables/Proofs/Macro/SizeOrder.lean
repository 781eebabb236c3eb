import StructTables.Proofs.Macro.DepthFirst
import StructTables.Proofs.Macro.Parallel
import StructTables.Proofs.Macro.Placeholder

/-! # Sizes in another order

Where formulas stay in the sizes, sizes do no more than refer to the names that they mention. What comes
into the table is then whatever these names lead to, and the order of the sizes only decides in which
order it comes. -/

namespace StructTables.Macro
open Text

variable {definitions : List Definition} {table : Table} {stack more : List Text}

/-- Stacks of the same names register the same macros. -/
theorem visit_perm (h : ∀ name, name ∈ stack ↔ name ∈ more) :
    (visit definitions table stack).entries.Perm (visit definitions table more).entries := by
  rw [entries_visit, entries_visit]
  refine List.Perm.append_left _ ((List.perm_ext_iff_of_nodup ?_ ?_).mpr fun m => ?_)
  · exact (nodup_names_added table stack).of_map _
  · exact (nodup_names_added table more).of_map _
  · simp only [mem_added_iff, h]

/-- The names that a size mentions, component by component. -/
def mentionsOfSize (size : Text) : List Text := ((splitOn ',' size).map trim).flatMap mentionsOf

namespace Collector

variable {collector : Collector}

theorem reference_append (collector : Collector) (names more : List Text) :
    collector.reference (names ++ more) = (collector.reference names).reference more := by
  rw [reference, visit_append]
  rfl

theorem foldl_next_of_plain (h : collector.formulaGroup = none) (components : List Text) :
    components.foldl next collector = collector.reference (components.flatMap mentionsOf) := by
  induction components generalizing collector with
  | nil =>
    rw [List.flatMap_nil, reference, visit]
    rfl
  | cons component components ih =>
    rw [List.foldl_cons, ih ((formulaGroup_next collector component).trans h),
      next_of_written (.inl h), ← reference_append, List.flatMap_cons]

theorem collect_of_plain (h : collector.formulaGroup = none) (size : Text) :
    (collector.collect size).2 = collector.reference (mentionsOfSize size) := by
  rw [Sizing.collect_snd ⟨collector, size⟩, foldl_next_of_plain h]
  rfl

/-- What is written for a size has nothing to do with the sizes ahead of it. -/
theorem collectAll_of_plain (h : collector.formulaGroup = none) (sizes : List Text) :
    collector.collectAll sizes =
      (sizes.map fun size => (collector.collect size).1,
        collector.reference (sizes.flatMap mentionsOfSize)) := by
  induction sizes generalizing collector with
  | nil =>
    rw [collectAll, List.flatMap_nil, reference, visit]
    rfl
  | cons size sizes ih =>
    have hwrites : (collector.reference (mentionsOfSize size)).WritesLike collector :=
      ⟨rfl, fun _ => rfl⟩
    have hmore : ∀ other, ((collector.reference (mentionsOfSize size)).collect other).1 =
        (collector.collect other).1 := fun other => (parallel_writesLike.collect hwrites other).1
    rw [collectAll]
    simp only [collect_of_plain h, @ih (collector.reference (mentionsOfSize size)) h, hmore]
    rw [List.map_cons, List.flatMap_cons, reference_append]

end Collector

/-- Sizes in another order are written out as before, and come with the same macros in another order. -/
theorem collectAll_of_perm {collector : Collector} (hgroup : collector.formulaGroup = none)
    {sizes others : List Text} (hperm : sizes.Perm others) :
    (collector.collectAll sizes).1 = sizes.map (fun size => (collector.collect size).1) ∧
      (collector.collectAll others).1 = others.map (fun size => (collector.collect size).1) ∧
      (collector.collectAll sizes).2.table.entries.Perm
        (collector.collectAll others).2.table.entries := by
  rw [Collector.collectAll_of_plain hgroup, Collector.collectAll_of_plain hgroup]
  refine ⟨rfl, rfl, visit_perm fun name => ?_⟩
  exact (hperm.flatMap_right mentionsOfSize).mem_iff

/-- Definitions that mention each other are followed from either end. -/
theorem collectAll_of_perm_cyclic :
    let collector := (Collector.plain.define "A".toList "B + N".toList).define "B".toList
      "2*A".toList
    let sizes := ["N,A".toList, "(B - 1)".toList]
    let others := ["(B - 1)".toList, "N,A".toList]
    collector.formulaGroup = none ∧ sizes.Perm others ∧
      (collector.collectAll sizes).2.table.names = ["N".toList, "A".toList, "B".toList] ∧
      (collector.collectAll others).2.table.names = ["B".toList, "A".toList, "N".toList] ∧
      (collector.collectAll sizes).1 = sizes.map (fun size => (collector.collect size).1) ∧
      (collector.collectAll others).1 = others.map (fun size => (collector.collect size).1) ∧
      (collector.collectAll sizes).2.table.entries.Perm
        (collector.collectAll others).2.table.entries := by
  intro collector sizes others
  have hgroup : collector.formulaGroup = none := by decide
  have hperm : sizes.Perm others := List.Perm.swap _ _ []
  exact ⟨hgroup, hperm, by decide +kernel, by decide +kernel,
    collectAll_of_perm hgroup hperm⟩

end StructTables.Macro
