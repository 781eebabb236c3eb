import StructTables.Proofs.Macro.Account

/-! # Registering

A collector changes its table by registering alone. What registering a proper name with a proper value
keeps of a table is therefore kept by every size that the collector is given, where proper is whatever
the names and values are that this size and the captured definitions come with. -/

namespace StructTables.Macro
open Text

/-- The names that the definitions and the formulas of a collector come with pass one test, and the
values another. -/
structure Collector.Admits (collector : Collector) (isName isValue : Text → Prop) : Prop where
  placeholder : isValue placeholder
  value : ∀ d ∈ collector.definitions, isValue d.value
  mention : ∀ d ∈ collector.definitions, ∀ n ∈ d.mentions, isName n
  generated : ∀ group, collector.formulaGroup = some group → ∀ number,
    isName (Collector.generatedName group number)

/-- The same of the component of a size, whose value counts if formulas become macros. -/
def Collector.AdmitsComponent (collector : Collector) (isName isValue : Text → Prop)
    (component : Text) : Prop :=
  (∀ n ∈ mentionsOf component, isName n) ∧
    (collector.formulaGroup ≠ none → isValue (Formula.written component))

section
variable {isName isValue : Text → Prop} {P : Table → Prop}

/-! ## Steps -/

theorem visit_keeps
    (hregister : ∀ table name value, isName name → isValue value → P table →
      P (table.register name value))
    {collector : Collector} (hadmits : collector.Admits isName isValue) {table : Table}
    {stack : List Text} (hstack : ∀ n ∈ stack, isName n) (h : P table) :
    P (visit collector.definitions table stack) := by
  fun_induction visit collector.definitions table stack with
  | case1 table => exact h
  | case2 table name stack _ ih => exact ih (List.forall_mem_cons.mp hstack).2 h
  | case3 table name stack _ _ ih =>
    obtain ⟨hname, hstack⟩ := List.forall_mem_cons.mp hstack
    exact ih hstack (hregister _ _ _ hname hadmits.placeholder h)
  | case4 table name stack _ d hfind ih =>
    obtain ⟨hname, hstack⟩ := List.forall_mem_cons.mp hstack
    have hd := List.mem_of_find?_eq_some hfind
    exact ih (List.forall_mem_append.mpr ⟨hadmits.mention d hd, hstack⟩)
      (hregister _ _ _ hname (hadmits.value d hd) h)

theorem Collector.next_keeps
    (hregister : ∀ table name value, isName name → isValue value → P table →
      P (table.register name value))
    {collector : Collector} (hadmits : collector.Admits isName isValue) {component : Text}
    (hcomponent : collector.AdmitsComponent isName isValue component) (h : P collector.table) :
    P (collector.next component).table := by
  obtain ⟨hmentions, hwritten⟩ := hcomponent
  unfold Collector.next Collector.collectComponent
  unfold mentionsOf at hmentions
  split at hmentions
  case isTrue hplain => rwa [if_pos hplain]
  case isFalse hplain =>
    rw [if_neg hplain]
    split at hmentions
    case isTrue hbare =>
      rw [if_pos hbare]
      exact visit_keeps hregister hadmits hmentions h
    case isFalse hformula =>
      rw [if_neg hformula]
      have hvisit := visit_keeps hregister hadmits hmentions h
      cases hgroup : collector.formulaGroup with
      | none => simpa [reference, hgroup] using hvisit
      | some group =>
        simp only [reference, hgroup]
        exact hregister _ _ _ (hadmits.generated group hgroup _) (hwritten (by simp [hgroup])) hvisit

theorem Collector.Admits.mono {collector other : Collector} (h : collector.Admits isName isValue)
    (hdefinitions : other.definitions ⊆ collector.definitions)
    (hgroup : other.formulaGroup = collector.formulaGroup) : other.Admits isName isValue :=
  ⟨h.placeholder, fun d hd => h.value d (hdefinitions hd), fun d hd => h.mention d (hdefinitions hd),
    hgroup ▸ h.generated⟩

theorem Collector.Admits.next {collector : Collector} (h : collector.Admits isName isValue)
    (component : Text) : (collector.next component).Admits isName isValue :=
  h.mono (definitions_next collector component ▸ List.Subset.refl _)
    (formulaGroup_next collector component)

theorem Collector.admits_collect_iff {collector : Collector} {size : Text} :
    (collector.collect size).2.Admits isName isValue ↔ collector.Admits isName isValue := by
  have hdefinitions := definitions_collect collector size
  have hgroup := formulaGroup_collect collector size
  exact ⟨fun h => h.mono (hdefinitions ▸ List.Subset.refl _) hgroup.symm,
    fun h => h.mono (hdefinitions ▸ List.Subset.refl _) hgroup⟩

/-! ## Sizes -/

theorem Collector.collect_keeps
    (hregister : ∀ table name value, isName name → isValue value → P table →
      P (table.register name value))
    {collector : Collector} (hadmits : collector.Admits isName isValue) {size : Text}
    (hsize : ∀ component ∈ (Sizing.mk collector size).components,
      collector.AdmitsComponent isName isValue component) (h : P collector.table) :
    P (collector.collect size).2.table := by
  rw [Sizing.collect_snd ⟨collector, size⟩]
  generalize (Sizing.mk collector size).components = components at hsize
  induction components generalizing collector with
  | nil => exact h
  | cons component more ih =>
    obtain ⟨hfirst, hmore⟩ := List.forall_mem_cons.mp hsize
    have hnext : ∀ other ∈ more,
        (collector.next component).AdmitsComponent isName isValue other := by
      intro other hother
      rw [AdmitsComponent, formulaGroup_next]
      exact hmore other hother
    exact ih (hadmits.next component) (next_keeps hregister hadmits hfirst h) hnext

end

/-! ## What is registered -/

namespace Collector

theorem entries_subset_next (collector : Collector) (component : Text) :
    collector.table.entries ⊆ (collector.next component).table.entries := by
  unfold next collectComponent
  split
  · exact List.Subset.refl _
  · split
    · exact entries_subset_visit _ _
    · cases hgroup : collector.formulaGroup with
      | none => simpa [reference, hgroup] using entries_subset_visit _ _
      | some group =>
        simp only [reference, hgroup]
        exact List.Subset.trans (entries_subset_visit _ _) (Table.entries_subset_register _ _ _)

theorem names_marks_subset_next (collector : Collector) (component : Text) :
    (collector.marks component).filterMap Mark.name? ⊆ (collector.next component).table.names := by
  unfold marks next collectComponent
  split
  · exact List.nil_subset _
  · split
    · exact stack_subset_visit _ _
    · cases hgroup : collector.formulaGroup with
      | none =>
        simp only [reference, hgroup, Formula.names_marks]
        exact stack_subset_visit _ _
      | some group =>
        simp only [reference, hgroup]
        exact List.cons_subset.mpr
          ⟨Table.mem_names_register.mpr (.inr rfl), List.nil_subset _⟩

theorem entries_subset_foldl_next (collector : Collector) (components : List Text) :
    collector.table.entries ⊆ (components.foldl next collector).table.entries := by
  induction components generalizing collector with
  | nil => exact List.Subset.refl _
  | cons component more ih =>
    exact List.Subset.trans (collector.entries_subset_next component) (ih _)

theorem entries_subset_collect (collector : Collector) (size : Text) :
    collector.table.entries ⊆ (collector.collect size).2.table.entries := by
  rw [Sizing.collect_snd ⟨collector, size⟩]
  exact collector.entries_subset_foldl_next _

@[simp] theorem table_define (collector : Collector) (name value : Text) :
    (collector.define name value).table = collector.table := by
  unfold define
  split <;> rfl

@[simp] theorem formulaGroup_define (collector : Collector) (name value : Text) :
    (collector.define name value).formulaGroup = collector.formulaGroup := by
  unfold define
  split <;> rfl

end Collector

/-- Collecting a size registers every name that it bounds. -/
theorem Sizing.names_subset_collect (sizing : Sizing) :
    sizing.names ⊆ (sizing.collector.collect sizing.size).2.table.names := by
  rw [Sizing.collect_snd, Sizing.names, Sizing.marks]
  generalize sizing.components = components
  generalize sizing.collector = collector
  induction components generalizing collector with
  | nil => exact List.nil_subset _
  | cons component more ih =>
    rw [Collector.marksOf, List.flatten_cons, List.filterMap_append, List.foldl_cons]
    refine List.append_subset.mpr ⟨?_, ih _⟩
    exact List.Subset.trans (collector.names_marks_subset_next component)
      (List.map_subset _ (Collector.entries_subset_foldl_next _ more))

/-! ## What registering keeps -/

namespace Table

/-- All names of a table pass one test, and all values another. -/
def Holds (isName isValue : Text → Prop) (table : Table) : Prop :=
  ∀ m ∈ table.entries, isName m.name ∧ isValue m.value

theorem Holds.register {isName isValue : Text → Prop} (table : Table) (name value : Text)
    (hname : isName name) (hvalue : isValue value) (h : table.Holds isName isValue) :
    (table.register name value).Holds isName isValue := by
  unfold Table.register
  split
  · exact h
  · exact List.forall_mem_append.mpr ⟨h, List.forall_mem_singleton.mpr ⟨hname, hvalue⟩⟩

theorem nodup_register (table : Table) (name value : Text) (h : table.names.Nodup) :
    (table.register name value).names.Nodup := by
  cases hcontains : table.contains name with
  | true => simpa [Table.register, hcontains] using h
  | false =>
    have hnew : name ∉ table.names := fun hmem => by
      rw [← contains_iff, hcontains] at hmem
      cases hmem
    rw [names, entries_register hcontains, List.map_append]
    refine List.nodup_append.mpr ⟨h, by simp, fun n hn m hm heq => ?_⟩
    rw [List.map_singleton, List.mem_singleton] at hm
    rw [heq, hm] at hn
    exact hnew hn

end Table
end StructTables.Macro
