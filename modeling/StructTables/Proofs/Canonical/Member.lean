import StructTables.Proofs.Body.Assembly
import StructTables.Proofs.Canonical.Field
import StructTables.Proofs.Macro.Unknown

/-! # The members of a canonical structure

The variables of a body become the members that its fields stand for, and the names in their sizes
are registered in the order in which they stand there. Nothing is captured from a canonical header,
so each name takes the value of an unknown macro. -/

namespace StructTables.Canonical
open Text Macro

/-! ## Sizes -/

variable {collector : Collector}

theorem collectComponent_size (h : collector.definitions = []) (size : Size) :
    collector.collectComponent size.text =
      (size.written, collector.registerAll size.name?.toList) := by
  unfold Collector.collectComponent
  cases size with
  | number literal =>
    rw [if_pos (by simp [Size.text, literal.2])]
    rfl
  | name i =>
    have hempty : i.1.isEmpty = false := by simpa using identifier_ne_nil i
    have hplain : i.1.any Formula.isOperator = false := by
      refine List.any_eq_false.mpr ?_
      intro c hc hoperator
      have hidentifier := List.all_eq_true.mp (all_identifier i) c hc
      simp only [Formula.isOperator, Bool.or_eq_true, beq_iff_eq] at hoperator
      rcases hoperator with ((((rfl | rfl) | rfl) | rfl) | rfl) | rfl <;> cases hidentifier
    have hreference : collector.reference [i.1] = collector.registerAll [i.1] := by
      simp only [Collector.reference, Collector.registerAll, h, visit_nil]
    rw [Size.text, hempty, isNumeric_eq_false i.2, hplain, hreference]
    rfl

theorem collectComponents_sizes (h : collector.definitions = []) (sizes : List Size) :
    collector.collectComponents (sizes.map Size.text) =
      (sizes.map Size.written, collector.registerAll (sizes.filterMap Size.name?)) := by
  induction sizes generalizing collector with
  | nil => rfl
  | cons size more ih =>
    have hdefinitions : (collector.registerAll size.name?.toList).definitions = [] := h
    have hrest := ih hdefinitions
    have hnames : (size :: more).filterMap Size.name? =
        size.name?.toList ++ more.filterMap Size.name? := by
      cases hname : size.name? <;> simp [hname]
    simp only [List.map_cons, Collector.collectComponents, collectComponent_size h, hrest, hnames,
      Collector.registerAll_append]

/-- Sizes with commas between them are collected one after the other. -/
theorem collect_sizes (h : collector.definitions = []) (sizes : List Size) :
    collector.collect (join [','] (sizes.map Size.text)) =
      (join [','] (sizes.map Size.written), collector.registerAll (sizes.filterMap Size.name?)) := by
  cases sizes with
  | nil => rfl
  | cons first more =>
    have hsplit : splitOn ',' (join [','] ((first :: more).map Size.text)) =
        (first :: more).map Size.text := by
      refine splitOn_join ?_
      intro size hsize
      obtain ⟨s, -, rfl⟩ := List.mem_map.mp (List.map_cons ▸ hsize)
      exact not_mem_of_all (all_size s) rfl
    have htrim : ((first :: more).map Size.text).map trim = (first :: more).map Size.text := by
      rw [List.map_map]
      exact List.map_congr_left fun size _ => trim_of_all (all_size size)
    rw [Collector.collect, hsplit, htrim, collectComponents_sizes h]

/-! ## Bodies -/

theorem memberOf_field (h : collector.definitions = []) (field : Field) :
    Body.memberOf collector field.dataType field.declared field.remark.text =
      (field.member, collector.registerAll field.extent.names) := by
  have hrest : (collector.registerAll (field.extent.dimensions.filterMap Size.name?)).definitions =
      [] := h
  simp only [Body.memberOf, Field.declared, collect_sizes h, collect_sizes hrest, Extent.names,
    List.filterMap_append, Collector.registerAll_append]
  rfl

theorem foldl_add_fields (owner : Structure) (howner : owner.members = []) (fields : List Field)
    (collector : Collector) (added : List Member) (h : collector.definitions = [])
    (hdistinct : (added.map Member.name ++ fields.map (·.name.1)).Nodup) :
    (fields.map Field.entry).foldl (Body.Assembly.add owner)
        { collector := collector, added := added } =
      { collector := collector.registerAll (fields.flatMap (·.extent.names))
        added := added ++ fields.map Field.member } := by
  induction fields generalizing collector added with
  | nil => simp [Collector.registerAll, Table.registerAll]
  | cons field more ih =>
    have hnew : ({ collector := collector, added := added } : Body.Assembly).contains owner
        field.declared.name = false := by
      have hno : ∀ m ∈ added, m.name ≠ field.name.1 := fun m hm =>
        (List.nodup_append.mp hdistinct).2.2 _ (List.mem_map_of_mem hm) _ List.mem_cons_self
      simpa [Body.Assembly.contains, Structure.contains, howner, Field.declared] using hno
    have hmore : ((added ++ [field.member]).map Member.name ++ more.map (·.name.1)).Nodup := by
      simpa [Field.member] using hdistinct
    rw [List.map_cons, List.foldl_cons, Field.entry, Body.add_variable hnew]
    simp only [memberOf_field h]
    rw [ih (collector.registerAll field.extent.names) _ h hmore]
    simp [Collector.registerAll_append]

end StructTables.Canonical
