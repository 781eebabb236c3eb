import StructTables.Proofs.Macro.Account

/-! # Macros in use

The sizes that a collector was given tell what its table has to hold. The names that a source would
have to avoid for that can only be told once all of it is read, so that it does avoid them is kept as
a condition on the way. -/

namespace StructTables.Macro
open Text

/-- The collector is accounted for by the sizes that it was given, unless one of these or a captured
definition mentions a generated name. -/
structure Uses (group : Option Text) (collector : Collector) (sizings : List Sizing) : Prop where
  formulaGroup : collector.formulaGroup = group
  accounted : (∀ sizing ∈ sizings, ∀ n ∈ sizing.mentions, isUngenerated group n) →
    (∀ d ∈ collector.definitions, ∀ n ∈ d.mentions, isUngenerated group n) →
    Accounted collector (sizings.flatMap Sizing.names)

variable {group : Option Text} {collector : Collector} {sizings : List Sizing}

theorem uses_nothing (group : Option Text) : Uses group { formulaGroup := group } [] := by
  refine ⟨rfl, fun _ _ => ⟨?_, ?_, ?_, ?_, ?_, ?_⟩⟩ <;> simp [AllCaptured, Table.names]

theorem Uses.collect (h : Uses group collector sizings) (size : Text) :
    Uses group (collector.collect size).2 (sizings ++ [⟨collector, size⟩]) := by
  obtain ⟨rfl, haccounted⟩ := h
  refine ⟨Collector.formulaGroup_collect collector size, fun hsizings hdefinitions => ?_⟩
  rw [Collector.definitions_collect] at hdefinitions
  rw [List.flatMap_append, List.flatMap_singleton]
  refine (haccounted ?_ hdefinitions).collect (hsizings _ ?_) hdefinitions
  · exact fun sizing hs => hsizings sizing (List.mem_append_left _ hs)
  · exact List.mem_append_right _ List.mem_cons_self

theorem Collector.definitions_subset_define (collector : Collector) (name value : Text) :
    collector.definitions ⊆ (collector.define name value).definitions := by
  unfold Collector.define
  split
  · exact List.Subset.refl _
  · exact List.subset_append_left _ _

theorem Uses.define (h : Uses group collector sizings) (name value : Text) :
    Uses group (collector.define name value) sizings := by
  have hgroup : (collector.define name value).formulaGroup = collector.formulaGroup := by
    unfold Collector.define
    split <;> rfl
  have hsubset := collector.definitions_subset_define name value
  refine ⟨hgroup.trans h.formulaGroup, fun hsizings hdefinitions => ?_⟩
  exact (h.accounted hsizings fun d hd => hdefinitions d (hsubset hd)).define name value

end StructTables.Macro
