import StructTables.Proofs.Macro.Registering
import StructTables.Proofs.Macro.Resolving
import StructTables.Proofs.Text.OneLine

/-! # The texts of macros

A collector that is given sizes on one line writes them on one line, and so it does with what it
registers. -/

namespace StructTables.Macro
open Text

theorem Formula.oneLine_written {t : Text} (h : OneLine t) : OneLine (written t) := by
  induction t using wordInduction with
  | nil => exact oneLine_nil
  | other c r hc ih =>
    obtain ⟨hne, hr⟩ := oneLine_cons.mp h
    rw [written_other hc]
    exact oneLine_cons.mpr ⟨hne, ih hr⟩
  | word w r hne hw hr ih =>
    obtain ⟨hword, hrest⟩ := oneLine_append.mp h
    rw [written_word hne hw hr]
    refine oneLine_append.mpr ⟨?_, ih hrest⟩
    split
    · exact oneLine_append.mpr ⟨oneLine_append.mpr ⟨by decide, hword⟩, by decide⟩
    · exact hword

theorem oneLine_of_mem_mentions {t n : Text} (h : n ∈ Formula.mentions t) : OneLine n :=
  not_mem_of_all (all_of_mem_mentions h).2 rfl

theorem oneLine_of_mem_mentionsOf {component n : Text} (h : OneLine component)
    (hn : n ∈ mentionsOf component) : OneLine n := by
  unfold mentionsOf at hn
  split at hn
  · cases hn
  · split at hn
    · exact List.mem_singleton.mp hn ▸ h
    · exact oneLine_of_mem_mentions hn

theorem oneLine_bound {n : Text} (h : OneLine n) : OneLine (bound n) :=
  oneLine_append.mpr ⟨oneLine_append.mpr ⟨by decide, h⟩, by decide⟩

theorem oneLine_generatedName {group : Text} (h : OneLine group) (number : Nat) :
    OneLine (Collector.generatedName group number) :=
  oneLine_append.mpr ⟨oneLine_append.mpr ⟨h, by decide⟩,
    not_mem_of_all (Collector.all_ofNat number) rfl⟩

namespace Collector

variable {collector : Collector}

/-- A collector with nothing but texts on one line to register, or registered. -/
structure Unbroken (collector : Collector) : Prop where
  admits : collector.Admits OneLine OneLine
  table : collector.table.Holds OneLine OneLine

theorem unbroken_nothing {group : Option Text} (h : ∀ g, group = some g → OneLine g) :
    Unbroken { formulaGroup := group } where
  admits :=
    { placeholder := by decide
      value := List.forall_mem_nil _
      mention := List.forall_mem_nil _
      generated := fun g hg number => oneLine_generatedName (h g hg) number }
  table := List.forall_mem_nil _

theorem oneLine_collectComponent (h : collector.Admits OneLine OneLine) {component : Text}
    (hcomponent : OneLine component) : OneLine (collector.collectComponent component).1 := by
  unfold collectComponent
  split
  · exact hcomponent
  · split
    · exact oneLine_bound hcomponent
    · cases hgroup : collector.formulaGroup with
      | none => simpa [reference, hgroup] using Formula.oneLine_written hcomponent
      | some group => simpa [reference, hgroup] using oneLine_bound (h.generated group hgroup _)

theorem oneLine_collectComponents (h : collector.Admits OneLine OneLine) {components : List Text}
    (hcomponents : ∀ component ∈ components, OneLine component) :
    ∀ text ∈ (collector.collectComponents components).1, OneLine text := by
  induction components generalizing collector with
  | nil => exact fun text ht => nomatch ht
  | cons component more ih =>
    obtain ⟨hfirst, hmore⟩ := List.forall_mem_cons.mp hcomponents
    exact List.forall_mem_cons.mpr
      ⟨oneLine_collectComponent h hfirst, ih (h.next component) hmore⟩

theorem Unbroken.collect (h : collector.Unbroken) {size : Text} (hsize : OneLine size) :
    OneLine (collector.collect size).1 ∧ (collector.collect size).2.Unbroken := by
  let sizing : Sizing := ⟨collector, size⟩
  have hcomponents : ∀ component ∈ sizing.components, OneLine component :=
    fun component hc => sizing.not_mem_component hsize hc
  refine ⟨oneLine_join (by decide) (oneLine_collectComponents h.admits hcomponents),
    admits_collect_iff.mpr h.admits, ?_⟩
  exact collect_keeps Table.Holds.register h.admits (fun component hc =>
    ⟨fun n hn => oneLine_of_mem_mentionsOf (hcomponents component hc) hn,
      fun _ => Formula.oneLine_written (hcomponents component hc)⟩) h.table

theorem Unbroken.define (h : collector.Unbroken) (name : Text) {value : Text}
    (hvalue : OneLine value) : (collector.define name value).Unbroken := by
  unfold Collector.define
  split
  · exact h
  · refine ⟨⟨h.admits.placeholder, ?_, ?_, h.admits.generated⟩, h.table⟩
    · refine List.forall_mem_append.mpr ⟨h.admits.value, List.forall_mem_singleton.mpr ?_⟩
      unfold Definition.ofText
      dsimp only
      split
      · exact hvalue.trim
      · exact Formula.oneLine_written hvalue.trim
    · refine List.forall_mem_append.mpr ⟨h.admits.mention, List.forall_mem_singleton.mpr ?_⟩
      rw [← mentions_value_ofText]
      exact fun n hn => oneLine_of_mem_mentions hn

end Collector
end StructTables.Macro
