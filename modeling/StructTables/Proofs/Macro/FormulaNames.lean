import StructTables.Proofs.Macro.DepthFirst
import StructTables.Proofs.Macro.Parallel

/-! # Names for formulas

The macros of formulas are numbered, and nobody keeps a source from using such a name itself. A collector
takes no notice of that, so the name of a formula is new as long as no name that the sizes come with,
or that captured values lead to from there, is one that is generated for a formula of theirs. -/

namespace StructTables.Macro
open Text

/-! ## Names of a source -/

/-- A name that one of the components mentions, or that captured values lead to from there. -/
def Sourced (definitions : List Definition) (components : List Text) (name : Text) : Prop :=
  ∃ mention ∈ components.flatMap mentionsOf,
    Relation.ReflTransGen (fun a b => b ∈ mentionsIn definitions a) mention name

/-- No name that comes with the components is one that is generated for a formula among them. -/
def AvoidsGenerated (group : Text) (definitions : List Definition) (components : List Text) : Prop :=
  ∀ name, Sourced definitions components name →
    ∀ number, 1 ≤ number → number ≤ (components.filter isFormula).length →
      name ≠ Collector.generatedName group number

section
variable {definitions wider : List Definition} {components others : List Text} {name group : Text}

theorem Sourced.mono (h : Sourced definitions components name)
    (hdefinitions : ∀ n, mentionsIn definitions n ⊆ mentionsIn wider n)
    (hcomponents : components ⊆ others) : Sourced wider others name := by
  obtain ⟨mention, hmention, hleads⟩ := h
  obtain ⟨component, hcomponent, hmention⟩ := List.mem_flatMap.mp hmention
  refine ⟨mention, List.mem_flatMap_of_mem (hcomponents hcomponent) hmention, ?_⟩
  exact Relation.ReflTransGen.mono (fun a _ hb => hdefinitions a hb) _ _ hleads

/-- What holds the mentions of the components, and of the values of all it holds, has every name that comes
with them. -/
theorem Sourced.mem_of_closed (h : Sourced definitions components name) (names : List Text)
    (hmentions : components.flatMap mentionsOf ⊆ names)
    (hclosed : ∀ n ∈ names, mentionsIn definitions n ⊆ names) : name ∈ names := by
  obtain ⟨mention, hmention, hleads⟩ := h
  induction hleads with
  | refl => exact hmentions hmention
  | tail _ hlead ih => exact hclosed _ ih hlead

theorem AvoidsGenerated.mono (others : List Text)
    (h : AvoidsGenerated group wider (components ++ others))
    (hdefinitions : ∀ n, mentionsIn definitions n ⊆ mentionsIn wider n) :
    AvoidsGenerated group definitions components := by
  intro name hsourced number hpos hle
  have hsourced := hsourced.mono hdefinitions (List.subset_append_left components others)
  refine h name hsourced number hpos (Nat.le_trans hle ?_)
  rw [List.filter_append, List.length_append]
  exact Nat.le_add_right _ _

end

/-! ## Calls -/

namespace Collector

/-- What a collector may be asked to do. -/
inductive Call where
  | define (name value : Text)
  | collect (size : Text)
  deriving DecidableEq

/-- The components of the size that a call comes with. -/
def Call.components : Call → List Text
  | .define .. => []
  | .collect size => (splitOn ',' size).map trim

def perform (collector : Collector) : Call → Collector
  | .define name value => collector.define name value
  | .collect size => (collector.collect size).2

/-- The collector for a group behind a sequence of calls. -/
def afterCalls (group : Text) (calls : List Call) : Collector := calls.foldl perform (forGroup group)

/-- What is known of a collector for a group behind components with formulas among them. -/
structure Numbers (group : Text) (components : List Text) (collector : Collector) : Prop where
  formulaGroup : collector.formulaGroup = some group
  formulaCount : collector.formulaCount = (components.filter isFormula).length
  nodup : collector.table.names.Nodup
  named : ∀ name ∈ collector.table.names, Sourced collector.definitions components name ∨
    ∃ number, number ≤ collector.formulaCount ∧ name = generatedName group number
  kept : AvoidsGenerated group collector.definitions components →
    (generated group 1 (components.filter isFormula)).Sublist collector.table.entries

variable {group : Text} {components : List Text} {collector : Collector}

theorem numbers_forGroup (group : Text) : Numbers (trim group) [] (forGroup group) :=
  ⟨rfl, rfl, List.nodup_nil, fun _ h => (List.not_mem_nil h).elim, fun _ => List.nil_sublist _⟩

/-! ## Components -/

/-- Everything that referring to the mentions of a component adds comes with this component. -/
theorem Numbers.named_reference (h : Numbers group components collector) {component : Text} :
    ∀ name ∈ (collector.reference (mentionsOf component)).table.names,
      Sourced collector.definitions (components ++ [component]) name ∨
        ∃ number, number ≤ collector.formulaCount ∧ name = generatedName group number := by
  intro name hname
  rw [reference, names_visit, List.mem_append, mem_names_added_iff, exists_route_iff] at hname
  rcases hname with hold | ⟨mention, hmention, -, hleads⟩
  · exact (h.named name hold).imp_left fun hsourced =>
      hsourced.mono (fun _ => List.Subset.refl _) (List.subset_append_left _ _)
  · exact .inl ⟨mention, List.mem_flatMap_of_mem (List.mem_append_right _ List.mem_cons_self) hmention,
      Relation.ReflTransGen.mono (fun _ _ hlead => hlead.1) _ _ hleads⟩

/-- The next generated name is a new one. -/
theorem Numbers.not_contains (h : Numbers group components collector) {formula : Text}
    (hformula : isFormula formula = true)
    (havoids : AvoidsGenerated group collector.definitions (components ++ [formula])) :
    (collector.reference (mentionsOf formula)).table.contains
      (generatedName group (collector.formulaCount + 1)) = false := by
  refine Bool.eq_false_iff.mpr fun hcontains => ?_
  rcases h.named_reference _ (Table.contains_iff.mp hcontains) with hsourced | ⟨number, hle, hsame⟩
  · refine havoids _ hsourced (collector.formulaCount + 1) (Nat.succ_pos _) ?_ rfl
    rw [h.formulaCount, List.filter_append, List.length_append]
    simp [hformula]
  · have hnumber := generatedName_injective hsame
    omega

theorem nodup_visit (definitions : List Definition) {table : Table} (h : table.names.Nodup)
    (stack : List Text) : (visit definitions table stack).names.Nodup := by
  rw [names_visit]
  refine List.nodup_append.mpr ⟨h, nodup_names_added table stack, ?_⟩
  rintro name hold other hadded rfl
  exact not_mem_names_of_added hadded hold

theorem Numbers.kept_reference (h : Numbers group components collector) {component : Text}
    (havoids : AvoidsGenerated group collector.definitions (components ++ [component])) :
    (generated group 1 (components.filter isFormula)).Sublist
      (collector.reference (mentionsOf component)).table.entries :=
  (h.kept (havoids.mono [component] fun _ => List.Subset.refl _)).trans
    (entries_prefix_visit collector.table (mentionsOf component)).sublist

theorem Numbers.next_of_formula (h : Numbers group components collector) {formula : Text}
    (hformula : isFormula formula = true) :
    Numbers group (components ++ [formula]) (collector.next formula) := by
  have hlast : [formula].filter isFormula = [formula] := List.filter_cons_of_pos hformula
  rw [next_of_generated h.formulaGroup hformula]
  refine ⟨h.formulaGroup, ?_, ?_, ?_, ?_⟩
  · rw [List.filter_append, hlast, List.length_append, ← h.formulaCount]
    rfl
  · exact Table.nodup_register _ _ _ (nodup_visit collector.definitions h.nodup _)
  · intro name hname
    rcases Table.mem_names_register.mp hname with hname | rfl
    · exact (h.named_reference name hname).imp_right fun ⟨number, hle, hsame⟩ =>
        ⟨number, Nat.le_succ_of_le hle, hsame⟩
    · exact .inr ⟨_, Nat.le_refl _, rfl⟩
  · intro havoids
    rw [Table.entries_register (h.not_contains hformula havoids), List.filter_append, hlast,
      generated_append, Nat.add_comm 1, ← h.formulaCount]
    exact (h.kept_reference havoids).append (List.Sublist.refl _)

theorem Numbers.next_of_written (h : Numbers group components collector) {component : Text}
    (hwritten : isFormula component = false) :
    Numbers group (components ++ [component]) (collector.next component) := by
  have hlast : (components ++ [component]).filter isFormula = components.filter isFormula := by
    rw [List.filter_append, List.filter_cons_of_neg (by simp [hwritten]), List.filter_nil,
      List.append_nil]
  rw [Collector.next_of_written (.inr hwritten)]
  refine ⟨h.formulaGroup, ?_, nodup_visit collector.definitions h.nodup _, h.named_reference, ?_⟩
  · rw [hlast]
    exact h.formulaCount
  · rw [hlast]
    exact h.kept_reference

theorem Numbers.next (h : Numbers group components collector) (component : Text) :
    Numbers group (components ++ [component]) (collector.next component) := by
  cases hformula : isFormula component with
  | true => exact h.next_of_formula hformula
  | false => exact h.next_of_written hformula

theorem Numbers.foldl_next (h : Numbers group components collector) (more : List Text) :
    Numbers group (components ++ more) (more.foldl Collector.next collector) := by
  induction more generalizing components collector with
  | nil => rwa [List.append_nil]
  | cons component more ih =>
    have hmore := ih (h.next component)
    rwa [List.append_assoc, List.singleton_append] at hmore

/-! ## Sequences of calls -/

theorem mentionsIn_subset_define (collector : Collector) (name value other : Text) :
    mentionsIn collector.definitions other ⊆
      mentionsIn (collector.define name value).definitions other := by
  unfold define
  split
  · exact List.Subset.refl _
  · rw [mentionsIn, mentionsIn, List.find?_append]
    cases collector.definitions.find? (·.name == other) with
    | none => exact List.nil_subset _
    | some d => exact List.Subset.refl _

theorem Numbers.define (h : Numbers group components collector) (name value : Text) :
    Numbers group components (collector.define name value) := by
  have hdefinitions := collector.mentionsIn_subset_define name value
  have hcollector := collector.define_eq name value
  generalize (collector.define name value).definitions = definitions at hdefinitions hcollector
  rw [hcollector]
  refine ⟨h.formulaGroup, h.formulaCount, h.nodup, fun n hn => ?_, fun havoids => h.kept ?_⟩
  · exact (h.named n hn).imp_left fun hsourced => hsourced.mono hdefinitions (List.Subset.refl _)
  · exact AvoidsGenerated.mono [] (by rwa [List.append_nil]) hdefinitions

theorem Numbers.perform (h : Numbers group components collector) (call : Call) :
    Numbers group (components ++ call.components) (collector.perform call) := by
  cases call with
  | define name value =>
    rw [Call.components, List.append_nil]
    exact h.define name value
  | collect size =>
    rw [Collector.perform, Sizing.collect_snd ⟨collector, size⟩]
    exact h.foldl_next _

theorem numbers_afterCalls (group : Text) (calls : List Call) :
    Numbers (trim group) (calls.flatMap Call.components) (afterCalls group calls) := by
  induction calls using List.reverseRecOn with
  | nil => exact numbers_forGroup group
  | append_singleton calls call ih =>
    rw [afterCalls, List.foldl_append, List.flatMap_append, List.flatMap_singleton]
    exact ih.perform call

theorem mentionsIn_subset_foldl_perform (collector : Collector) (calls : List Call) (name : Text) :
    mentionsIn collector.definitions name ⊆
      mentionsIn (calls.foldl perform collector).definitions name := by
  induction calls generalizing collector with
  | nil => exact List.Subset.refl _
  | cons call calls ih =>
    refine List.Subset.trans ?_ (ih (collector.perform call))
    cases call with
    | define other value => exact collector.mentionsIn_subset_define other value name
    | collect size => rw [perform, definitions_collect]; exact List.Subset.refl _

/-- What has been captured behind some of the calls is still there behind all of them. -/
theorem mentionsIn_subset_afterCalls (group : Text) (before after : List Call) (name : Text) :
    mentionsIn (afterCalls group before).definitions name ⊆
      mentionsIn (afterCalls group (before ++ after)).definitions name := by
  rw [afterCalls, afterCalls, List.foldl_append]
  exact mentionsIn_subset_foldl_perform _ after name

theorem mem_generated (group : Text) (earlier : List Text) {formula : Text}
    (h : isFormula formula = true) (later : List Text) :
    ⟨generatedName group ((earlier.filter isFormula).length + 1), Formula.written formula⟩ ∈
      generated group 1 ((earlier ++ formula :: later).filter isFormula) := by
  rw [List.filter_append, List.filter_cons_of_pos h, generated_append, generated, Nat.add_comm 1]
  exact List.mem_append_right _ List.mem_cons_self

theorem collectComponent_of_formula (hgroup : collector.formulaGroup = some group) {formula : Text}
    (h : isFormula formula = true) :
    (collector.collectComponent formula).1 =
      bound (generatedName group (collector.formulaCount + 1)) := by
  obtain ⟨hplain, hoperator⟩ := Bool.and_eq_true_iff.mp h
  rw [Bool.not_eq_true'] at hplain
  simp [collectComponent, hplain, hoperator, reference, hgroup]

theorem mentionsOf_of_formula {formula : Text} (h : isFormula formula = true) :
    mentionsOf formula = Formula.mentions formula := by
  obtain ⟨hplain, hoperator⟩ := Bool.and_eq_true_iff.mp h
  rw [Bool.not_eq_true'] at hplain
  simp [mentionsOf, hplain, hoperator]

end Collector

theorem Table.find?_of_mem {table : Table} (h : table.names.Nodup) {m : Macro}
    (hm : m ∈ table.entries) : table.find? m.name = some m := by
  cases hfind : table.find? m.name with
  | none => exact absurd (beq_self_eq_true m.name) (List.find?_eq_none.mp hfind m hm)
  | some other =>
    have hname : other.name = m.name := by simpa using List.find?_some hfind
    rw [List.inj_on_of_nodup_map h (List.mem_of_find?_eq_some hfind) hm hname]

open Collector

/-- Unless the names that come with the sizes are generated for formulas of theirs as well, every formula is
written as a name that is new when it is registered. So each has a macro of its own in the end, with the
formula as its value. -/
theorem generated_fresh (group : Text) (calls : List Call)
    (havoids : AvoidsGenerated (trim group) (afterCalls group calls).definitions
      (calls.flatMap Call.components)) :
    (∀ before size after earlier formula later, calls = before ++ .collect size :: after →
      (splitOn ',' size).map trim = earlier ++ formula :: later → isFormula formula = true →
      let collector := earlier.foldl next (afterCalls group before)
      let number := ((before.flatMap Call.components ++ earlier).filter isFormula).length + 1
      let name := generatedName (trim group) number
      (collector.reference (Formula.mentions formula)).table.contains name = false ∧
        (collector.collectComponent formula).1 = bound name ∧
        (afterCalls group calls).table.find? name = some ⟨name, Formula.written formula⟩) ∧
      (generated (trim group) 1 ((calls.flatMap Call.components).filter isFormula)).Sublist
        (afterCalls group calls).table.entries ∧
      (afterCalls group calls).table.names.Nodup := by
  have hlast := numbers_afterCalls group calls
  refine ⟨?_, hlast.kept havoids, hlast.nodup⟩
  intro before size after earlier formula later hcalls hsize hformula collector number name
  have hhere : Numbers (trim group) (before.flatMap Call.components ++ earlier) collector :=
    (numbers_afterCalls group before).foldl_next earlier
  have hnumber : number = collector.formulaCount + 1 := congrArg (· + 1) hhere.formulaCount.symm
  have hcomponents : calls.flatMap Call.components =
      before.flatMap Call.components ++ earlier ++ formula ::
        (later ++ after.flatMap Call.components) := by
    rw [hcalls, List.flatMap_append, List.flatMap_cons, Call.components, hsize]
    simp
  have hdefinitions : ∀ n, mentionsIn collector.definitions n ⊆
      mentionsIn (afterCalls group calls).definitions n := by
    intro n
    rw [definitions_foldl_next, hcalls]
    exact mentionsIn_subset_afterCalls group before _ n
  refine ⟨?_, ?_, ?_⟩
  · rw [hcomponents, List.append_cons] at havoids
    have hfresh := hhere.not_contains hformula (havoids.mono _ hdefinitions)
    rwa [mentionsOf_of_formula hformula, ← hnumber] at hfresh
  · rw [collectComponent_of_formula hhere.formulaGroup hformula, ← hnumber]
  · have hmem := hlast.kept havoids
    rw [hcomponents] at hmem
    exact Table.find?_of_mem hlast.nodup (hmem.subset (mem_generated (trim group) _ hformula _))

/-- A captured value may mention a name of the same form, as long as there are not that many formulas. -/
theorem generated_fresh_of_mentioned :
    let group := " HK".toList
    let before := [Call.define "N".toList "HK_CCDD_MACRO_3 + 1".toList, .collect "2*N,4".toList]
    let formula := "(M - N)".toList
    let name := "HK_CCDD_MACRO_2".toList
    let last := afterCalls group (before ++ [Call.collect formula])
    AvoidsGenerated (trim group) last.definitions
        ((before ++ [Call.collect formula]).flatMap Call.components) ∧
      isFormula formula = true ∧
      ((afterCalls group before).reference (Formula.mentions formula)).table.contains name = false ∧
      ((afterCalls group before).collectComponent formula).1 = bound name ∧
      last.table.find? name = some ⟨name, "(##M## - ##N##)".toList⟩ ∧
      last.table.contains "HK_CCDD_MACRO_3".toList = true := by
  intro group before formula name last
  have havoids : AvoidsGenerated (trim group) last.definitions
      ((before ++ [Call.collect formula]).flatMap Call.components) := by
    intro other hsourced number hpos hle
    have hother := hsourced.mem_of_closed ["N".toList, "M".toList, "HK_CCDD_MACRO_3".toList]
      (by decide +kernel) (by decide +kernel)
    have hcount : (((before ++ [Call.collect formula]).flatMap Call.components).filter
      isFormula).length = 2 := by decide +kernel
    have hapart : ∀ n ∈ ["N".toList, "M".toList, "HK_CCDD_MACRO_3".toList], ∀ i < 3, 1 ≤ i →
      n ≠ generatedName (trim group) i := by decide +kernel
    exact hapart other hother number (by omega) hpos
  have hformula : isFormula formula = true := by decide +kernel
  have hname : generatedName (trim group)
      (((before.flatMap Call.components ++ []).filter isFormula).length + 1) = name := by
    decide +kernel
  obtain ⟨hfresh, hwritten, hfound⟩ := (generated_fresh group _ havoids).1 before formula [] []
    formula [] rfl (by decide +kernel) hformula
  rw [hname] at hfresh hwritten hfound
  exact ⟨havoids, hformula, hfresh, hwritten, hfound, by decide +kernel⟩

/-- A name that the source uses itself is not new when a formula comes to it, and keeps its own value. -/
theorem generated_taken :
    let formula := "N+1".toList
    let name := generatedName "G".toList 1
    let collector := afterCalls "G".toList [.collect "G_CCDD_MACRO_1".toList]
    isFormula formula = true ∧
      (collector.reference (Formula.mentions formula)).table.contains name = true ∧
      (collector.collectComponent formula).1 = bound name ∧
      (collector.perform (.collect formula)).table.find? name = some ⟨name, placeholder⟩ ∧
      Formula.written formula ≠ placeholder := by
  decide +kernel

end StructTables.Macro
