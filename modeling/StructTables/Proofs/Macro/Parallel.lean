import StructTables.Proofs.Macro.Factoring
import StructTables.Proofs.Macro.Unknown

/-! # Collectors side by side

How a size is written out depends on the size and on the numbers of generated macros, never on the table
or on what has been captured. So two collectors that count formulas alike write the same, and their tables
can be compared component by component. -/

namespace StructTables.Macro
open Text

/-- Whether a component is one that a macro may be generated for. -/
def isFormula (component : Text) : Bool :=
  !(component.isEmpty || isNumeric component) && component.any Formula.isOperator

namespace Collector

variable {collector : Collector} {component : Text}

/-- Unless a macro is generated for it, a component only refers to what it mentions. -/
theorem next_of_written (h : collector.formulaGroup = none ∨ isFormula component = false) :
    collector.next component = collector.reference (mentionsOf component) := by
  have hnothing : collector.reference [] = collector := by rw [reference, visit]
  unfold next collectComponent mentionsOf
  by_cases hplain : (component.isEmpty || isNumeric component) = true
  · rw [if_pos hplain, if_pos hplain, hnothing]
  · rw [if_neg hplain, if_neg hplain]
    by_cases hbare : (!component.any Formula.isOperator) = true
    · rw [if_pos hbare, if_pos hbare]
    · rw [if_neg hbare, if_neg hbare]
      have hgroup : collector.formulaGroup = none := h.resolve_right fun hno => by
        simp only [Bool.not_eq_true, Bool.not_eq_false'] at hplain hbare
        simp [isFormula, hplain, hbare] at hno
      simp only [reference, hgroup]

theorem next_of_generated {group : Text} (hgroup : collector.formulaGroup = some group)
    (h : isFormula component = true) :
    collector.next component =
      { collector.reference (mentionsOf component) with
        table := (collector.reference (mentionsOf component)).table.register
          (generatedName group (collector.formulaCount + 1)) (Formula.written component)
        formulaCount := collector.formulaCount + 1 } := by
  obtain ⟨hplain, hformula⟩ := Bool.and_eq_true_iff.mp h
  rw [Bool.not_eq_true'] at hplain
  simp [next, collectComponent, mentionsOf, hplain, hformula, reference, hgroup]

/-! ## Writing -/

/-- Two collectors that write the next component in the same way. -/
structure WritesLike (a b : Collector) : Prop where
  formulaGroup : a.formulaGroup = b.formulaGroup
  formulaCount : a.formulaGroup ≠ none → a.formulaCount = b.formulaCount

variable {a b : Collector}

theorem WritesLike.marks_eq (h : a.WritesLike b) (component : Text) :
    a.marks component = b.marks component := by
  unfold marks
  rw [← h.formulaGroup]
  split
  · rfl
  · split
    · rfl
    · cases hgroup : a.formulaGroup with
      | none => rfl
      | some group => rw [h.formulaCount (by simp [hgroup])]

theorem WritesLike.next (h : a.WritesLike b) (component : Text) :
    (a.next component).WritesLike (b.next component) := by
  refine ⟨by rw [formulaGroup_next, formulaGroup_next, h.formulaGroup], fun hsome => ?_⟩
  rw [formulaGroup_next] at hsome
  obtain ⟨group, hgroup⟩ := Option.ne_none_iff_exists'.mp hsome
  by_cases hformula : isFormula component = true
  · rw [next_of_generated hgroup hformula, next_of_generated (h.formulaGroup ▸ hgroup) hformula]
    exact congrArg (· + 1) (h.formulaCount hsome)
  · rw [Bool.not_eq_true] at hformula
    rw [next_of_written (.inr hformula), next_of_written (.inr hformula)]
    exact h.formulaCount hsome

/-- Capturing adds to the definitions and leaves the rest as it is. -/
theorem define_eq (collector : Collector) (name value : Text) :
    collector.define name value =
      { collector with definitions := (collector.define name value).definitions } := by
  unfold define
  split <;> rfl

theorem WritesLike.define_left (h : a.WritesLike b) (name value : Text) :
    (a.define name value).WritesLike b := by
  rw [define_eq]
  exact ⟨h.formulaGroup, h.formulaCount⟩

theorem WritesLike.define_right (h : a.WritesLike b) (name value : Text) :
    a.WritesLike (b.define name value) := by
  rw [define_eq]
  exact ⟨h.formulaGroup, h.formulaCount⟩

/-! ## Sizes -/

/-- A relation between collectors that write alike, which lasts as long as both are given the same. -/
structure Parallel (R : Collector → Collector → Prop) : Prop where
  writes : ∀ {a b}, R a b → a.WritesLike b
  next : ∀ {a b}, R a b → ∀ component, R (a.next component) (b.next component)

variable {R : Collector → Collector → Prop}

theorem parallel_writesLike : Parallel WritesLike := ⟨id, WritesLike.next⟩

theorem Parallel.foldl_next (hR : Parallel R) (h : R a b) (components : List Text) :
    a.marksOf components = b.marksOf components ∧
      R (components.foldl Collector.next a) (components.foldl Collector.next b) := by
  induction components generalizing a b with
  | nil => exact ⟨rfl, h⟩
  | cons component more ih =>
    obtain ⟨hmarks, hlast⟩ := ih (hR.next h component)
    exact ⟨congrArg₂ List.cons ((hR.writes h).marks_eq component) hmarks, hlast⟩

/-- Both write a size in the same way. -/
theorem Parallel.collect (hR : Parallel R) (h : R a b) (size : Text) :
    (a.collect size).1 = (b.collect size).1 ∧ R (a.collect size).2 (b.collect size).2 := by
  obtain ⟨hmarks, hlast⟩ := hR.foldl_next h (Sizing.mk a size).components
  rw [Sizing.collect_snd ⟨a, size⟩, Sizing.collect_snd ⟨b, size⟩, ← Sizing.written_eq ⟨a, size⟩,
    ← Sizing.written_eq ⟨b, size⟩]
  refine ⟨?_, hlast⟩
  rw [Sizing.written, Sizing.marks, hmarks]
  rfl

/-! ## Tables -/

/-- The first collector captures nothing, and the second has at least the macros of the first. -/
structure Within (a b : Collector) : Prop where
  writes : a.WritesLike b
  definitions : a.definitions = []
  names : a.table.names ⊆ b.table.names

theorem Within.reference (h : a.Within b) (names : List Text) :
    (a.reference names).Within (b.reference names) := by
  refine ⟨⟨h.writes.formulaGroup, h.writes.formulaCount⟩, h.definitions, fun n hn => ?_⟩
  rcases mem_names_visit hn with hold | hname | ⟨d, hd, -⟩
  · exact names_subset_visit _ _ (h.names hold)
  · exact stack_subset_visit _ _ hname
  · rw [h.definitions] at hd
    cases hd

theorem parallel_within : Parallel Within where
  writes := Within.writes
  next := by
    intro a b h component
    have hwrites := h.writes.next component
    have href := h.reference (mentionsOf component)
    refine ⟨hwrites, (definitions_next a component).trans h.definitions, ?_⟩
    by_cases hwritten : a.formulaGroup = none ∨ isFormula component = false
    · rw [next_of_written hwritten, next_of_written (h.writes.formulaGroup ▸ hwritten)]
      exact href.names
    · obtain ⟨hsome, hformula⟩ := not_or.mp hwritten
      obtain ⟨group, hgroup⟩ := Option.ne_none_iff_exists'.mp hsome
      rw [Bool.not_eq_false] at hformula
      rw [next_of_generated hgroup hformula,
        next_of_generated (h.writes.formulaGroup ▸ hgroup) hformula, ← h.writes.formulaCount hsome]
      intro n hn
      refine Table.mem_names_register.mpr ((Table.mem_names_register.mp hn).imp_left fun hold => ?_)
      exact href.names hold

end Collector

/-! ## Tables one behind the other -/

/-- All macros of one table, then those of another that the first does not name. -/
def Table.followedBy (first second : Table) : Table :=
  ⟨first.entries ++ (second.restrict (! first.contains ·)).entries⟩

theorem Table.contains_followedBy (first second : Table) (name : Text) :
    (first.followedBy second).contains name = (first.contains name || second.contains name) := by
  have happend : (first.followedBy second).contains name =
      (first.contains name || (second.restrict (! first.contains ·)).contains name) :=
    List.any_append
  rw [happend, contains_restrict]
  cases first.contains name <;> rfl

theorem Table.followedBy_register (first second : Table) (name value : Text) :
    first.followedBy (second.register name value) =
      (first.followedBy second).register name value := by
  cases hfirst : first.contains name with
  | true =>
    have hold : (first.followedBy second).contains name = true := by
      rw [contains_followedBy, hfirst, Bool.true_or]
    rw [followedBy, restrict_register_of_dropped (by rw [hfirst]; rfl), register, if_pos hold]
    rfl
  | false =>
    have hcontains : (first.followedBy second).contains name = second.contains name := by
      rw [contains_followedBy, hfirst, Bool.false_or]
    rw [followedBy, restrict_register (by rw [hfirst]; rfl), register, register, contains_restrict,
      hfirst, hcontains, Bool.not_false, Bool.true_and]
    split
    · rfl
    · rw [followedBy, List.append_assoc]

theorem Table.followedBy_registerAll (first second : Table) (names : List Text) :
    first.followedBy (second.registerAll names) = (first.followedBy second).registerAll names :=
  (List.foldl_hom first.followedBy fun table name => (first.followedBy_register table name _).symm).symm

namespace Collector

/-- The first collector has the macros of the second behind others that were there before. Neither makes
macros of formulas or captures anything. -/
structure Continues (first : Table) (a b : Collector) : Prop where
  formulaGroup : a.formulaGroup = none ∧ b.formulaGroup = none
  definitions : a.definitions = [] ∧ b.definitions = []
  table : a.table = first.followedBy b.table

theorem parallel_continues (first : Table) : Parallel (Continues first) where
  writes := fun h =>
    ⟨h.formulaGroup.1.trans h.formulaGroup.2.symm, fun hsome => absurd h.formulaGroup.1 hsome⟩
  next := by
    intro a b h component
    rw [next_of_written (.inl h.formulaGroup.1), next_of_written (.inl h.formulaGroup.2)]
    refine ⟨h.formulaGroup, h.definitions, ?_⟩
    simp only [reference, h.definitions, h.table, visit_nil, Table.followedBy_registerAll]

end Collector
end StructTables.Macro
