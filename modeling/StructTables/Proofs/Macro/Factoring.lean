import StructTables.Proofs.Macro.Generated
import StructTables.Proofs.Text.Trim

/-! # Factoring formulas out

Of two collectors that take the same sizes, one may leave the formulas in them and the other make a
macro of each. Their tables differ in the generated macros alone, and the sizes of the one come from
those of the other when the formulas are put back. -/

namespace StructTables.Macro
open Text Collector

/-! ## Parts of a table -/

/-- The entries of the names that pass a test. -/
def Table.restrict (keep : Text → Bool) (table : Table) : Table :=
  ⟨table.entries.filter fun entry => keep entry.name⟩

section
variable {keep : Text → Bool} {table : Table} {name : Text}

theorem Table.contains_restrict :
    (table.restrict keep).contains name = (keep name && table.contains name) := by
  rw [contains, contains, restrict, List.any_filter, Bool.eq_iff_iff, Bool.and_eq_true]
  simp only [List.any_eq_true, Bool.and_eq_true, beq_iff_eq]
  constructor
  · rintro ⟨entry, he, hkeep, rfl⟩
    exact ⟨hkeep, entry, he, rfl⟩
  · rintro ⟨hkeep, entry, he, rfl⟩
    exact ⟨entry, he, hkeep, rfl⟩

theorem Table.restrict_register (h : keep name = true) (value : Text) :
    (table.register name value).restrict keep = (table.restrict keep).register name value := by
  unfold register
  rw [contains_restrict, h, Bool.true_and]
  split
  · rfl
  · simp [restrict, h]

theorem Table.restrict_register_of_dropped (h : keep name = false) (value : Text) :
    (table.register name value).restrict keep = table.restrict keep := by
  unfold register
  split
  · rfl
  · simp [restrict, h]

variable {definitions : List Definition} {stack : List Text}

theorem visit_of_contains (h : table.contains name = true) :
    visit definitions table (name :: stack) = visit definitions table stack := by
  rw [visit, dif_pos h]

theorem visit_of_unknown (h : table.contains name = false)
    (hfind : definitions.find? (·.name == name) = none) :
    visit definitions table (name :: stack) =
      visit definitions (table.register name placeholder) stack := by
  rw [visit, dif_neg (by simp [h])]
  split
  case h_1 => rfl
  case h_2 d hd => rw [hfind] at hd; cases hd

theorem visit_of_known {d : Definition} (h : table.contains name = false)
    (hfind : definitions.find? (·.name == name) = some d) :
    visit definitions table (name :: stack) =
      visit definitions (table.register name d.value) (d.mentions ++ stack) := by
  rw [visit, dif_neg (by simp [h])]
  split
  case h_1 hnone => rw [hfind] at hnone; cases hnone
  case h_2 e he =>
    rw [hfind] at he
    cases he
    rfl

/-- What references register of the names that pass the test does not depend on the others, if these
are neither referred to nor mentioned. -/
theorem restrict_visit (hdefinitions : ∀ d ∈ definitions, ∀ n ∈ d.mentions, keep n = true)
    (hstack : ∀ n ∈ stack, keep n = true) :
    (visit definitions table stack).restrict keep =
      visit definitions (table.restrict keep) stack := by
  fun_induction visit definitions table stack with
  | case1 table => rw [visit]
  | case2 table name stack hnew ih =>
    obtain ⟨hname, hstack⟩ := List.forall_mem_cons.mp hstack
    rw [visit_of_contains (by rw [Table.contains_restrict, hname, hnew]; rfl), ih hstack]
  | case3 table name stack hnew hfind ih =>
    obtain ⟨hname, hstack⟩ := List.forall_mem_cons.mp hstack
    rw [visit_of_unknown (by simp [Table.contains_restrict, hnew]) hfind, ih hstack,
      Table.restrict_register hname]
  | case4 table name stack hnew d hfind ih =>
    obtain ⟨hname, hstack⟩ := List.forall_mem_cons.mp hstack
    have hmentions : ∀ n ∈ d.mentions ++ stack, keep n = true := by
      intro n hn
      exact (List.mem_append.mp hn).elim
        (hdefinitions d (List.mem_of_find?_eq_some hfind) n) (hstack n)
    rw [visit_of_known (by simp [Table.contains_restrict, hnew]) hfind, ih hmentions,
      Table.restrict_register hname]

theorem restrict_visit_of_dropped
    (hdefinitions : ∀ d ∈ definitions, ∀ n ∈ d.mentions, keep n = false)
    (hstack : ∀ n ∈ stack, keep n = false) :
    (visit definitions table stack).restrict keep = table.restrict keep := by
  fun_induction visit definitions table stack with
  | case1 table => rfl
  | case2 table name stack hnew ih => exact ih (List.forall_mem_cons.mp hstack).2
  | case3 table name stack hnew hfind ih =>
    obtain ⟨hname, hstack⟩ := List.forall_mem_cons.mp hstack
    rw [ih hstack, Table.restrict_register_of_dropped hname]
  | case4 table name stack hnew d hfind ih =>
    obtain ⟨hname, hstack⟩ := List.forall_mem_cons.mp hstack
    have hmentions : ∀ n ∈ d.mentions ++ stack, keep n = false := by
      intro n hn
      exact (List.mem_append.mp hn).elim
        (hdefinitions d (List.mem_of_find?_eq_some hfind) n) (hstack n)
    rw [ih hmentions, Table.restrict_register_of_dropped hname]

end

/-! ## Two collectors -/

/-- A collector that makes macros of formulas, beside one that leaves them as they stand. -/
structure Factored (group : Text) (formulas : List Text) (plain factored : Collector) : Prop where
  definitions : factored.definitions = plain.definitions
  ungenerated : ∀ d ∈ plain.definitions, ∀ n ∈ d.mentions, isGenerated group n = false
  formulaGroup : plain.formulaGroup = none ∧ factored.formulaGroup = some group
  formulaCount : factored.formulaCount = formulas.length
  unmarked : ∀ formula ∈ formulas, isUnmarked group formula (Formula.mentions formula)
  kept : factored.table.restrict (! isGenerated group ·) = plain.table
  added : factored.table.restrict (isGenerated group) = ⟨generated group 1 formulas⟩

variable {group : Text} {formulas : List Text} {plain factored : Collector}

theorem Factored.reference (h : Factored group formulas plain factored) {names : List Text}
    (hnames : ∀ n ∈ names, isGenerated group n = false) :
    Factored group formulas (plain.reference names) (factored.reference names) := by
  refine ⟨h.definitions, h.ungenerated, h.formulaGroup, h.formulaCount, h.unmarked, ?_, ?_⟩
  · rw [Collector.reference, Collector.reference, h.definitions, ← h.kept]
    refine restrict_visit (fun d hd n hn => ?_) fun n hn => ?_
    · rw [h.ungenerated d hd n hn, Bool.not_false]
    · rw [hnames n hn, Bool.not_false]
  · rw [Collector.reference, h.definitions, ← h.added]
    exact restrict_visit_of_dropped h.ungenerated hnames

theorem lt_of_mem_generated {number i : Nat} {formulas : List Text}
    (h : generatedName group i ∈ (generated group number formulas).map Macro.name) :
    i < number + formulas.length := by
  induction formulas generalizing number with
  | nil => cases h
  | cons formula more ih =>
    rw [generated, List.map_cons] at h
    rw [List.length_cons]
    rcases List.mem_cons.mp h with heq | h
    · have hsame := generatedName_injective heq
      omega
    · have hlt := ih h
      omega

/-- The next number gives a new name. -/
theorem Factored.not_contains (h : Factored group formulas plain factored) :
    factored.table.contains (generatedName group (factored.formulaCount + 1)) = false := by
  refine Bool.eq_false_iff.mpr fun hc => ?_
  have hadded : (factored.table.restrict (isGenerated group)).contains
      (generatedName group (factored.formulaCount + 1)) = true := by
    rw [Table.contains_restrict, isGenerated_generatedName, hc, Bool.and_self]
  rw [h.added, Table.contains_iff] at hadded
  have hlt := lt_of_mem_generated hadded
  rw [h.formulaCount] at hlt
  omega

theorem Factored.generate (h : Factored group formulas plain factored) {formula : Text}
    (hformula : isUnmarked group formula (Formula.mentions formula)) :
    Factored group (formulas ++ [formula]) plain
      { factored with
        table := factored.table.register (generatedName group (factored.formulaCount + 1))
          (Formula.written formula)
        formulaCount := factored.formulaCount + 1 } := by
  have hname := isGenerated_generatedName group (factored.formulaCount + 1)
  refine ⟨h.definitions, h.ungenerated, h.formulaGroup, ?_, ?_, ?_, ?_⟩
  · rw [List.length_append, ← h.formulaCount]
    rfl
  · exact List.forall_mem_append.mpr ⟨h.unmarked, List.forall_mem_singleton.mpr hformula⟩
  · rw [Table.restrict_register_of_dropped (by rw [hname]; rfl), h.kept]
  · have hadded := h.added
    rw [Table.restrict, Table.mk.injEq] at hadded
    rw [Table.restrict, Table.entries_register h.not_contains, List.filter_append, hadded,
      generated_append, Nat.add_comm 1, ← h.formulaCount]
    simp [generated, hname]

theorem Factored.isDefined_eq (h : Factored group formulas plain factored) (name : Text) :
    factored.isDefined name = plain.isDefined name := by
  rw [isDefined, isDefined, h.definitions]

/-- Both capture the same definitions. -/
theorem Factored.define (h : Factored group formulas plain factored) {name value : Text}
    (hdefinitions : ∀ d ∈ (plain.define name value).definitions, ∀ n ∈ d.mentions,
      isGenerated group n = false) :
    Factored group formulas (plain.define name value) (factored.define name value) := by
  unfold Collector.define at hdefinitions ⊢
  rw [h.isDefined_eq]
  split
  case isTrue => exact h
  case isFalse hnew =>
    rw [if_neg hnew] at hdefinitions
    exact ⟨congrArg (· ++ _) h.definitions, hdefinitions, h.formulaGroup, h.formulaCount, h.unmarked,
      h.kept, h.added⟩

/-! ## Components -/

theorem fits_plain {t : Text} (h : '#' ∉ t) : Fits group [.plain t] :=
  ⟨⟨h, trivial⟩, fun _ hmem => by simp at hmem⟩

theorem fits_name {n : Text} (h : '#' ∉ n) : Fits group [.name n] :=
  ⟨⟨rfl, h, trivial⟩, fun _ hmem => by simpa using Eq.symm (List.mem_singleton.mp hmem)⟩

/-- A component is written out by both in the same way, but for a formula: in its place one of them
writes the macro that it generates. -/
theorem Factored.next (h : Factored group formulas plain factored) (hgroup : '#' ∉ group)
    {component : Text} (hcomponent : isUnmarked group component (mentionsOf component)) :
    ∃ more, Factored group (formulas ++ more) (plain.next component) (factored.next component) ∧
      Fits group (factored.marks component) ∧
      ∀ rest, resolved group 1 (formulas ++ more ++ rest) (factored.marks component) =
        plain.marks component := by
  obtain ⟨hhash, hmentions⟩ := hcomponent
  unfold mentionsOf at hmentions
  unfold Collector.next Collector.collectComponent Collector.marks
  split at hmentions
  case isTrue hplain =>
    simp only [if_pos hplain]
    refine ⟨[], by rwa [List.append_nil], fits_plain hhash, fun rest => ?_⟩
    exact resolved_of_ne (by simp) _ _
  case isFalse hnot =>
    simp only [if_neg hnot]
    split at hmentions
    case isTrue hbare =>
      simp only [if_pos hbare]
      refine ⟨[], ?_, fits_name hhash, fun rest => ?_⟩
      · rw [List.append_nil]
        exact h.reference hmentions
      · refine resolved_of_ne (fun number heq => ?_) _ _
        have hno := hmentions component List.mem_cons_self
        rw [show component = generatedName group number by simpa using heq,
          isGenerated_generatedName] at hno
        cases hno
    case isFalse hformula =>
      have hunmarked : isUnmarked group component (Formula.mentions component) :=
        ⟨hhash, hmentions⟩
      -- both register the names of the formula, then one of them the macro for it
      have hgenerate := (h.reference hmentions).generate hunmarked
      simp only [Collector.reference, h.formulaGroup.1, h.formulaGroup.2] at hgenerate
      simp only [if_neg hformula, Collector.reference, h.formulaGroup.1, h.formulaGroup.2]
      refine ⟨[component], hgenerate, fits_name (hash_not_mem_generatedName hgroup _), fun rest => ?_⟩
      rw [h.formulaCount, List.append_assoc, Nat.add_comm]
      exact resolved_generatedName hunmarked 1 formulas rest

theorem Factored.foldl_next (hgroup : '#' ∉ group) {components : List Text}
    (h : Factored group formulas plain factored)
    (hcomponents : ∀ component ∈ components, isUnmarked group component (mentionsOf component)) :
    ∃ more, Factored group (formulas ++ more) (components.foldl Collector.next plain)
        (components.foldl Collector.next factored) ∧
      (∀ marks ∈ factored.marksOf components, Fits group marks) ∧
      ∀ rest, (factored.marksOf components).map (resolved group 1 (formulas ++ more ++ rest)) =
        plain.marksOf components := by
  induction components generalizing formulas plain factored with
  | nil => exact ⟨[], by rwa [List.append_nil], by simp [marksOf], fun _ => rfl⟩
  | cons component components ih =>
    obtain ⟨hfirst, hmore⟩ := List.forall_mem_cons.mp hcomponents
    obtain ⟨new, hnext, hfits, hresolved⟩ := h.next hgroup hfirst
    obtain ⟨more, hlast, hfitsMore, hresolvedMore⟩ := ih hnext hmore
    refine ⟨new ++ more, by rwa [← List.append_assoc], ?_, fun rest => ?_⟩
    · rw [marksOf]
      exact List.forall_mem_cons.mpr ⟨hfits, hfitsMore⟩
    · rw [marksOf, marksOf, List.map_cons, ← List.append_assoc formulas, hresolvedMore rest,
        List.append_assoc (formulas ++ new), hresolved]

/-! ## Sizes -/

/-- A table of generated macros that begins with those of the given formulas. -/
def Extends (group : Text) (formulas : List Text) (table : Table) : Prop :=
  ∃ rest, table = ⟨generated group 1 (formulas ++ rest)⟩ ∧
    ∀ formula ∈ formulas ++ rest, isUnmarked group formula (Formula.mentions formula)

theorem Extends.of_append {more : List Text} {table : Table}
    (h : Extends group (formulas ++ more) table) : Extends group formulas table := by
  obtain ⟨rest, htable, hunmarked⟩ := h
  rw [List.append_assoc] at htable hunmarked
  exact ⟨more ++ rest, htable, hunmarked⟩

theorem Factored.extends (h : Factored group formulas plain factored) :
    Extends group formulas (factored.table.restrict (isGenerated group)) := by
  refine ⟨[], ?_, ?_⟩ <;> rw [List.append_nil]
  · exact h.added
  · exact h.unmarked

theorem isUnmarked_of_mem_components (sizing : Sizing)
    (h : isUnmarked group sizing.size sizing.mentions) {component : Text}
    (hc : component ∈ sizing.components) :
    isUnmarked group component (mentionsOf component) := by
  refine ⟨fun hmem => h.1 ?_, fun n hn => h.2 n (List.mem_flatMap_of_mem hc hn)⟩
  obtain ⟨piece, hpiece, rfl⟩ := List.mem_map.mp hc
  exact mem_of_mem_piecesBetween hpiece (mem_of_mem_trim hmem)

/-- A size comes out of both in the same way, once the values of all generated macros are put for
their names. -/
theorem Factored.collect (h : Factored group formulas plain factored) (hgroup : '#' ∉ group)
    {size : Text} (hsize : isUnmarked group size (Sizing.mk plain size).mentions) :
    ∃ more, Factored group (formulas ++ more) (plain.collect size).2 (factored.collect size).2 ∧
      ∀ table, Extends group (formulas ++ more) table →
        table.substitute (factored.collect size).1 = (plain.collect size).1 := by
  obtain ⟨more, hnext, hfits, hresolved⟩ := h.foldl_next hgroup fun component hc =>
    isUnmarked_of_mem_components ⟨plain, size⟩ hsize hc
  refine ⟨more, ?_, fun table htable => ?_⟩
  · rwa [Sizing.collect_snd ⟨plain, size⟩, Sizing.collect_snd ⟨factored, size⟩]
  · obtain ⟨rest, rfl, hunmarked⟩ := htable
    rw [← Sizing.written_eq ⟨factored, size⟩, ← Sizing.written_eq ⟨plain, size⟩]
    exact (substitute_generated hgroup hunmarked 1 hfits).trans
      (congrArg (fun marks => join [','] (marks.map (·.flatMap Mark.written))) (hresolved rest))

end StructTables.Macro
