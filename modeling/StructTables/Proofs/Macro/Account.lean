import StructTables.Proofs.Macro.Closure
import StructTables.Proofs.Macro.Sizing

/-! # Accounting for a table

A table is accounted for by some names if it holds these, all that the values in it mention, and
nothing that cannot be reached from them. Collecting a size keeps that, with the names that it puts
between delimiters added, as long as no source mentions a name that is generated for a formula. -/

namespace StructTables.Macro
open Text

theorem generatedName_injective {group : Text} {i j : Nat}
    (h : Collector.generatedName group i = Collector.generatedName group j) : i = j := by
  have hdigits : Nat.toDigits 10 i = Nat.toDigits 10 j := List.append_cancel_left h
  calc
    i = Nat.ofDigitChars 10 (Nat.toDigits 10 i) 0 := Nat.ofDigitChars_ten_toDigits.symm
    _ = Nat.ofDigitChars 10 (Nat.toDigits 10 j) 0 := by rw [hdigits]
    _ = j := Nat.ofDigitChars_ten_toDigits

/-- A value as tables hold them: a number, or a text with the names that it mentions written. -/
def isWritten (value : Text) : Prop := isNumeric value = true ∨ ∃ t, value = Formula.written t

theorem AllCaptured.isWritten_value {definitions : List Definition} (h : AllCaptured definitions)
    {d : Definition} (hd : d ∈ definitions) : isWritten d.value := by
  obtain ⟨name, value, rfl⟩ := h d hd
  unfold Definition.ofText
  cases hn : isNumeric (trim value) with
  | true => exact .inl (by simp [hn])
  | false => exact .inr ⟨trim value, by simp [hn]⟩

theorem isWritten_visit {definitions : List Definition} (hcaptured : AllCaptured definitions)
    (table : Table) (stack : List Text) (h : ∀ entry ∈ table.entries, isWritten entry.value) :
    ∀ entry ∈ (visit definitions table stack).entries, isWritten entry.value := by
  have hregister : ∀ (table : Table) (name value : Text), isWritten value →
      (∀ entry ∈ table.entries, isWritten entry.value) →
      ∀ entry ∈ (table.register name value).entries, isWritten entry.value := by
    intro table name value hv h entry he
    unfold Table.register at he
    split at he
    · exact h entry he
    · rcases List.mem_append.mp he with he | he
      · exact h entry he
      · exact List.mem_singleton.mp he ▸ hv
  fun_induction visit definitions table stack with
  | case1 table => exact h
  | case2 table name stack _ ih => exact ih h
  | case3 table name stack _ _ ih => exact ih (hregister _ _ _ (.inl (by decide)) h)
  | case4 table name stack _ d hfind ih =>
    exact ih (hregister _ _ _ (hcaptured.isWritten_value (List.mem_of_find?_eq_some hfind)) h)

/-! ## Accounts -/

/-- A name that is not generated for a formula of the group, if formulas become macros. -/
def isUngenerated (group : Option Text) (n : Text) : Prop :=
  ∀ g number, group = some g → n ≠ Collector.generatedName g number

structure Accounted (collector : Collector) (roots : List Text) : Prop where
  captured : AllCaptured collector.definitions
  written : ∀ entry ∈ collector.table.entries, isWritten entry.value
  rooted : ∀ n ∈ roots, n ∈ collector.table.names
  closed : ∀ entry ∈ collector.table.entries, ∀ n ∈ Formula.mentions entry.value,
    n ∈ collector.table.names
  reached : ∀ n ∈ collector.table.names, ∃ root ∈ roots, collector.table.Reaches root n
  numbered : ∀ group number, collector.formulaGroup = some group →
    Collector.generatedName group number ∈ collector.table.names → number ≤ collector.formulaCount

variable {collector : Collector} {roots : List Text}

theorem Accounted.reference (h : Accounted collector roots) {names : List Text}
    (hnames : ∀ n ∈ names, isUngenerated collector.formulaGroup n)
    (hdefinitions : ∀ d ∈ collector.definitions, ∀ n ∈ d.mentions,
      isUngenerated collector.formulaGroup n) :
    Accounted (collector.reference names) (roots ++ names) := by
  refine ⟨h.captured, isWritten_visit h.captured _ _ h.written, ?_, ?_, ?_, ?_⟩
  · intro n hn
    rcases List.mem_append.mp hn with hn | hn
    · exact names_subset_visit _ _ (h.rooted n hn)
    · exact stack_subset_visit _ _ hn
  · exact visit_closed h.captured _ _ fun entry he n hn => .inl (h.closed entry he n hn)
  · intro n hn
    rcases visit_reached h.captured _ _ n hn with hold | ⟨s, hs, hr⟩
    · obtain ⟨root, hroot, hr⟩ := h.reached n hold
      exact ⟨root, List.mem_append_left _ hroot, hr.mono (entries_subset_visit _ _)⟩
    · exact ⟨s, List.mem_append_right _ hs, hr⟩
  · intro group number hgroup hn
    rcases mem_names_visit hn with hold | hs | ⟨d, hd, hm⟩
    · exact h.numbered group number hgroup hold
    · exact absurd rfl (hnames _ hs group number hgroup)
    · exact absurd rfl (hdefinitions d hd _ hm group number hgroup)

/-- Once the names of a formula are registered, a macro for the formula stands for all of them. -/
theorem Accounted.generate {component group : Text}
    (h : Accounted collector (roots ++ Formula.mentions component))
    (hgroup : collector.formulaGroup = some group) :
    let number := collector.formulaCount + 1
    let name := Collector.generatedName group number
    Accounted
      { collector with
        table := collector.table.register name (Formula.written component)
        formulaCount := number }
      (roots ++ [name]) := by
  intro number name
  have hfresh : collector.table.contains name = false := by
    refine Bool.eq_false_iff.mpr ?_
    intro hc
    have hle := h.numbered group number hgroup (Table.contains_iff.mp hc)
    omega
  have hentries := Table.entries_register hfresh (Formula.written component)
  have hsubset := collector.table.entries_subset_register name (Formula.written component)
  refine ⟨h.captured, ?_, ?_, ?_, ?_, ?_⟩
  · intro entry he
    rw [hentries] at he
    rcases List.mem_append.mp he with he | he
    · exact h.written entry he
    · exact List.mem_singleton.mp he ▸ .inr ⟨component, rfl⟩
  · intro n hn
    refine Table.mem_names_register.mpr ?_
    rcases List.mem_append.mp hn with hn | hn
    · exact .inl (h.rooted n (List.mem_append_left _ hn))
    · exact .inr (List.mem_singleton.mp hn).symm
  · intro entry he n hn
    rw [hentries] at he
    refine Table.mem_names_register.mpr (.inl ?_)
    rcases List.mem_append.mp he with he | he
    · exact h.closed entry he n hn
    · obtain rfl := List.mem_singleton.mp he
      rw [Formula.mentions_written] at hn
      exact h.rooted n (List.mem_append_right _ hn)
  · intro n hn
    rcases Table.mem_names_register.mp hn with hold | rfl
    · obtain ⟨root, hroot, hr⟩ := h.reached n hold
      have hr := hr.mono hsubset
      rcases List.mem_append.mp hroot with hroot | hroot
      · exact ⟨root, List.mem_append_left _ hroot, hr⟩
      · -- a name of the formula is reached by way of the formula
        have hentry : (⟨name, Formula.written component⟩ : Macro) ∈
            (collector.table.register name (Formula.written component)).entries := by
          simp [hentries]
        rw [← Formula.mentions_written] at hroot
        exact ⟨name, List.mem_append_right _ (List.mem_singleton.mpr rfl),
          .head ⟨_, hentry, rfl, hroot⟩ hr⟩
    · exact ⟨name, List.mem_append_right _ (List.mem_singleton.mpr rfl), .refl⟩
  · intro g k hg hn
    obtain rfl : group = g := Option.some.inj (hgroup.symm.trans hg)
    rcases Table.mem_names_register.mp hn with hold | heq
    · exact Nat.le_succ_of_le (h.numbered group k hgroup hold)
    · exact Nat.le_of_eq (generatedName_injective heq).symm

/-! ## Collecting -/

theorem Accounted.next (h : Accounted collector roots) {component : Text}
    (hmentions : ∀ n ∈ mentionsOf component, isUngenerated collector.formulaGroup n)
    (hdefinitions : ∀ d ∈ collector.definitions, ∀ n ∈ d.mentions,
      isUngenerated collector.formulaGroup n) :
    Accounted (collector.next component)
      (roots ++ (collector.marks component).filterMap Mark.name?) := by
  unfold Collector.next Collector.collectComponent Collector.marks
  unfold mentionsOf at hmentions
  split at hmentions
  case isTrue hplain => simpa [hplain, List.filterMap_cons, Mark.name?] using h
  case isFalse hplain =>
    rw [if_neg hplain, if_neg hplain]
    split at hmentions
    case isTrue hbare =>
      rw [if_pos hbare, if_pos hbare]
      exact h.reference hmentions hdefinitions
    case isFalse hformula =>
      rw [if_neg hformula, if_neg hformula]
      have href := h.reference hmentions hdefinitions
      cases hg : collector.formulaGroup with
      | none => simpa [Collector.reference, hg, Formula.names_marks] using href
      | some group => simpa [Collector.reference, hg, Mark.name?] using href.generate hg

namespace Collector

@[simp] theorem definitions_next (collector : Collector) (component : Text) :
    (collector.next component).definitions = collector.definitions := by
  unfold next collectComponent
  split
  · rfl
  · split
    · rfl
    · cases hg : collector.formulaGroup <;> simp [reference, hg]

@[simp] theorem formulaGroup_next (collector : Collector) (component : Text) :
    (collector.next component).formulaGroup = collector.formulaGroup := by
  unfold next collectComponent
  split
  · rfl
  · split
    · rfl
    · cases hg : collector.formulaGroup <;> simp [reference, hg]

theorem definitions_foldl_next (collector : Collector) (components : List Text) :
    (components.foldl next collector).definitions = collector.definitions := by
  induction components generalizing collector with
  | nil => rfl
  | cons component more ih => rw [List.foldl_cons, ih, definitions_next]

theorem formulaGroup_foldl_next (collector : Collector) (components : List Text) :
    (components.foldl next collector).formulaGroup = collector.formulaGroup := by
  induction components generalizing collector with
  | nil => rfl
  | cons component more ih => rw [List.foldl_cons, ih, formulaGroup_next]

theorem definitions_collect (collector : Collector) (size : Text) :
    (collector.collect size).2.definitions = collector.definitions := by
  rw [Sizing.collect_snd ⟨collector, size⟩, definitions_foldl_next]

theorem formulaGroup_collect (collector : Collector) (size : Text) :
    (collector.collect size).2.formulaGroup = collector.formulaGroup := by
  rw [Sizing.collect_snd ⟨collector, size⟩, formulaGroup_foldl_next]

end Collector

theorem Accounted.foldl_next (components : List Text) {collector : Collector} {roots : List Text}
    (h : Accounted collector roots)
    (hmentions : ∀ component ∈ components, ∀ n ∈ mentionsOf component,
      isUngenerated collector.formulaGroup n)
    (hdefinitions : ∀ d ∈ collector.definitions, ∀ n ∈ d.mentions,
      isUngenerated collector.formulaGroup n) :
    Accounted (components.foldl Collector.next collector)
      (roots ++ (collector.marksOf components).flatten.filterMap Mark.name?) := by
  induction components generalizing collector roots with
  | nil => simpa [Collector.marksOf] using h
  | cons component more ih =>
    obtain ⟨hfirst, hmore⟩ := List.forall_mem_cons.mp hmentions
    rw [Collector.marksOf, List.flatten_cons, List.filterMap_append, ← List.append_assoc]
    refine ih (h.next hfirst hdefinitions) ?_ ?_
    · rw [Collector.formulaGroup_next]
      exact hmore
    · rw [Collector.formulaGroup_next, Collector.definitions_next]
      exact hdefinitions

/-- Collecting a size adds the names that it puts between delimiters. -/
theorem Accounted.collect (h : Accounted collector roots) {size : Text}
    (hmentions : ∀ n ∈ (Sizing.mk collector size).mentions,
      isUngenerated collector.formulaGroup n)
    (hdefinitions : ∀ d ∈ collector.definitions, ∀ n ∈ d.mentions,
      isUngenerated collector.formulaGroup n) :
    Accounted (collector.collect size).2 (roots ++ (Sizing.mk collector size).names) := by
  rw [Sizing.collect_snd ⟨collector, size⟩]
  refine h.foldl_next _ (fun component hc n hn => ?_) hdefinitions
  exact hmentions n (List.mem_flatMap_of_mem hc hn)

/-- Capturing a definition registers nothing. -/
theorem Accounted.define (h : Accounted collector roots) (name value : Text) :
    Accounted (collector.define name value) roots := by
  unfold Collector.define
  split
  · exact h
  · refine ⟨fun d hd => ?_, h.written, h.rooted, h.closed, h.reached, h.numbered⟩
    rcases List.mem_append.mp hd with hd | hd
    · exact h.captured d hd
    · exact ⟨name, value, List.mem_singleton.mp hd⟩

end StructTables.Macro
