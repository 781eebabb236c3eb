import Mathlib.Logic.Relation
import StructTables.Macro.Collector
import StructTables.Proofs.Macro.Mention

/-! # What references register

A reference registers a name with all that can be reached from it by way of captured values, and no
other name. Names that the table holds already are passed over, so what those mention has to be in
the table too, or still on the stack. -/

namespace StructTables.Macro
open Text

/-! ## Tables -/

namespace Table

theorem mem_names_register {table : Table} {name value other : Text} :
    other ∈ (table.register name value).names ↔ other ∈ table.names ∨ name = other := by
  rw [← contains_iff, contains_register, Bool.or_eq_true, contains_iff, beq_iff_eq]

theorem entries_register {table : Table} {name : Text} (h : table.contains name = false)
    (value : Text) : (table.register name value).entries = table.entries ++ [⟨name, value⟩] := by
  simp [register, h]

theorem entries_subset_register (table : Table) (name value : Text) :
    table.entries ⊆ (table.register name value).entries := by
  unfold register
  split
  · exact List.Subset.refl _
  · exact List.subset_append_left _ _

/-- One name leads to another if the value of the one mentions the other. -/
def Leads (table : Table) (name other : Text) : Prop :=
  ∃ entry ∈ table.entries, entry.name = name ∧ other ∈ Formula.mentions entry.value

/-- A name reaches another if names lead from the one to the other. -/
def Reaches (table : Table) : Text → Text → Prop := Relation.ReflTransGen table.Leads

theorem Reaches.mono {table other : Table} (h : table.entries ⊆ other.entries) {a b : Text}
    (hr : table.Reaches a b) : other.Reaches a b :=
  Relation.ReflTransGen.mono (fun _ _ ⟨entry, he, hn, hm⟩ => ⟨entry, h he, hn, hm⟩) _ _ hr

end Table

/-! ## Visits -/

variable {definitions : List Definition}

theorem entries_subset_visit (table : Table) (stack : List Text) :
    table.entries ⊆ (visit definitions table stack).entries := by
  fun_induction visit definitions table stack with
  | case1 table => exact List.Subset.refl _
  | case2 table name stack _ ih => exact ih
  | case3 table name stack _ _ ih => exact List.Subset.trans (table.entries_subset_register _ _) ih
  | case4 table name stack _ d _ ih =>
    exact List.Subset.trans (table.entries_subset_register _ _) ih

theorem names_subset_visit (table : Table) (stack : List Text) :
    table.names ⊆ (visit definitions table stack).names :=
  List.map_subset _ (entries_subset_visit table stack)

theorem stack_subset_visit (table : Table) (stack : List Text) :
    stack ⊆ (visit definitions table stack).names := by
  fun_induction visit definitions table stack with
  | case1 table => exact List.nil_subset _
  | case2 table name stack hnew ih =>
    exact List.cons_subset.mpr
      ⟨names_subset_visit table stack (Table.contains_iff.mp hnew), ih⟩
  | case3 table name stack _ _ ih =>
    exact List.cons_subset.mpr
      ⟨names_subset_visit _ stack (Table.mem_names_register.mpr (.inr rfl)), ih⟩
  | case4 table name stack _ d _ ih =>
    exact List.cons_subset.mpr
      ⟨names_subset_visit _ _ (Table.mem_names_register.mpr (.inr rfl)),
        (List.append_subset.mp ih).2⟩

/-- Definitions as they are captured. -/
def AllCaptured (definitions : List Definition) : Prop :=
  ∀ d ∈ definitions, ∃ name value, d = .ofText name value

theorem AllCaptured.mentions_value (h : AllCaptured definitions) {d : Definition}
    (hd : d ∈ definitions) : Formula.mentions d.value = d.mentions := by
  obtain ⟨name, value, rfl⟩ := h d hd
  exact mentions_value_ofText name value

/-- Every name that a value mentions is in the table, if it was there before or on the stack. -/
theorem visit_closed (hcaptured : AllCaptured definitions) (table : Table) (stack : List Text)
    (h : ∀ entry ∈ table.entries, ∀ n ∈ Formula.mentions entry.value,
      n ∈ table.names ∨ n ∈ stack) :
    ∀ entry ∈ (visit definitions table stack).entries, ∀ n ∈ Formula.mentions entry.value,
      n ∈ (visit definitions table stack).names := by
  fun_induction visit definitions table stack with
  | case1 table => simpa using h
  | case2 table name stack hnew ih =>
    refine ih ?_
    intro entry he n hn
    rcases h entry he n hn with ht | hs
    · exact .inl ht
    · rcases List.mem_cons.mp hs with rfl | hs
      · exact .inl (Table.contains_iff.mp hnew)
      · exact .inr hs
  | case3 table name stack hnew _ ih =>
    refine ih ?_
    intro entry he n hn
    rw [Table.entries_register (by simpa using hnew)] at he
    rw [Table.mem_names_register]
    rcases List.mem_append.mp he with hold | hadded
    · rcases h entry hold n hn with ht | hs
      · exact .inl (.inl ht)
      · exact (List.mem_cons.mp hs).elim (fun e => .inl (.inr e.symm)) .inr
    · obtain rfl := List.mem_singleton.mp hadded
      rw [show Formula.mentions placeholder = [] by decide] at hn
      cases hn
  | case4 table name stack hnew d hfind ih =>
    refine ih ?_
    intro entry he n hn
    rw [Table.entries_register (by simpa using hnew)] at he
    rw [Table.mem_names_register, List.mem_append]
    rcases List.mem_append.mp he with hold | hadded
    · rcases h entry hold n hn with ht | hs
      · exact .inl (.inl ht)
      · exact (List.mem_cons.mp hs).elim (fun e => .inl (.inr e.symm)) (.inr ∘ .inr)
    · obtain rfl := List.mem_singleton.mp hadded
      rw [hcaptured.mentions_value (List.mem_of_find?_eq_some hfind)] at hn
      exact .inr (.inl hn)

/-- Every name that comes into the table is reached from the stack. -/
theorem visit_reached (hcaptured : AllCaptured definitions) (table : Table) (stack : List Text) :
    ∀ n ∈ (visit definitions table stack).names,
      n ∈ table.names ∨ ∃ s ∈ stack, (visit definitions table stack).Reaches s n := by
  fun_induction visit definitions table stack with
  | case1 table => exact fun n hn => .inl hn
  | case2 table name stack _ ih =>
    intro n hn
    exact (ih n hn).imp_right fun ⟨s, hs, hr⟩ => ⟨s, List.mem_cons_of_mem _ hs, hr⟩
  | case3 table name stack _ _ ih =>
    intro n hn
    rcases ih n hn with ht | ⟨s, hs, hr⟩
    · rcases Table.mem_names_register.mp ht with ht | rfl
      · exact .inl ht
      · exact .inr ⟨name, List.mem_cons_self, .refl⟩
    · exact .inr ⟨s, List.mem_cons_of_mem _ hs, hr⟩
  | case4 table name stack hnew d hfind ih =>
    intro n hn
    rcases ih n hn with ht | ⟨s, hs, hr⟩
    · rcases Table.mem_names_register.mp ht with ht | rfl
      · exact .inl ht
      · exact .inr ⟨name, List.mem_cons_self, .refl⟩
    · rcases List.mem_append.mp hs with hs | hs
      · -- the value of the name that was just registered leads on to `s`
        have hentry : (⟨name, d.value⟩ : Macro) ∈
            (visit definitions (table.register name d.value) (d.mentions ++ stack)).entries :=
          entries_subset_visit _ _ (by simp [Table.entries_register (by simpa using hnew)])
        have hs' : s ∈ Formula.mentions d.value := by
          rwa [hcaptured.mentions_value (List.mem_of_find?_eq_some hfind)]
        exact .inr ⟨name, List.mem_cons_self, .head ⟨_, hentry, rfl, hs'⟩ hr⟩
      · exact .inr ⟨s, List.mem_cons_of_mem _ hs, hr⟩

/-- Nothing is registered but names of the stack and names that definitions mention. -/
theorem mem_names_visit {table : Table} {stack : List Text} {n : Text}
    (h : n ∈ (visit definitions table stack).names) :
    n ∈ table.names ∨ n ∈ stack ∨ ∃ d ∈ definitions, n ∈ d.mentions := by
  fun_induction visit definitions table stack with
  | case1 table => exact .inl h
  | case2 table name stack _ ih => exact (ih h).imp_right (.imp_left (List.mem_cons_of_mem _))
  | case3 table name stack _ _ ih =>
    rcases ih h with ht | hs
    · rcases Table.mem_names_register.mp ht with ht | rfl
      · exact .inl ht
      · exact .inr (.inl List.mem_cons_self)
    · exact .inr (hs.imp_left (List.mem_cons_of_mem _))
  | case4 table name stack _ d hfind ih =>
    rcases ih h with ht | hs | hd
    · rcases Table.mem_names_register.mp ht with ht | rfl
      · exact .inl ht
      · exact .inr (.inl List.mem_cons_self)
    · rcases List.mem_append.mp hs with hm | hs
      · exact .inr (.inr ⟨d, List.mem_of_find?_eq_some hfind, hm⟩)
      · exact .inr (.inl (List.mem_cons_of_mem _ hs))
    · exact .inr (.inr hd)

end StructTables.Macro
