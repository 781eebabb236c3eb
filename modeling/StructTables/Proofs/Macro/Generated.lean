import StructTables.Proofs.Macro.Account
import StructTables.Proofs.Macro.Substitution

/-! # Generated macros

The macros that are generated for the formulas of a group are numbered in order. Putting their values
for their names gives every formula back in the place of its macro, since no formula mentions a name
that is generated itself. -/

namespace StructTables.Macro
open Text

namespace Collector

/-- Whether the name is the one that is generated for the number at its end. -/
def isGenerated (group name : Text) : Bool :=
  name == generatedName group
    (Nat.ofDigitChars 10 (name.drop (group ++ "_CCDD_MACRO_".toList).length) 0)

theorem isGenerated_iff {group name : Text} :
    isGenerated group name = true ↔ ∃ number, name = generatedName group number := by
  rw [isGenerated, beq_iff_eq]
  constructor
  · exact fun h => ⟨_, h⟩
  · rintro ⟨number, rfl⟩
    rw [generatedName, List.drop_left, ofNat, Nat.ofDigitChars_ten_toDigits]
    rfl

theorem isGenerated_generatedName (group : Text) (number : Nat) :
    isGenerated group (generatedName group number) = true :=
  isGenerated_iff.mpr ⟨number, rfl⟩

theorem all_ofNat (n : Nat) : (ofNat n).all isIdentifierCharacter = true := by
  refine List.all_eq_true.mpr fun c hc => ?_
  exact isIdentifierCharacter_of_isDigit (Nat.isDigit_of_mem_toDigits (by decide) (by decide) hc)

theorem endsApart_generatedName (group : Text) (number : Nat) (apart : Bool) :
    endsApart apart (generatedName group number) = false := by
  rw [generatedName, endsApart_append]
  exact endsApart_of_all Nat.toDigits_ne_nil (all_ofNat number) _

theorem hash_not_mem_generatedName {group : Text} (h : '#' ∉ group) (number : Nat) :
    '#' ∉ generatedName group number := by
  have hnumber : '#' ∉ ofNat number := not_mem_of_all (all_ofNat number) rfl
  simp [generatedName, h, hnumber]

/-- The macros for formulas, numbered from the given number on. -/
def generated (group : Text) (number : Nat) : List Text → List Macro
  | [] => []
  | formula :: more =>
    ⟨generatedName group number, Formula.written formula⟩ :: generated group (number + 1) more

theorem generated_append (group : Text) (number : Nat) (formulas more : List Text) :
    generated group number (formulas ++ more) =
      generated group number formulas ++ generated group (number + formulas.length) more := by
  induction formulas generalizing number with
  | nil => rfl
  | cons formula formulas ih =>
    rw [List.cons_append, generated, ih, generated, List.length_cons, List.cons_append,
      Nat.add_right_comm, Nat.add_assoc]

end Collector
open Collector

variable {group : Text}

/-- A text of a source without a delimiter and with no mention of a generated name. -/
def isUnmarked (group t : Text) (mentions : List Text) : Prop :=
  '#' ∉ t ∧ ∀ n ∈ mentions, isGenerated group n = false

/-- A component of a size in which a generated name stands alone, if one does. -/
structure Fits (group : Text) (component : List Mark) : Prop where
  spaced : Mark.Spaced true component
  whole : ∀ number, .name (generatedName group number) ∈ component →
    component = [.name (generatedName group number)]

theorem not_mem_marks {formula : Text} (h : isUnmarked group formula (Formula.mentions formula))
    (number : Nat) : .name (generatedName group number) ∉ Formula.marks formula := by
  intro hmem
  have hmention : generatedName group number ∈ Formula.mentions formula := by
    rw [← Formula.names_marks]
    exact List.mem_filterMap.mpr ⟨_, hmem, rfl⟩
  have hno := h.2 _ hmention
  rw [isGenerated_generatedName] at hno
  cases hno

theorem fits_marks {formula : Text} (h : isUnmarked group formula (Formula.mentions formula)) :
    Fits group (Formula.marks formula) :=
  ⟨Formula.spaced_marks h.1, fun number hmem => absurd hmem (not_mem_marks h number)⟩

theorem Fits.swap {component value : List Mark} (h : Fits group component)
    (hvalue : Fits group value) (n : Text) : Fits group (swap n value component) := by
  unfold Macro.swap
  split
  · exact hvalue
  · exact h

/-! ## Resolving -/

/-- The component with the formulas in place of their macros, one after the other. -/
def resolved (group : Text) (number : Nat) : List Text → List Mark → List Mark
  | [], component => component
  | formula :: more, component =>
    resolved group (number + 1) more
      (swap (generatedName group number) (Formula.marks formula) component)

/-- The values of generated macros are put into a size component by component. -/
theorem substitute_generated (hgroup : '#' ∉ group) {formulas : List Text}
    (hformulas : ∀ formula ∈ formulas, isUnmarked group formula (Formula.mentions formula))
    (number : Nat) {components : List (List Mark)}
    (hfits : ∀ component ∈ components, Fits group component) :
    Table.substitute ⟨generated group number formulas⟩
        (join [','] (components.map (·.flatMap Mark.written))) =
      join [','] ((components.map (resolved group number formulas)).map
        (·.flatMap Mark.written)) := by
  induction formulas generalizing number components with
  | nil => simp [Table.substitute, generated, resolved]
  | cons formula more ih =>
    obtain ⟨hformula, hmore⟩ := List.forall_mem_cons.mp hformulas
    have hswap : ∀ component ∈ components.map
        (swap (generatedName group number) (Formula.marks formula)), Fits group component := by
      intro component hc
      obtain ⟨old, hold, rfl⟩ := List.mem_map.mp hc
      exact (hfits old hold).swap (fits_marks hformula) _
    have hreplace := replaceAll_join (fun c hc => (hfits c hc).spaced)
      (fun c hc => (hfits c hc).whole number) (hash_not_mem_generatedName hgroup number)
      (endsApart_generatedName group number true) (Formula.marks formula)
    rw [Formula.written_marks] at hreplace
    rw [generated, Table.substitute, List.foldl_cons, hreplace]
    show Table.substitute ⟨generated group (number + 1) more⟩ _ = _
    rw [ih hmore (number + 1) hswap]
    simp only [List.map_map, Function.comp_def, resolved]

/-- What is no macro of a formula stays. -/
theorem resolved_of_ne {component : List Mark}
    (h : ∀ number, component ≠ [.name (generatedName group number)]) (number : Nat)
    (formulas : List Text) : resolved group number formulas component = component := by
  induction formulas generalizing number with
  | nil => rfl
  | cons formula more ih => rw [resolved, swap, if_neg (h number), ih]

theorem resolved_of_lt {number i : Nat} (formulas : List Text) (h : number + formulas.length ≤ i) :
    resolved group number formulas [.name (generatedName group i)] =
      [.name (generatedName group i)] := by
  induction formulas generalizing number with
  | nil => rfl
  | cons formula more ih =>
    rw [List.length_cons] at h
    have hne : [Mark.name (generatedName group i)] ≠ [.name (generatedName group number)] := by
      intro heq
      have hsame : i = number := generatedName_injective (by simpa using heq)
      omega
    rw [resolved, swap, if_neg hne, ih (by omega)]

theorem resolved_append (number : Nat) (formulas more : List Text) (component : List Mark) :
    resolved group number (formulas ++ more) component =
      resolved group (number + formulas.length) more (resolved group number formulas component) := by
  induction formulas generalizing number component with
  | nil => rfl
  | cons formula formulas ih =>
    rw [List.cons_append, resolved, ih, resolved, List.length_cons, Nat.add_right_comm,
      Nat.add_assoc]

/-- The macro of a formula gives way to the formula. -/
theorem resolved_generatedName {formula : Text}
    (h : isUnmarked group formula (Formula.mentions formula)) (number : Nat)
    (formulas more : List Text) :
    resolved group number (formulas ++ formula :: more)
        [.name (generatedName group (number + formulas.length))] =
      Formula.marks formula := by
  -- no later macro is put into the formula itself
  have hne : ∀ i, Formula.marks formula ≠ [.name (generatedName group i)] := fun i heq =>
    not_mem_marks h i (heq ▸ List.mem_cons_self)
  rw [resolved_append, resolved_of_lt formulas (Nat.le_refl _), resolved, swap, if_pos rfl,
    resolved_of_ne hne]

end StructTables.Macro
