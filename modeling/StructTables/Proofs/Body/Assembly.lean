import StructTables.Body.Assembly

/-! # Assembling a body, entry by entry

What one entry does to an assembly, and what a body can report: invalid declarations and dropped
duplicates of its own structure, and nothing else. -/

namespace StructTables
open Text

namespace Member

def undescribed (m : Member) : Member := { m with description := [] }

theorem undescribed_describe (m : Member) (remark : Text) :
    (m.describe remark).undescribed = m.undescribed := by
  unfold describe
  split
  · rfl
  · split <;> rfl

end Member

namespace Body
open Declaration

theorem add_duplicate {owner : Structure} {assembly : Assembly} {declarator : Declarator}
    (h : assembly.contains owner declarator.name = true) (dataType description : Text) :
    assembly.add owner (.variable dataType declarator description) =
      assembly.report (.duplicate owner.name declarator.name) := by
  simp [Assembly.add, h]

theorem add_variable {owner : Structure} {assembly : Assembly} {declarator : Declarator}
    (h : assembly.contains owner declarator.name = false) (dataType description : Text) :
    assembly.add owner (.variable dataType declarator description) =
      let (m, collector) := memberOf assembly.collector dataType declarator description
      { assembly with collector := collector, added := assembly.added ++ [m] } := by
  simp [Assembly.add, h]

/-! ## Members -/

/-- The structure with the members that a body has added to it so far. -/
def withAdded (owner : Structure) (assembly : Assembly) : Structure :=
  { owner with members := owner.members ++ assembly.added }

theorem contains_withAdded (owner : Structure) (assembly : Assembly) (name : Text) :
    (withAdded owner assembly).contains name = assembly.contains owner name := by
  simp [withAdded, Structure.contains, Assembly.contains]

/-! ## Remarks -/

theorem describeLast_eq_nil_iff (remark : Text) (members : List Member) :
    describeLast remark members = [] ↔ members = [] := by
  fun_cases describeLast remark members <;> simp

theorem describeLast_concat (remark : Text) (ahead : List Member) (m : Member) :
    describeLast remark (ahead ++ [m]) = ahead ++ [m.describe remark] := by
  induction ahead with
  | nil => rfl
  | cons first more ih =>
    cases more with
    | nil => rfl
    | cons second more => exact congrArg (first :: ·) ih

/-- A remark changes nothing that does not depend on descriptions. -/
theorem map_describeLast {α : Type} {f : Member → α} (h : ∀ m, f m.undescribed = f m)
    (remark : Text) (members : List Member) :
    (describeLast remark members).map f = members.map f := by
  fun_induction describeLast remark members with
  | case1 => rfl
  | case2 m => rw [List.map_singleton, List.map_singleton, ← h, Member.undescribed_describe, h]
  | case3 m next more ih => rw [List.map_cons, ih, ← List.map_cons]

/-! ## Events -/

/-- The events that reading the body of the given structure can give rise to. -/
def isBodyEvent (owner : Structure) : Event → Prop
  | .warning (.invalidMember name _) => name = owner.name
  | .duplicate name _ => name = owner.name
  | _ => False

theorem isBodyEvent_add {owner : Structure} {assembly : Assembly}
    (h : ∀ event ∈ assembly.log, isBodyEvent owner event) (entry : Entry) :
    ∀ event ∈ (assembly.add owner entry).log, isBodyEvent owner event := by
  have hreport : ∀ event, isBodyEvent owner event →
      ∀ other ∈ (assembly.report event).log, isBodyEvent owner other := by
    intro event he other hother
    rcases List.mem_append.mp hother with hold | hnew
    · exact h other hold
    · exact List.mem_singleton.mp hnew ▸ he
  match entry with
  | .invalid source => exact hreport _ rfl
  | .remark text => exact h
  | .variable dataType declarator description =>
    cases hdup : assembly.contains owner declarator.name with
    | true =>
      rw [add_duplicate hdup]
      exact hreport _ rfl
    | false =>
      rw [add_variable hdup]
      exact h

theorem isBodyEvent_assemble (owner : Structure) (collector : Macro.Collector)
    (entries : List Entry) :
    ∀ event ∈ (assemble owner collector entries).log, isBodyEvent owner event := by
  suffices h : ∀ assembly : Assembly, (∀ event ∈ assembly.log, isBodyEvent owner event) →
      ∀ event ∈ (entries.foldl (Assembly.add owner) assembly).log, isBodyEvent owner event from
    h _ (by simp)
  induction entries with
  | nil => exact fun _ h => h
  | cons entry more ih => exact fun _ h => ih _ (isBodyEvent_add h entry)

end Body
end StructTables
