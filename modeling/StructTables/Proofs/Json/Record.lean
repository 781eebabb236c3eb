import Mathlib.Data.List.Nodup
import StructTables.Json.Record

/-! # Records in JSON

The fields of a written record are found by their names, as long as these differ, and the items of a
written list are read one by one. -/

namespace StructTables.Json
open Text

theorem mapM_map_eq_some {α β γ : Type} {f : α → β} {f? : β → Option γ} {g : α → γ} {l : List α}
    (h : ∀ x ∈ l, f? (f x) = some (g x)) : (l.map f).mapM f? = some (l.map g) := by
  induction l with
  | nil => rfl
  | cons x more ih =>
    obtain ⟨hx, hmore⟩ := List.forall_mem_cons.mp h
    simp [hx, ih hmore]

@[simp]
theorem asText?_ofText (t : Text) : asText? (ofText t) = some t := rfl

theorem asListOf?_ofList {α : Type} {f : α → Json} {f? : Json → Option α}
    (h : ∀ x, f? (f x) = some x) (l : List α) : asListOf? f? (ofList f l) = some l :=
  (mapM_map_eq_some fun x _ => h x).trans (by rw [List.map_id'])

/-! ## Fields by name -/

/-- The entries of a record with the given fields. -/
def entriesOf (fields : List (Text × Json)) : List (Option Text × Json) :=
  fields.map fun (key, value) => (some key, value)

theorem filter_entriesOf_eq_nil {fields : List (Text × Json)} {name : Text}
    (h : name ∉ fields.map (·.1)) : (entriesOf fields).filter (·.1 == some name) = [] := by
  refine List.filter_eq_nil_iff.mpr fun entry hentry => ?_
  obtain ⟨field, hfield, rfl⟩ := List.mem_map.mp hentry
  have hne : field.1 ≠ name := fun heq => h (heq ▸ List.mem_map_of_mem hfield)
  simpa using hne

theorem filter_entriesOf {fields : List (Text × Json)} (hnames : (fields.map (·.1)).Nodup)
    {field : Text × Json} (h : field ∈ fields) :
    (entriesOf fields).filter (·.1 == some field.1) = [(some field.1, field.2)] := by
  induction fields with
  | nil => cases h
  | cons first more ih =>
    obtain ⟨hfresh, hnames⟩ := List.nodup_cons.mp hnames
    have hcons : entriesOf (first :: more) = (some first.1, first.2) :: entriesOf more := rfl
    rcases List.mem_cons.mp h with rfl | h
    · rw [hcons, List.filter_cons_of_pos (by simp), filter_entriesOf_eq_nil hfresh]
    · have hne : first.1 ≠ field.1 := fun heq =>
        hfresh (List.mem_map.mpr ⟨field, h, heq.symm⟩)
      rw [hcons, List.filter_cons_of_neg (by simpa using hne), ih hnames h]

/-- A record whose names differ is read back field by field. -/
theorem fields?_record (fields : List (Text × Json)) (hnames : (fields.map (·.1)).Nodup) :
    fields? (fields.map (·.1)) (record fields) = some (fields.map (·.2)) := by
  have hkeys : (entriesOf fields).all (·.1.isSome) = true := by simp [entriesOf]
  have hfound : (fields.map (·.1)).mapM (field? (entriesOf fields)) =
      some (fields.map fun field => some field.2) :=
    mapM_map_eq_some fun field hfield => by rw [field?, filter_entriesOf hnames hfield]
  have hgiven : optionalFields? (fields.map (·.1)) (record fields) =
      some (fields.map fun field => some field.2) := by
    rw [← hfound]
    exact if_pos hkeys
  rw [fields?, hgiven]
  exact mapM_map_eq_some fun field _ => rfl

theorem fields?_zip (names : List Text) (values : List Json) (hnames : names.Nodup)
    (hlength : names.length = values.length) :
    fields? names (record (names.zip values)) = some values := by
  have hkeys : (names.zip values).map (·.1) = names := List.map_fst_zip (Nat.le_of_eq hlength)
  have hfields := fields?_record (names.zip values) (hkeys.symm ▸ hnames)
  rwa [hkeys, List.map_snd_zip (Nat.le_of_eq hlength.symm)] at hfields

end StructTables.Json
