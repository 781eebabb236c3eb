import StructTables.Proofs.Text.Cutting
import StructTables.Sheet

/-! # Rows

A quoted field ends at the first quote that no other quote follows, and behind a field of a row stands
a comma or nothing. So a row tells its fields, whatever characters these have. -/

namespace StructTables.Sheet
open Text

/-! ## Fields -/

/-- A field as it stands between its quotes. -/
def doubled (field : Text) : Text := field.flatMap fun c => if c = '"' then ['"', '"'] else [c]

theorem quoted_eq (field : Text) : quoted field = '"' :: (doubled field ++ ['"']) := rfl

theorem doubled_cons_quote (field : Text) :
    doubled ('"' :: field) = '"' :: '"' :: doubled field := rfl

theorem doubled_cons {c : Char} (h : c ≠ '"') (field : Text) :
    doubled (c :: field) = c :: doubled field := by
  simp [doubled, h]

/-- What stands behind the last quote of a field is not taken for a part of the field. -/
theorem doubled_append_inj {field other r s : Text} (hr : r.head? ≠ some '"')
    (hs : s.head? ≠ some '"') (h : doubled field ++ '"' :: r = doubled other ++ '"' :: s) :
    field = other ∧ r = s := by
  -- a field that goes on where the other one ends begins with a quote, and so does what is behind it
  have hends : ∀ {c : Char} {field r s : Text}, r.head? ≠ some '"' →
      doubled [] ++ '"' :: r ≠ doubled (c :: field) ++ '"' :: s := by
    intro c field r s hr heq
    by_cases hc : c = '"'
    · subst hc
      obtain ⟨-, rfl⟩ := List.cons.inj heq
      exact hr rfl
    · rw [doubled_cons hc] at heq
      exact hc (List.cons.inj heq).1.symm
  induction field generalizing other with
  | nil =>
    cases other with
    | nil => exact ⟨rfl, (List.cons.inj h).2⟩
    | cons d other => exact absurd h (hends hr)
  | cons c field ih =>
    cases other with
    | nil => exact absurd h.symm (hends hs)
    | cons d other =>
      by_cases hc : c = '"' <;> by_cases hd : d = '"'
      · subst hc hd
        simp only [doubled_cons_quote, List.cons_append, List.cons.injEq, true_and] at h
        obtain ⟨rfl, rfl⟩ := ih h
        exact ⟨rfl, rfl⟩
      · subst hc
        rw [doubled_cons hd] at h
        exact absurd (List.cons.inj h).1.symm hd
      · subst hd
        rw [doubled_cons hc] at h
        exact absurd (List.cons.inj h).1 hc
      · rw [doubled_cons hc, doubled_cons hd, List.cons_append, List.cons_append] at h
        obtain ⟨rfl, hrest⟩ := List.cons.inj h
        obtain ⟨rfl, rfl⟩ := ih hrest
        exact ⟨rfl, rfl⟩

theorem quoted_append_inj {field other r s : Text} (hr : r.head? ≠ some '"')
    (hs : s.head? ≠ some '"') (h : quoted field ++ r = quoted other ++ s) :
    field = other ∧ r = s := by
  rw [quoted_eq, quoted_eq, List.cons_append, List.cons_append, List.append_assoc,
    List.append_assoc] at h
  exact doubled_append_inj hr hs (List.cons.inj h).2

/-! ## Rows of fields -/

theorem row_cons (field : Text) (more : List Text) :
    row (field :: more) = quoted field ++ more.flatMap fun other => ',' :: quoted other := by
  rw [row, List.map_cons, join_cons, List.flatMap_map]
  rfl

theorem flatMap_quoted_inj {fields others : List Text}
    (h : (fields.flatMap fun field => ',' :: quoted field) =
      others.flatMap fun other => ',' :: quoted other) : fields = others := by
  have hcomma : ∀ fields : List Text,
      (fields.flatMap fun field => ',' :: quoted field).head? ≠ some '"' := by
    intro fields
    cases fields <;> simp
  induction fields generalizing others with
  | nil => cases others with
    | nil => rfl
    | cons other others => simp at h
  | cons field fields ih =>
    cases others with
    | nil => simp at h
    | cons other others =>
      rw [List.flatMap_cons, List.flatMap_cons, List.cons_append, List.cons_append] at h
      obtain ⟨rfl, hmore⟩ := quoted_append_inj (hcomma fields) (hcomma others) (List.cons.inj h).2
      rw [ih hmore]

/-- A row is written from no other fields. -/
theorem row_inj {fields others : List Text} : row fields = row others ↔ fields = others := by
  refine ⟨fun h => ?_, fun h => congrArg row h⟩
  -- an empty row apart, a row is one behind a comma without the comma
  have hbehind : ∀ {fields : List Text}, fields ≠ [] →
      ',' :: row fields = fields.flatMap fun field => ',' :: quoted field := by
    intro fields hne
    obtain ⟨field, more, rfl⟩ := List.exists_cons_of_ne_nil hne
    rw [row_cons, List.flatMap_cons, List.cons_append]
  have hempty : ∀ {fields : List Text}, row fields = [] → fields = [] := by
    intro fields h
    cases fields with
    | nil => rfl
    | cons field more => simp [row_cons, quoted_eq] at h
  by_cases hfields : fields = []
  · subst hfields
    exact (hempty h.symm).symm
  · by_cases hothers : others = []
    · subst hothers
      exact hempty h
    · refine flatMap_quoted_inj ?_
      rw [← hbehind hfields, ← hbehind hothers, h]

end StructTables.Sheet
