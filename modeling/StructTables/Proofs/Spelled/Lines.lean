import StructTables.Proofs.Spelled.Reading

/-! # Reading the lines of a freely spelled declaration

The variables of one type stand on a line behind that type, or on lines of their own behind a line that
ended in a comma. Such a line is one statement, and it declares its variables, no more and no less. -/

namespace StructTables.Spelled
open Text Comment Declaration Body

/-! ## Comments -/

theorem calm_blanks_append {t r : Text} (ht : IsBlanks t) (hr : Calm r) : Calm (t ++ r) := by
  cases t with
  | nil => exact hr
  | cons c more =>
    have hc := ht c List.mem_cons_self
    refine calm_cons ⟨?_, ?_⟩ (more ++ r) <;> rintro rfl <;> cases hc

theorem code_groups_append (groups : List Group) (r : Text) :
    code (groups.flatMap Group.text ++ r) = groups.flatMap Group.text ++ code r := by
  induction groups with
  | nil => rfl
  | cons group more ih =>
    have hsplit : (group :: more).flatMap Group.text ++ r = (group.ahead.1 ++ ['[']) ++
        (group.size.text ++ (']' :: (more.flatMap Group.text ++ r))) := by simp [Group.text]
    have hahead : '/' ∉ group.ahead.1 ++ ['['] :=
      List.not_mem_append (group.ahead.2.not_mem rfl) (by decide)
    have hbehind : code (']' :: (more.flatMap Group.text ++ r)) =
        ']' :: (more.flatMap Group.text ++ code r) := by
      rw [code_cons_of_not_begins (begins_cons_eq_false (by decide) _), ih]
    rw [hsplit, code_append hahead, code_append_of_calm group.size.free (calm_cons (by decide) _),
      hbehind]
    simp [Group.text]

theorem code_extent_append (extent : Extent) {r : Text} (hr : Calm r) :
    code (extent.text ++ r) = extent.text ++ code r := by
  cases extent with
  | single => rfl
  | array first more => exact code_groups_append (first :: more) r
  | bits ahead length =>
    have hahead : '/' ∉ ahead.1 ++ [':'] :=
      List.not_mem_append (ahead.2.not_mem rfl) (by decide)
    have hsplit : (Extent.bits ahead length).text = (ahead.1 ++ [':']) ++ length.text := by
      simp [Extent.text]
    rw [hsplit, List.append_assoc, code_append hahead, code_append_of_calm length.free hr]
    exact (List.append_assoc _ _ _).symm

theorem mem_named {v : Variable} {c : Char} (hc : c ∈ v.named) :
    c = '*' ∨ Macro.isIdentifierCharacter c = true := by
  rcases List.mem_append.mp hc with hc | hc
  · exact .inl (List.eq_of_mem_replicate hc)
  · exact .inr (List.all_eq_true.mp (Canonical.all_identifier v.name) c hc)

theorem code_variable_append (v : Variable) {r : Text} (hr : Calm r) :
    code (v.text ++ r) = v.text ++ code r := by
  have hlead : '/' ∉ v.ahead.1 ++ v.named :=
    List.not_mem_append (v.ahead.2.not_mem rfl) fun hc => by
      rcases mem_named hc with hc | hc <;> cases hc
  have hsplit : v.text ++ r = (v.ahead.1 ++ v.named) ++ (v.extent.text ++ (v.behind.1 ++ r)) := by
    simp [Variable.text]
  rw [hsplit, code_append hlead, code_extent_append _ (calm_blanks_append v.behind.2 hr),
    code_append (v.behind.2.not_mem rfl)]
  simp [Variable.text]

/-- No comment begins in texts with commas ahead of them, if none does in any of the texts. -/
theorem code_pieces_append {α : Type} {text : α → Text}
    (h : ∀ a r, Calm r → code (text a ++ r) = text a ++ code r) (items : List α) {r : Text}
    (hr : Calm r) :
    Calm (items.flatMap (fun a => ',' :: text a) ++ r) ∧
      code (items.flatMap (fun a => ',' :: text a) ++ r) =
        items.flatMap (fun a => ',' :: text a) ++ code r := by
  induction items with
  | nil => exact ⟨hr, rfl⟩
  | cons a more ih =>
    refine ⟨calm_cons (by decide) _, ?_⟩
    rw [List.flatMap_cons, List.append_assoc, List.cons_append,
      code_cons_of_not_begins (begins_cons_eq_false (by decide) _), h a _ ih.1, ih.2,
      List.append_assoc, List.cons_append]

theorem code_rowText_append (row : List Variable) {r : Text} (hr : Calm r) :
    code (rowText row ++ r) = rowText row ++ code r := by
  cases row with
  | nil => rfl
  | cons v more =>
    obtain ⟨hcalm, hmore⟩ := code_pieces_append (fun v _ => code_variable_append v) more hr
    rw [rowText_cons, List.append_assoc, code_variable_append v hcalm, hmore, List.append_assoc]

/-! ## Terminators -/

theorem not_mem_extent {c : Char} (hmark : c ∉ ['[', ']', ':']) (hblank : isBlank c = false)
    (hsize : ∀ size : Size, c ∉ size.text) (extent : Extent) : c ∉ extent.text := by
  have hblanks : ∀ blanks : Blanks, c ∉ blanks.1 := fun blanks => blanks.2.not_mem hblank
  simp only [List.mem_cons, List.not_mem_nil, or_false, not_or] at hmark
  cases extent with
  | single => exact List.not_mem_nil
  | array first more => simp [Extent.text, Group.text, hsize, hblanks, hmark]
  | bits ahead length => simp [Extent.text, hsize, hblanks, hmark]

theorem semicolon_not_mem_extent (extent : Extent) : ';' ∉ extent.text :=
  not_mem_extent (by decide) rfl (fun size hc => (size.plain ';' hc).2 rfl) extent

theorem semicolon_not_mem_rowText (row : List Variable) : ';' ∉ rowText row := by
  intro hc
  rcases mem_of_mem_join hc with hc | ⟨t, ht, hc⟩
  · revert hc
    decide
  · obtain ⟨v, -, rfl⟩ := List.mem_map.mp ht
    have hnamed : ';' ∉ v.named := fun hc => by rcases mem_named hc with hc | hc <;> cases hc
    exact List.not_mem_append (v.ahead.2.not_mem rfl) (List.not_mem_append hnamed
      (List.not_mem_append (semicolon_not_mem_extent v.extent) (v.behind.2.not_mem rfl))) hc

/-! ## Statements -/

/-- What stands ahead of the variables on a line. -/
def IsLead (lead : Text) : Prop := '/' ∉ lead ∧ ';' ∉ lead

variable {lead : Text} {row : List Variable}

/-- How a line of variables ends: in a semicolon, or in a comma if there are more of them below. -/
def ending (last : Bool) : Char := if last then ';' else ','

/-- What is left of the ending in the declaration. -/
def remnant (last : Bool) : Text := if last then [] else [',']

theorem statements_row (hlead : IsLead lead) (row : List Variable) (last : Bool) :
    statements (lead ++ (rowText row ++ [ending last])) =
      [⟨lead ++ (rowText row ++ [ending last]), tidy (lead ++ (rowText row ++ remnant last)), last,
        []⟩] := by
  have hfree : code (lead ++ (rowText row ++ [ending last])) =
      lead ++ (rowText row ++ [ending last]) := by
    rw [code_append hlead.1, code_rowText_append row (by cases last <;> exact calm_cons (by decide) _)]
    cases last <;> rfl
  have hnone : ';' ∉ lead ++ rowText row :=
    List.not_mem_append hlead.2 (semicolon_not_mem_rowText row)
  cases last with
  | true =>
    rw [← List.append_assoc] at hfree ⊢
    rw [remnant, if_pos rfl, List.append_nil]
    exact statements_of_terminated hfree hnone
  | false =>
    refine statements_of_open (cut_eq_self hfree) ?_
    rw [← List.append_assoc]
    exact List.not_mem_append hnone (by decide)

/-! ## Declarations -/

/-- A variable as an entry of a body. -/
def Variable.entry (dataType description : Text) (v : Variable) : Entry :=
  .variable dataType v.declared description

theorem map_entryOf (dataType description source : Text) (row : List Variable) :
    (row.map Variable.declared).map (entryOf dataType description source) =
      row.map (Variable.entry dataType description) := by
  rw [List.map_map]
  refine List.map_congr_left fun v _ => ?_
  have hname : v.declared.name.isEmpty = false := by
    simpa [Variable.declared] using Canonical.identifier_ne_nil v.name
  rw [Function.comp_apply, entryOf, hname]
  rfl

theorem not_mem_type (type : DataType) {c : Char} (hblank : isBlank c = false)
    (hcharacter : Macro.isIdentifierCharacter c = false) : c ∉ type.text := fun hc => by
  rcases type.mem_text hc with h | h
  · rw [hblank] at h; cases h
  · rw [hcharacter] at h; cases h

theorem isLead_lead (type : DataType) (gap : Blank) : IsLead (type.lead gap) := by
  have hno : ∀ c, isBlank c = false → Macro.isIdentifierCharacter c = false →
      c ∉ type.lead gap := fun c hblank hcharacter =>
    List.not_mem_append (not_mem_type type hblank hcharacter) fun hc => by
      rw [List.mem_singleton.mp hc, gap.2] at hblank
      cases hblank
  exact ⟨hno '/' rfl rfl, hno ';' rfl rfl⟩

theorem settles_remnant (last : Bool) : Settles (remnant last) := by
  cases last with
  | true => exact settles_nil
  | false => exact settles_mark rfl rfl []

theorem tidy_remnant (last : Bool) : tidy (remnant last) = remnant last := by
  cases last <;> rfl

theorem declarators_remnant (row : List Variable) (hne : row ≠ []) (last : Bool) :
    declarators (rowTidied row ++ remnant last) = row.map Variable.declared := by
  rw [← declarators_rowTidied hne]
  cases last with
  | true => rw [remnant, if_pos rfl, List.append_nil]
  | false => exact declarators_concat_comma (rowTidied row)

/-- Behind their type, the variables of a line are declared with it. -/
theorem readStatements_typed (type : DataType) (gap : Blank) (hne : row ≠ []) (last : Bool)
    {context : Context} (hcontext : context.continues = false) (below : List Text) :
    readStatements context below
        (statements (type.lead gap ++ (rowText row ++ [ending last]))) =
      { context := { context with
          dataType := collapse type.text, continues := !last, carried := [] }
        entries := row.map (Variable.entry (collapse type.text) (context.description [])) } := by
  have hparts : (if context.continues then
        some (context.dataType, collapse type.text ++ ' ' :: (rowTidied row ++ remnant last))
      else typeAndNames? (collapse type.text ++ ' ' :: (rowTidied row ++ remnant last))) =
      some (collapse type.text, rowTidied row ++ remnant last) := by
    rw [hcontext, if_neg Bool.false_ne_true]
    exact typeAndNames?_rowTidied type hne (by cases last <;> simp [remnant])
  rw [statements_row (isLead_lead type gap), readStatements_singleton rfl,
    tidy_lead type gap hne (settles_remnant last), tidy_remnant,
    readStatement_declares (by simp) (by rintro rfl -; simp [remnant]) hparts,
    declarators_remnant row hne, map_entryOf]

/-- Below a line that ended in a comma, the variables of a line have the type of that line. -/
theorem readStatements_untyped (hne : row ≠ []) (last : Bool) {context : Context}
    (hcontext : context.continues = true) (below : List Text) :
    readStatements context below (statements (rowText row ++ [ending last])) =
      { context := { context with continues := !last, carried := [] }
        entries := row.map (Variable.entry context.dataType (context.description [])) } := by
  have hparts : (if context.continues then some (context.dataType, rowTidied row ++ remnant last)
      else typeAndNames? (rowTidied row ++ remnant last)) =
      some (context.dataType, rowTidied row ++ remnant last) := by
    rw [hcontext, if_pos rfl]
  have hdeclares : rowTidied row ++ remnant last ≠ [] := by
    obtain ⟨v, more, rfl⟩ := List.exists_cons_of_ne_nil hne
    simp [rowTidied_cons, Variable.tidied, v.isWord_named.1]
  have hlead : IsLead [] := ⟨List.not_mem_nil, List.not_mem_nil⟩
  have hstatements := statements_row hlead row last
  rw [List.nil_append, List.nil_append, tidy_rowText hne (settles_remnant last), tidy_remnant]
    at hstatements
  rw [hstatements, readStatements_singleton rfl,
    readStatement_declares hdeclares (by rw [hcontext]; rintro - ⟨⟩) hparts,
    declarators_remnant row hne, map_entryOf]

/-! ## Lines -/

theorem endsWith_row (lead : Text) (row : List Variable) (last : Bool) :
    endsWith (lead ++ (rowText row ++ [ending last])) ['{'] = false := by
  rw [← List.append_assoc, endsWith_append_singleton]
  cases last <;> rfl

theorem exists_text_cons (type : DataType) :
    ∃ c s, type.text = c :: s ∧ Macro.isIdentifierCharacter c = true := by
  have hne : type.text ≠ [] := fun h => type.words_ne_nil (by rw [h]; rfl)
  obtain ⟨c, s, hcons⟩ := List.exists_cons_of_ne_nil hne
  have hblank : isBlank c = false :=
    isBlank_head?_trim (t := type.text) (by rw [type.trimmed, hcons]; rfl)
  refine ⟨c, s, hcons, (type.mem_text (hcons ▸ List.mem_cons_self)).resolve_left fun h => ?_⟩
  rw [hblank] at h
  cases h

/-- A line that begins with a type is read, and so is what is left of it without its variables. -/
theorem readLine_typed (type : DataType) {r : Text} (hend : endsWith (type.text ++ r) ['{'] = false)
    (context : Context) (below : List Text) :
    readLine context (type.text ++ r) below =
      readStatements context below (statements (type.text ++ r)) := by
  obtain ⟨c, s, hcons, hc⟩ := exists_text_cons type
  rw [hcons, List.cons_append] at hend ⊢
  exact readLine_of_word hc hend context below

end StructTables.Spelled
