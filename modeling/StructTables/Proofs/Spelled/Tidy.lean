import StructTables.Proofs.Canonical.Field
import StructTables.Proofs.Declaration.Spacing
import StructTables.Proofs.Spelled.Spelling

/-! # Tidying a freely spelled declaration

Tidying leaves of a declaration its words and marks: the type collapsed, and each variable as it would be
written with no blanks around marks at all. -/

namespace StructTables.Spelled
open Text Declaration Canonical

/-! ## Parts of a variable -/

theorem isWord_identifier (i : Identifier) : IsWord i.1 :=
  ⟨identifier_ne_nil i, fun c hc =>
    Macro.isBlank_eq_false (List.all_eq_true.mp (all_identifier i) c hc)⟩

theorem Size.isMark_eq_false (size : Size) : ∀ c ∈ size.text, isMark c = false := fun c hc =>
  (size.plain c hc).1

/-- The extent as it stands in a tidy declaration. -/
def Extent.tidied : Extent → Text
  | .single => []
  | .array first more => brackets ((first :: more).map fun group => collapse group.size.text)
  | .bits _ length => ':' :: collapse length.text

theorem tidyFrom_groups {r : Text} (hr : Settles r) (groups : List Group) (word gap : Bool) :
    tidyFrom word gap (groups.flatMap Group.text ++ r) =
      brackets (groups.map fun group => collapse group.size.text) ++ tidyFrom false false r := by
  induction groups generalizing word gap with
  | nil => exact hr word gap
  | cons group more ih =>
    have hsplit : (group :: more).flatMap Group.text ++ r =
        group.ahead.1 ++ '[' :: (group.size.text ++ ']' :: (more.flatMap Group.text ++ r)) := by
      simp [Group.text]
    rw [hsplit, (settles_mark rfl rfl _).tidyFrom_blanks group.ahead.2, tidyFrom_mark rfl rfl,
      (settles_mark rfl rfl _).tidyFrom_append group.size.isMark_eq_false, tidyFrom_mark rfl rfl,
      ih, List.map_cons, brackets_cons]
    simp

theorem tidyFrom_extent_append {r : Text} (hr : Settles r) (extent : Extent) (word gap : Bool) :
    tidyFrom word gap (extent.text ++ r) = extent.tidied ++ tidyFrom false false r := by
  cases extent with
  | single => exact hr word gap
  | array first more => exact tidyFrom_groups hr (first :: more) word gap
  | bits ahead length =>
    rw [Extent.text, List.append_assoc, List.cons_append,
      (settles_mark rfl rfl _).tidyFrom_blanks ahead.2, tidyFrom_mark rfl rfl,
      hr.tidyFrom_append length.isMark_eq_false]
    rfl

namespace Variable

variable (v : Variable)

/-- The variable as it stands in a tidy declaration. -/
def tidied : Text := v.named ++ v.extent.tidied

theorem all_named : v.named.all isSolid = true := all_starred v.stars v.name

theorem isSolid_of_mem_named {c : Char} (hc : c ∈ v.named) :
    isBlank c = false ∧ isMark c = false :=
  isSolid_iff.mp (List.all_eq_true.mp v.all_named c hc)

theorem isWord_named : IsWord v.named :=
  ⟨List.append_ne_nil_of_right_ne_nil _ (identifier_ne_nil v.name), fun _ hc =>
    (v.isSolid_of_mem_named hc).1⟩

/-- What stands ahead of the variable is collapsed together with its name. -/
theorem tidyFrom_append {lead r : Text} (hlead : ∀ c ∈ lead, isMark c = false) (hr : Settles r)
    (gap : Bool) :
    tidyFrom false gap (lead ++ (v.text ++ r)) =
      collapse (lead ++ (v.ahead.1 ++ v.named)) ++ (v.extent.tidied ++ tidyFrom false false r) := by
  have hextent := tidyFrom_extent_append (hr.blanks v.behind.2) v.extent
  have hsettles : Settles (v.extent.text ++ (v.behind.1 ++ r)) := fun word gap => by
    rw [hextent, hextent]
  have hplain : ∀ c ∈ lead ++ (v.ahead.1 ++ v.named), isMark c = false :=
    List.forall_mem_append.mpr ⟨hlead, List.forall_mem_append.mpr
      ⟨fun c hc => isMark_of_isBlank (v.ahead.2 c hc), fun _ hc => (v.isSolid_of_mem_named hc).2⟩⟩
  have hsplit : lead ++ (v.text ++ r) =
      (lead ++ (v.ahead.1 ++ v.named)) ++ (v.extent.text ++ (v.behind.1 ++ r)) := by simp [text]
  rw [hsplit, hsettles.tidyFrom_append hplain, hextent, hr.tidyFrom_blanks v.behind.2]

theorem collapse_ahead_named : collapse (v.ahead.1 ++ v.named) = v.named := by
  rw [v.ahead.2.collapse_append, v.isWord_named.collapse_eq]

end Variable

/-! ## Several variables -/

/-- Texts with commas ahead of them are tidied one by one. -/
theorem tidyFrom_pieces {α : Type} {text tidied : α → Text}
    (h : ∀ a r, Settles r → tidyFrom false false (text a ++ r) = tidied a ++ tidyFrom false false r)
    {r : Text} (hr : Settles r) (items : List α) (word gap : Bool) :
    tidyFrom word gap (items.flatMap (fun a => ',' :: text a) ++ r) =
      items.flatMap (fun a => ',' :: tidied a) ++ tidyFrom false false r := by
  induction items generalizing word gap with
  | nil => exact hr word gap
  | cons a more ih =>
    have hsettles : Settles (more.flatMap (fun a => ',' :: text a) ++ r) := fun word gap => by
      rw [ih, ih]
    rw [List.flatMap_cons, List.append_assoc, List.cons_append, tidyFrom_mark rfl rfl,
      h a _ hsettles, ih]
    simp

theorem tidyFrom_more {r : Text} (hr : Settles r) (vs : List Variable) (word gap : Bool) :
    tidyFrom word gap (vs.flatMap (',' :: ·.text) ++ r) =
      vs.flatMap (',' :: ·.tidied) ++ tidyFrom false false r := by
  refine tidyFrom_pieces (fun v r hr => ?_) hr vs word gap
  have hv := v.tidyFrom_append (List.forall_mem_nil _) hr false
  rw [List.nil_append, List.nil_append, v.collapse_ahead_named] at hv
  rw [hv, Variable.tidied, List.append_assoc]

/-- The text of variables as it stands in a tidy declaration. -/
def rowTidied (row : List Variable) : Text := join [','] (row.map Variable.tidied)

theorem rowText_cons (v : Variable) (more : List Variable) :
    rowText (v :: more) = v.text ++ more.flatMap (',' :: ·.text) := by
  rw [rowText, List.map_cons, join_cons, List.flatMap_map]
  rfl

theorem rowTidied_cons (v : Variable) (more : List Variable) :
    rowTidied (v :: more) = v.tidied ++ more.flatMap (',' :: ·.tidied) := by
  rw [rowTidied, List.map_cons, join_cons, List.flatMap_map]
  rfl

theorem tidyFrom_row {lead r : Text} (hlead : ∀ c ∈ lead, isMark c = false) (hr : Settles r)
    (v : Variable) (more : List Variable) (gap : Bool) :
    tidyFrom false gap (lead ++ (rowText (v :: more) ++ r)) =
      collapse (lead ++ (v.ahead.1 ++ v.named)) ++
        (v.extent.tidied ++ (more.flatMap (',' :: ·.tidied) ++ tidyFrom false false r)) := by
  have hmore := tidyFrom_more hr more
  have hsettles : Settles (more.flatMap (',' :: ·.text) ++ r) := fun word gap => by
    rw [hmore, hmore]
  rw [rowText_cons, List.append_assoc, v.tidyFrom_append hlead hsettles, hmore]

theorem tidy_rowText {row : List Variable} (hne : row ≠ []) {r : Text} (hr : Settles r) :
    tidy (rowText row ++ r) = rowTidied row ++ tidy r := by
  obtain ⟨v, more, rfl⟩ := List.exists_cons_of_ne_nil hne
  have hrow := tidyFrom_row (List.forall_mem_nil _) hr v more false
  rw [List.nil_append, List.nil_append, v.collapse_ahead_named] at hrow
  rw [tidy, hrow, rowTidied_cons, Variable.tidied]
  simp [tidy]

/-! ## The type -/

namespace DataType

variable (type : DataType)

theorem mem_text {c : Char} (hc : c ∈ type.text) :
    isBlank c = true ∨ Macro.isIdentifierCharacter c = true := by
  cases hblank : isBlank c with
  | true => exact .inl rfl
  | false =>
    obtain ⟨w, hw, hmem⟩ := exists_mem_words hc hblank
    exact .inr (List.all_eq_true.mp (all_identifier ⟨w, type.identifiers w hw⟩) c hmem)

theorem isMark_of_mem {c : Char} (hc : c ∈ type.text) : isMark c = false := by
  rcases type.mem_text hc with hblank | hidentifier
  · exact isMark_of_isBlank hblank
  · exact (isSolid_iff.mp (isSolid_of_isIdentifierCharacter hidentifier)).2

end DataType

/-- The type is parted from the variables by one space. -/
theorem tidy_lead (type : DataType) (gap : Blank) {row : List Variable} (hne : row ≠ []) {r : Text}
    (hr : Settles r) :
    tidy (type.lead gap ++ (rowText row ++ r)) =
      collapse type.text ++ ' ' :: (rowTidied row ++ tidy r) := by
  obtain ⟨v, more, rfl⟩ := List.exists_cons_of_ne_nil hne
  have hlead : ∀ c ∈ type.lead gap, isMark c = false :=
    List.forall_mem_append.mpr ⟨fun _ => type.isMark_of_mem,
      List.forall_mem_singleton.mpr (isMark_of_isBlank gap.2)⟩
  have hcollapse : collapse (type.lead gap ++ (v.ahead.1 ++ v.named)) =
      collapse type.text ++ ' ' :: v.named := by
    rw [DataType.lead, List.append_assoc, List.singleton_append,
      collapse_append_word type.words_ne_nil gap.2 v.ahead.2 v.isWord_named]
  rw [tidy, tidyFrom_row hlead hr v more false, hcollapse, rowTidied_cons, Variable.tidied]
  simp [tidy]

end StructTables.Spelled
