import StructTables.Proofs.Canonical.Header
import StructTables.Proofs.Macro.Identifier
import StructTables.Proofs.Source

/-! # The lines of a canonical header

Which characters the lines of a canonical header are made of. No line contains a line feed, has
blanks around it or goes on with the next one, so that a source has just these lines. -/

namespace StructTables.Canonical
open Text Declaration

/-! ## Characters -/

theorem all_identifier (i : Identifier) : i.1.all Macro.isIdentifierCharacter = true := by
  obtain ⟨c, r, -, -, hall⟩ := Macro.exists_of_isIdentifier i.2
  exact hall

theorem identifier_ne_nil (i : Identifier) : i.1 ≠ [] := by
  obtain ⟨c, r, hcons, -, -⟩ := Macro.exists_of_isIdentifier i.2
  exact hcons ▸ List.cons_ne_nil c r

theorem all_size (size : Size) : size.text.all Macro.isIdentifierCharacter = true := by
  cases size with
  | number literal =>
    obtain ⟨c, r, -, -, hall⟩ := Macro.exists_of_isNumeric literal.2
    exact hall
  | name i => exact all_identifier i

/-- The characters that a declaration is written with. -/
def isDeclarationCharacter (c : Char) : Bool :=
  Macro.isIdentifierCharacter c || c == ' ' || c == '*' || c == '[' || c == ']' || c == ':'

theorem all_isDeclarationCharacter {t : Text} (h : t.all Macro.isIdentifierCharacter = true) :
    t.all isDeclarationCharacter = true := by
  refine List.all_eq_true.mpr ?_
  intro c hc
  simp [isDeclarationCharacter, List.all_eq_true.mp h c hc]

theorem all_extent (extent : Extent) : extent.text.all isDeclarationCharacter = true := by
  cases extent with
  | single => rfl
  | array first more =>
    rw [Extent.text, brackets, List.flatMap_map, List.all_flatMap, List.all_eq_true]
    intro size _
    simp [all_isDeclarationCharacter (all_size size), isDeclarationCharacter]
  | bits length =>
    rw [Extent.text, List.all_append, all_isDeclarationCharacter (all_size length)]
    rfl

namespace Field

variable (field : Field)

theorem dataType_eq :
    field.dataType = field.type.1 ++ field.qualifiers.flatMap fun word => ' ' :: word.1 := by
  rw [dataType, join_cons, List.flatMap_map]
  rfl

theorem all_declaration : field.declaration.all isDeclarationCharacter = true := by
  have htype := all_isDeclarationCharacter (all_identifier field.type)
  have hname := all_isDeclarationCharacter (all_identifier field.name)
  have hwords : (field.qualifiers.flatMap fun word => ' ' :: word.1).all
      isDeclarationCharacter = true := by
    rw [List.all_flatMap, List.all_eq_true]
    intro word _
    rw [List.all_cons, all_isDeclarationCharacter (all_identifier word)]
    rfl
  have hstars : (List.replicate field.stars '*').all isDeclarationCharacter = true := by
    refine List.all_eq_true.mpr ?_
    intro c hc
    rw [List.eq_of_mem_replicate hc]
    rfl
  have hblank : isDeclarationCharacter ' ' = true := rfl
  rw [declaration, dataType_eq, declarator]
  simp only [List.all_append, List.all_cons, htype, hwords, hblank, hstars, hname,
    all_extent field.extent, Bool.and_self]

theorem not_mem_declaration {c : Char} (h : isDeclarationCharacter c = false) :
    c ∉ field.declaration :=
  Macro.not_mem_of_all field.all_declaration h

theorem exists_declaration_cons :
    ∃ c r, field.declaration = c :: r ∧ Macro.isIdentifierCharacter c = true := by
  obtain ⟨c, r, htype, hstart, -⟩ := Macro.exists_of_isIdentifier field.type.2
  rw [declaration, dataType_eq, htype]
  exact ⟨c, _, rfl, Macro.isIdentifierCharacter_of_isIdentifierStart hstart⟩

end Field

theorem Remark.comment_cases (remark : Remark) :
    (remark.text = [] ∧ remark.comment = []) ∨
      (remark.text ≠ [] ∧ remark.comment = " /* ".toList ++ remark.text ++ " */".toList) := by
  unfold Remark.comment
  cases h : remark.text with
  | nil => exact .inl ⟨rfl, rfl⟩
  | cons c r => exact .inr ⟨List.cons_ne_nil c r, rfl⟩

theorem Remark.not_mem_comment (remark : Remark) {c : Char} (h : c ∉ remark.text)
    (hc : c ∉ " /* ".toList ++ " */".toList) : c ∉ remark.comment := by
  simp only [List.mem_append, not_or] at hc
  rcases remark.comment_cases with ⟨-, heq⟩ | ⟨-, heq⟩ <;> rw [heq]
  · exact List.not_mem_nil
  · simp only [List.mem_append, not_or]
    exact ⟨⟨hc.1, h⟩, hc.2⟩

namespace Field

variable (field : Field)

theorem not_mem_line {c : Char} (hd : isDeclarationCharacter c = false) (hs : c ≠ ';')
    (h : c ∉ field.remark.text) (hc : c ∉ " /* ".toList ++ " */".toList) : c ∉ field.line := by
  simp only [line, List.mem_append, List.mem_cons, not_or]
  exact ⟨field.not_mem_declaration hd, hs, field.remark.not_mem_comment h hc⟩

theorem newline_not_mem_line : '\n' ∉ field.line :=
  field.not_mem_line rfl (by decide) field.remark.plain.1 (by decide)

theorem brace_not_mem_line : '{' ∉ field.line :=
  field.not_mem_line rfl (by decide) field.remark.plain.2.2.2 (by decide)

/-- The line ends in its semicolon or in the end of its comment. -/
theorem logical_line : Source.Logical field.line := by
  obtain ⟨c, r, hcons, hc⟩ := field.exists_declaration_cons
  have hblank := Macro.isBlank_eq_false hc
  have hnewline := field.newline_not_mem_line
  rcases field.remark.comment_cases with ⟨-, heq⟩ | ⟨-, heq⟩
  · have hline : field.line = c :: (r ++ [';']) := by simp [line, hcons, heq]
    rw [hline] at hnewline ⊢
    exact Source.logical_of_ends _ _ _ hnewline hblank rfl (by decide)
  · have hline : field.line =
        c :: (r ++ ';' :: " /* ".toList ++ field.remark.text ++ " *".toList ++ ['/']) := by
      simp [line, hcons, heq]
    rw [hline] at hnewline ⊢
    exact Source.logical_of_ends _ _ _ hnewline hblank rfl (by decide)

end Field

namespace Definition

variable (d : Definition)

theorem openingLine_of_tagged {d : Definition} (h : d.form = .tagged) :
    d.openingLine = "struct ".toList ++ d.name.1 ++ [' ', '{'] := by
  simp [openingLine, h]

theorem openingLine_of_typedef {d : Definition} (h : d.form = .typedef) :
    d.openingLine = "typedef struct ".toList ++ ['{'] := by
  simp [openingLine, h]

theorem closingLine_of_tagged {d : Definition} (h : d.form = .tagged) :
    d.closingLine = ['}', ';'] := by
  simp [closingLine, h]

theorem closingLine_of_typedef {d : Definition} (h : d.form = .typedef) :
    d.closingLine = '}' :: ' ' :: d.name.1 ++ [';'] := by
  simp [closingLine, h]

theorem logical_openingLine : Source.Logical d.openingLine := by
  have hname : '\n' ∉ d.name.1 := Macro.not_mem_of_all (all_identifier d.name) rfl
  cases h : d.form with
  | tagged =>
    have hline : d.openingLine = 's' :: ("truct ".toList ++ d.name.1 ++ [' '] ++ ['{']) := by
      simp [openingLine_of_tagged h]
    rw [hline]
    exact Source.logical_of_ends _ _ _ (by simp [hname]) rfl rfl (by decide)
  | typedef =>
    rw [openingLine_of_typedef h]
    exact ⟨by decide, by decide, by decide⟩

theorem logical_closingLine : Source.Logical d.closingLine := by
  have hname : '\n' ∉ d.name.1 := Macro.not_mem_of_all (all_identifier d.name) rfl
  cases h : d.form with
  | tagged =>
    rw [closingLine_of_tagged h]
    exact ⟨by decide, by decide, by decide⟩
  | typedef =>
    rw [closingLine_of_typedef h]
    exact Source.logical_of_ends '}' (' ' :: d.name.1) ';' (by simp [hname]) rfl rfl (by decide)

end Definition

/-- The logical lines of a header are the lines that it was written with. -/
theorem logicalLines_write (joining : Bool) (header : List Definition) :
    Source.logicalLines joining (write header) = header.flatMap Definition.lines := by
  refine Source.logicalLines_of_logical joining ?_
  intro line hline
  obtain ⟨d, -, hline⟩ := List.mem_flatMap.mp hline
  rw [Definition.lines, List.mem_append, List.mem_cons, List.mem_singleton] at hline
  rcases hline with (rfl | hfield) | rfl
  · exact d.logical_openingLine
  · obtain ⟨field, -, rfl⟩ := List.mem_map.mp hfield
    exact field.logical_line
  · exact d.logical_closingLine

end StructTables.Canonical
