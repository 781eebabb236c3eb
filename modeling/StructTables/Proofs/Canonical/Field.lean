import StructTables.Proofs.Body.Lines
import StructTables.Proofs.Canonical.Line
import StructTables.Proofs.Comment.Block
import StructTables.Proofs.Comment.Delimiters
import StructTables.Proofs.Declaration.Statement
import StructTables.Proofs.Declaration.Tidy

/-! # Reading the line of a field

The line of a field is one statement, and that declares one variable: the words up to the last space
are its type, the stars and the name come next, and the size is what stands behind these. -/

namespace StructTables.Canonical
open Text Declaration

/-! ## Tidy declarations -/

theorem size_ne_nil (size : Size) : size.text ≠ [] := by
  cases size with
  | number literal =>
    obtain ⟨c, r, hcons, -, -⟩ := Macro.exists_of_isNumeric literal.2
    rw [Size.text, hcons]
    exact List.cons_ne_nil c r
  | name i => exact identifier_ne_nil i

theorem isSolid_of_isIdentifierCharacter {c : Char} (h : Macro.isIdentifierCharacter c = true) :
    isSolid c = true := by
  have hno : ∀ d, Macro.isIdentifierCharacter d = false → c ≠ d := fun d hd heq => by
    rw [heq, hd] at h
    cases h
  simp [isSolid, isMark, Macro.isBlank_eq_false h, hno '[' rfl, hno ']' rfl, hno ':' rfl,
    hno ',' rfl]

theorem all_isSolid {t : Text} (h : t.all Macro.isIdentifierCharacter = true) :
    t.all isSolid = true :=
  List.all_eq_true.mpr fun c hc => isSolid_of_isIdentifierCharacter (List.all_eq_true.mp h c hc)

/-! ## Names with stars -/

theorem all_starred (stars : Nat) (i : Identifier) :
    (List.replicate stars '*' ++ i.1).all isSolid = true := by
  rw [List.all_append, all_isSolid (all_identifier i), Bool.and_true]
  refine List.all_eq_true.mpr fun c hc => ?_
  rw [List.eq_of_mem_replicate hc]
  rfl

theorem star_not_mem_head? (i : Identifier) : ∀ c ∈ i.1.head?, c ≠ '*' := by
  obtain ⟨c, r, hcons, hstart, -⟩ := Macro.exists_of_isIdentifier i.2
  rintro d hd rfl
  rw [hcons] at hd
  obtain rfl := Option.some.inj hd
  cases hstart

theorem bare_starred (stars : Nat) (i : Identifier) :
    bare (List.replicate stars '*' ++ i.1) = { name := i.1, stars := stars } := by
  rw [bare_replicate stars (star_not_mem_head? i), Macro.trim_of_all (all_identifier i)]

/-! ## Extents -/

/-- The extent as it stands in a tidy declaration. -/
def Extent.tidied : Extent → Text
  | .single => []
  | .array first more => brackets ((first :: more).map Size.text)
  | .bits length => ':' :: length.text

theorem mem_tidied {extent : Extent} {c : Char} (h : c ∈ extent.tidied) :
    Macro.isIdentifierCharacter c = true ∨ c = '[' ∨ c = ']' ∨ c = ':' := by
  cases extent with
  | single => cases h
  | array first more =>
    rw [Extent.tidied, brackets, List.flatMap_map] at h
    obtain ⟨size, -, hc⟩ := List.mem_flatMap.mp h
    simp only [List.mem_append, List.mem_cons, List.not_mem_nil, or_false] at hc
    rcases hc with (rfl | hc) | rfl
    · exact .inr (.inl rfl)
    · exact .inl (List.all_eq_true.mp (all_size size) c hc)
    · exact .inr (.inr (.inl rfl))
  | bits length =>
    rcases List.mem_cons.mp h with rfl | hc
    · exact .inr (.inr (.inr rfl))
    · exact .inl (List.all_eq_true.mp (all_size length) c hc)

theorem tidyFrom_brackets (sizes : List Size) (word : Bool) :
    tidyFrom word false (brackets (sizes.map Size.text)) = brackets (sizes.map Size.text) := by
  induction sizes generalizing word with
  | nil => rfl
  | cons size more ih =>
    rw [List.map_cons, brackets_cons, tidyFrom_mark rfl rfl,
      tidyFrom_word (size_ne_nil size) (all_isSolid (all_size size)), tidyFrom_mark rfl rfl, ih]
    rfl

theorem tidyFrom_extent (extent : Extent) : tidyFrom true false extent.text = extent.tidied := by
  cases extent with
  | single => rfl
  | array first more => exact tidyFrom_brackets (first :: more) true
  | bits length =>
    have hword := tidyFrom_word (size_ne_nil length) (all_isSolid (all_size length)) false true []
    rw [List.append_nil] at hword
    show ':' :: tidyFrom false true length.text = _
    rw [hword, tidyFrom, List.append_nil]
    rfl

namespace Field

variable (field : Field)

theorem all_declarator : field.declarator.all isSolid = true := all_starred field.stars field.name

theorem declarator_ne_nil : field.declarator ≠ [] :=
  List.append_ne_nil_of_right_ne_nil _ (identifier_ne_nil field.name)

theorem tidy_declaration :
    tidy field.declaration = field.dataType ++ ' ' :: (field.declarator ++ field.extent.tidied) := by
  let words := field.qualifiers.map (·.1) ++ [field.declarator]
  have hwords : ∀ w ∈ words, w ≠ [] ∧ w.all isSolid = true := by
    intro w hw
    rcases List.mem_append.mp hw with hw | hw
    · obtain ⟨word, -, rfl⟩ := List.mem_map.mp hw
      exact ⟨identifier_ne_nil word, all_isSolid (all_identifier word)⟩
    · obtain rfl := List.mem_singleton.mp hw
      exact ⟨field.declarator_ne_nil, field.all_declarator⟩
  have hdeclaration :
      field.declaration = field.type.1 ++ (words.flatMap (' ' :: ·) ++ field.extent.text) := by
    simp [declaration, dataType_eq, words]
  rw [hdeclaration, tidy,
    tidyFrom_word (identifier_ne_nil field.type) (all_isSolid (all_identifier field.type)),
    tidyFrom_words hwords, tidyFrom_extent]
  simp [dataType_eq, words]

/-! ## Types -/

theorem mem_dataType {c : Char} (h : c ∈ field.dataType) :
    Macro.isIdentifierCharacter c = true ∨ c = ' ' := by
  rw [dataType_eq, List.mem_append, List.mem_flatMap] at h
  rcases h with h | ⟨word, -, h⟩
  · exact .inl (List.all_eq_true.mp (all_identifier field.type) c h)
  · rcases List.mem_cons.mp h with rfl | h
    · exact .inr rfl
    · exact .inl (List.all_eq_true.mp (all_identifier word) c h)

theorem trim_dataType : trim field.dataType = field.dataType := by
  have hidentifier : ∀ (i : Identifier), ∀ c ∈ i.1, isBlank c = false := fun i _ hc =>
    Macro.isBlank_of_mem (all_identifier i) hc
  rw [dataType_eq]
  refine trim_eq_self ?_ ?_ <;> intro c hc
  · obtain ⟨d, r, hcons, -, -⟩ := Macro.exists_of_isIdentifier field.type.2
    rw [hcons] at hc
    exact hidentifier field.type c (by simp [hcons, Option.some.inj hc])
  · rcases List.eq_nil_or_concat field.qualifiers with hnil | ⟨init, last, heq⟩
    · rw [hnil, List.flatMap_nil, List.append_nil] at hc
      exact hidentifier field.type c (List.mem_of_mem_getLast? hc)
    · have hlast : (field.type.1 ++ field.qualifiers.flatMap fun word => ' ' :: word.1) =
          (field.type.1 ++ (init.flatMap fun word => ' ' :: word.1) ++ [' ']) ++ last.1 := by
        simp [heq]
      rw [hlast, List.getLast?_append, List.getLast?_eq_some_getLast (identifier_ne_nil last),
        Option.some_or] at hc
      exact hidentifier last c (Option.some.inj hc ▸ List.getLast_mem _)

theorem typeAndNames?_declaration :
    typeAndNames? (field.dataType ++ ' ' :: (field.declarator ++ field.extent.tidied)) =
      some (field.dataType, field.declarator ++ field.extent.tidied) := by
  have htype : ∀ c ∈ field.dataType, isMark c = false := fun c hc => by
    rcases field.mem_dataType hc with hc | rfl
    · exact (isSolid_iff.mp (isSolid_of_isIdentifierCharacter hc)).2
    · rfl
  have hrest : ∀ c ∈ field.extent.tidied.head?, c = ',' ∨ c = '[' ∨ c = ':' := fun c hc => by
    cases h : field.extent with
    | single => rw [h] at hc; cases hc
    | array first more => rw [h] at hc; exact .inr (.inl (Option.some.inj hc).symm)
    | bits length => rw [h] at hc; exact .inr (.inr (Option.some.inj hc).symm)
  rw [typeAndNames?_append htype field.all_declarator hrest, trim_dataType]

/-! ## Declarators -/

/-- What the declarator of a field comes to. -/
def declared : Declarator where
  name := field.name.1
  stars := field.stars
  arraySize := join [','] (field.extent.dimensions.map Size.text)
  bitLength := join [','] (field.extent.bitLength.map Size.text)

theorem bare_declarator :
    bare field.declarator = { name := field.name.1, stars := field.stars } :=
  bare_starred field.stars field.name

theorem ofText_declarator :
    Declarator.ofText (field.declarator ++ field.extent.tidied) = field.declared := by
  have hbracket : '[' ∉ field.declarator := Macro.not_mem_of_all field.all_declarator rfl
  have hcolon : ':' ∉ field.declarator := Macro.not_mem_of_all field.all_declarator rfl
  rw [declared]
  cases field.extent with
  | single =>
    rw [Extent.tidied, List.append_nil, ofText_bare hbracket hcolon, bare_declarator]
    rfl
  | array first more =>
    have hsizes : ∀ size ∈ (first :: more).map Size.text, '[' ∉ size ∧ ']' ∉ size := by
      intro size hsize
      obtain ⟨s, -, rfl⟩ := List.mem_map.mp hsize
      exact ⟨Macro.not_mem_of_all (all_size s) rfl, Macro.not_mem_of_all (all_size s) rfl⟩
    rw [Extent.tidied, List.map_cons, brackets_cons, ofText_array hbracket, bare_declarator,
      ← brackets_cons, dimensions_brackets hsizes]
    rfl
  | bits length =>
    rw [Extent.tidied, ofText_bits hbracket hcolon (Macro.not_mem_of_all (all_size length) rfl),
      bare_declarator, Macro.trim_of_all (all_size length), Extent.bitLength, List.map_singleton,
      join_singleton]
    rfl

theorem declarators_declaration :
    declarators (field.declarator ++ field.extent.tidied) = [field.declared] := by
  have hsolid : ∀ c ∈ field.declarator ++ field.extent.tidied, isBlank c = false ∧ c ≠ ',' := by
    intro c hc
    rcases List.mem_append.mp hc with hc | hc
    · have hsolid := List.all_eq_true.mp field.all_declarator c hc
      exact ⟨(isSolid_iff.mp hsolid).1, fun heq => by rw [heq] at hsolid; cases hsolid⟩
    · rcases mem_tidied hc with hc | rfl | rfl | rfl
      · exact ⟨Macro.isBlank_eq_false hc, fun heq => by rw [heq] at hc; cases hc⟩
      all_goals exact ⟨rfl, by decide⟩
  have hcomma : ',' ∉ field.declarator ++ field.extent.tidied := fun hc => (hsolid ',' hc).2 rfl
  have hempty : (field.declarator ++ field.extent.tidied).isEmpty = false := by
    simp [field.declarator_ne_nil]
  rw [declarators, splitOn_of_not_mem hcomma, List.map_singleton,
    trim_eq_self_of_all fun c hc => (hsolid c hc).1, List.filter_cons_of_pos (by simp [hempty]),
    List.filter_nil, List.map_singleton, ofText_declarator]

/-! ## Comments -/

theorem trim_comment (remark : Remark) :
    trim remark.comment =
      if remark.text.isEmpty then [] else "/* ".toList ++ remark.text ++ " */".toList := by
  rcases remark.comment_cases with ⟨hempty, heq⟩ | ⟨hne, heq⟩ <;> rw [heq]
  · rw [hempty]
    rfl
  · have hcons : " /* ".toList ++ remark.text ++ " */".toList =
        ' ' :: '/' :: ("* ".toList ++ remark.text ++ " *".toList ++ ['/']) := by simp
    rw [hcons, trim_cons_of_isBlank rfl, trim_cons_append _ rfl rfl, if_neg (by simpa using hne)]
    simp

/-- The comment behind a declaration, if there is one, says the remark. -/
theorem read_comment (remark : Remark) (below : List Text) :
    Comment.read (trim remark.comment) below = ⟨remark.text, 0⟩ := by
  rw [trim_comment]
  split
  case isTrue hempty =>
    rw [List.isEmpty_iff.mp hempty]
    rfl
  case isFalse hne =>
    obtain ⟨-, hstar, hslash, -⟩ := remark.plain
    exact Comment.read_block remark.trimmed (by simpa using hne) hstar hslash below

/-! ## Statements -/

theorem terminator?_line : terminator? field.line = some (field.declaration, field.remark.comment) := by
  have hslash : '/' ∉ field.declaration ++ [';'] := by
    simpa using field.not_mem_declaration (c := '/') rfl
  have hcode : (Comment.code field.line).contains ';' = true := by
    rw [line, List.append_cons, Comment.code_append hslash]
    simp
  rw [terminator?, hcode, if_pos rfl, line, cutFirst?_append (field.not_mem_declaration rfl)]

theorem statements_line :
    statements field.line =
      [{ source := field.line
         declaration := field.dataType ++ ' ' :: (field.declarator ++ field.extent.tidied)
         terminated := true
         comment := trim field.remark.comment }] := by
  have hcomment : (if Comment.begins (trim field.remark.comment) then trim field.remark.comment
      else []) = trim field.remark.comment := by
    rw [trim_comment]
    split <;> rfl
  have hend : ((trim field.remark.comment).isEmpty ||
      Comment.begins (trim field.remark.comment)) = true := by
    rw [trim_comment]
    split <;> rfl
  rw [statements_of_terminator field.terminator?_line, hend, if_pos rfl, firstStatement,
    field.terminator?_line]
  simp only [hcomment, tidy_declaration]

/-! ## Lines -/

/-- The variable that the line of a field declares. -/
def entry : Body.Entry := .variable field.dataType field.declared field.remark.text

theorem readStatement_line (dataType : Text) :
    Body.readStatement { dataType := dataType }
        { source := field.line
          declaration := field.dataType ++ ' ' :: (field.declarator ++ field.extent.tidied)
          terminated := true
          comment := trim field.remark.comment }
        field.remark.text =
      { context := { dataType := field.dataType }, entries := [field.entry], goesOn := true } := by
  have hname : field.declared.name.isEmpty = false := by
    simpa [declared] using identifier_ne_nil field.name
  have hdescription : Body.Context.description { dataType := dataType } field.remark.text =
      field.remark.text := by
    cases h : field.remark.text with
    | nil => rfl
    | cons c r => exact join_singleton _ _
  simp [Body.readStatement, typeAndNames?_declaration, declarators_declaration, Body.entryOf,
    hname, hdescription, entry]

/-- Whatever type the line above it had, the line of a field declares the variable of the field. -/
theorem readLine_line (dataType : Text) (below : List Text) :
    Body.readLine { dataType := dataType } field.line below =
      { context := { dataType := field.dataType }, entries := [field.entry] } := by
  obtain ⟨c, r, hcons, hc⟩ := field.exists_declaration_cons
  have hline : field.line = c :: (r ++ ';' :: field.remark.comment) := by simp [line, hcons]
  have hend := Body.endsWith_brace_eq_false field.brace_not_mem_line
  rw [hline] at hend
  rw [hline, Body.readLine_of_word hc hend, ← hline, statements_line]
  simp only [Body.readStatements, read_comment, readStatement_line, List.isEmpty_nil, Bool.not_true,
    Bool.and_false, Bool.false_eq_true, if_false]

end Field

/-- A body of fields declares their variables. -/
theorem readFrom_fields (fields : List Field) (dataType : Text) :
    Body.readFrom { dataType := dataType } 0 (fields.map Field.line) = fields.map Field.entry := by
  induction fields generalizing dataType with
  | nil => rfl
  | cons field more ih =>
    rw [List.map_cons, Body.readFrom]
    simp only [Field.readLine_line, ih, List.map_cons, List.singleton_append]

end StructTables.Canonical
