import StructTables.Proofs.Canonical.Line
import StructTables.Proofs.Outline.Opening
import StructTables.Proofs.Outline.Step

/-! # The outline of a canonical header

The opening line of a structure opens it, the closing line closes it, and the line of a field does
neither, whatever its words are: its semicolon stands ahead of all that could be taken for an opening. -/

namespace StructTables.Canonical
open Text Outline

/-! ## Lines -/

theorem isTerminated_line (field : Field) : isTerminated field.line :=
  ⟨field.declaration, field.remark.comment, rfl, field.not_mem_declaration rfl⟩

theorem closes_line (field : Field) : closes field.line = false := by
  obtain ⟨c, r, hcons, hc⟩ := field.exists_declaration_cons
  have hne : '}' ≠ c := fun heq => by rw [← heq] at hc; cases hc
  simp [closes, startsWith, Field.line, hcons, List.isPrefixOf, hne]

theorem openAfter_line (field : Field) : Comment.openAfter false field.line = false := by
  have hslash : '/' ∉ field.declaration ++ [';'] := by
    simpa using field.not_mem_declaration (c := '/') rfl
  rw [Field.line, List.append_cons, Comment.openAfter_append_of_no_slash hslash]
  rcases field.remark.comment_cases with ⟨-, heq⟩ | ⟨-, heq⟩ <;> rw [heq]
  · rfl
  · have hopen : Comment.openAfter false (" /* ".toList ++ field.remark.text ++ " */".toList) =
        Comment.openAfter true (field.remark.text ++ " */".toList) := by
      simp [Comment.openAfter]
    rw [hopen, Comment.openAfter_append_of_no_star field.remark.plain.2.1]
    rfl

namespace Definition

/-- The name that stands on the opening line. -/
def openingName (d : Definition) : Text :=
  match d.form with
  | .tagged => d.name.1
  | .typedef => []

variable (d : Definition)

/-- The characters that an opening line is written with. -/
def isOpeningCharacter (c : Char) : Bool :=
  Macro.isIdentifierCharacter c || c == ' ' || c == '{'

theorem not_mem_openingLine {c : Char} (h : isOpeningCharacter c = false) :
    c ∉ d.openingLine := by
  have hname : d.name.1.all isOpeningCharacter = true := List.all_eq_true.mpr fun c hc => by
    simp [isOpeningCharacter, List.all_eq_true.mp (all_identifier d.name) c hc]
  refine Macro.not_mem_of_all ?_ h
  unfold openingLine
  split
  · rw [List.all_append, List.all_append, hname]
    rfl
  · rfl

theorem cutName_name (r : Text) : cutName (trimStart (' ' :: (d.name.1 ++ ' ' :: r))) =
    (d.name.1, ' ' :: r) := by
  obtain ⟨c, more, hcons, hstart, hall⟩ := Macro.exists_of_isIdentifier d.name.2
  have hc := Macro.isIdentifierCharacter_of_isIdentifierStart hstart
  have hword : ∀ x ∈ d.name.1, isWordCharacter x = true := fun x hx =>
    Macro.isWordCharacter_of_isIdentifierCharacter (List.all_eq_true.mp hall x (hcons ▸ hx))
  have htrim : trimStart (' ' :: (d.name.1 ++ ' ' :: r)) = d.name.1 ++ ' ' :: r := by
    rw [trimStart, List.dropWhile_cons_of_pos rfl, hcons, List.cons_append,
      List.dropWhile_cons_of_neg (by simp [Macro.isBlank_eq_false hc])]
  have hblank : isWordCharacter ' ' = false := rfl
  rw [htrim]
  unfold cutName
  split
  case h_1 hnil => simp at hnil
  case h_2 e s hes =>
    obtain rfl : c = e := by
      rw [hcons] at hes
      exact (List.cons.inj hes).1
    rw [if_pos hstart, List.takeWhile_append_of_pos hword, List.dropWhile_append_of_pos hword,
      List.takeWhile_cons_of_neg (by simp [hblank]), List.dropWhile_cons_of_neg (by simp [hblank]),
      List.append_nil]

theorem opening?_openingLine : opening? d.openingLine = some (d.form, d.openingName) := by
  cases h : d.form with
  | tagged =>
    have hcode := Comment.code_eq_self (d.not_mem_openingLine (c := '/') rfl)
    have hclear : (d.openingLine.any fun c => c == ';' || c == '=' || c == '(') = false := by
      refine List.any_eq_false.mpr ?_
      intro c hc
      simp only [Bool.or_eq_true, beq_iff_eq, not_or]
      exact ⟨⟨fun heq => d.not_mem_openingLine rfl (heq ▸ hc),
        fun heq => d.not_mem_openingLine rfl (heq ▸ hc)⟩,
        fun heq => d.not_mem_openingLine rfl (heq ▸ hc)⟩
    have htypedef : opensTypedef d.openingLine = false := by
      rw [openingLine_of_tagged h]
      rfl
    have hkeyword : afterKeyword? structKeyword d.openingLine =
        some (' ' :: (d.name.1 ++ [' ', '{'])) := by
      rw [openingLine_of_tagged h]
      rfl
    simp only [opening?, htypedef, hcode, hclear, hkeyword, Bool.false_eq_true, if_false,
      Option.map_some, cutName_name, openingName, h]
  | typedef =>
    rw [openingLine_of_typedef h, openingName, h]
    rfl

theorem openAfter_openingLine : Comment.openAfter false d.openingLine = false :=
  Comment.openAfter_of_no_star (d.not_mem_openingLine rfl)

theorem brokenLine_openingLine : brokenLine d.openingLine = [d.openingLine] := by
  have hname : '{' ∉ d.name.1 := Macro.not_mem_of_all (all_identifier d.name) rfl
  cases h : d.form with
  | tagged =>
    have hline : d.openingLine = "struct ".toList ++ d.name.1 ++ [' '] ++ ['{'] := by
      simp [openingLine_of_tagged h]
    rw [hline]
    exact brokenLine_append_brace _ (by simp [hname])
  | typedef =>
    rw [openingLine_of_typedef h]
    exact brokenLine_append_brace "typedef struct ".toList (by decide)

theorem brokenLine_closingLine : brokenLine d.closingLine = [d.closingLine] := by
  have hname : '{' ∉ d.name.1 := Macro.not_mem_of_all (all_identifier d.name) rfl
  refine brokenLine_of_no_brace ?_
  unfold closingLine
  split <;> simp [hname]

theorem closes_closingLine : closes d.closingLine = true := by
  unfold closingLine
  split <;> rfl

end Definition

/-! ## Regions -/

theorem regionsFrom_fields (opening : Opening) (fields : List Field) (number : Nat)
    (body below : List Text) :
    regionsFrom number (.inside opening body false) (fields.map Field.line ++ below) =
      regionsFrom (number + fields.length) (.inside opening (body ++ fields.map Field.line) false)
        below := by
  induction fields generalizing number body with
  | nil => simp
  | cons field more ih =>
    have hreopening : reopening? field.line (more.map Field.line ++ below) = none := by
      rw [reopening?, opening?_of_isTerminated (isTerminated_line field), Option.filter_none]
    rw [List.map_cons, List.cons_append, regionsFrom_body opening body (closes_line field)
      hreopening, openAfter_line, ih, List.append_assoc, List.singleton_append, List.length_cons,
      Nat.add_assoc, Nat.add_comm 1]

/-- The lines of a structure are one region, whatever follows them. -/
theorem regionsFrom_lines (d : Definition) (number : Nat) (below : List Text) :
    regionsFrom number .outside (d.lines ++ below) =
      .closed ⟨d.form, d.openingName, number⟩ (d.fields.map Field.line) d.closingLine ::
        regionsFrom (number + d.lines.length) .outside below := by
  have hlength : number + d.lines.length = number + 1 + d.fields.length + 1 := by
    simp only [Definition.lines, List.length_append, List.length_cons, List.length_map,
      List.length_nil]
    omega
  rw [Definition.lines, List.append_assoc, List.cons_append,
    regionsFrom_opening d.opening?_openingLine, d.openAfter_openingLine, List.singleton_append,
    regionsFrom_fields, regionsFrom_closing _ _ d.closes_closingLine, List.nil_append,
    ← Definition.lines, hlength]

theorem brokenLines_lines (header : List Definition) :
    brokenLines (header.flatMap Definition.lines) = header.flatMap Definition.lines := by
  have hself : ∀ line ∈ header.flatMap Definition.lines, brokenLine line = [line] := by
    intro line hline
    obtain ⟨d, -, hline⟩ := List.mem_flatMap.mp hline
    rw [Definition.lines, List.mem_append, List.mem_cons, List.mem_singleton] at hline
    rcases hline with (rfl | hfield) | rfl
    · exact d.brokenLine_openingLine
    · obtain ⟨field, -, rfl⟩ := List.mem_map.mp hfield
      exact brokenLine_of_no_brace field.brace_not_mem_line
    · exact d.brokenLine_closingLine
  rw [brokenLines, List.flatMap_def, List.map_congr_left hself, ← List.flatMap_def,
    List.flatMap_singleton']

end StructTables.Canonical
