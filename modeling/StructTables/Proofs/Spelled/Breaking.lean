import StructTables.Proofs.Spelled.Members

/-! # Breaking a declaration over several lines

A line may end behind the type of a declaration, and behind each of its commas. What is carried to the
line below is the type and that the declaration goes on, so that the broken lines declare what the whole
one does. The exception is a line that begins with two stars: it is taken for the middle of a block
comment and skipped. -/

namespace StructTables.Spelled
open Text Declaration Body

/-- A way to break a line: behind its type or not, and its variables in rows, one row on each line. -/
structure Breaking (line : Line) where
  afterType : Bool
  rows : List (List Variable)
  nonempty : ∀ row ∈ rows, row ≠ []
  flatten_rows : rows.flatten = line.row

/-- A line for each row of variables: all but the last one end in a comma. -/
def rowLines : List (List Variable) → List Text
  | [] => []
  | row :: more => (rowText row ++ [ending more.isEmpty]) :: rowLines more

/-- The broken lines, trimmed as the lines of a body are. -/
def Breaking.lines {line : Line} (breaking : Breaking line) : List Text :=
  (if breaking.afterType then line.type.text :: rowLines breaking.rows
    else (rowLines breaking.rows).modifyHead (line.type.lead line.gap ++ ·)).map trim

/-! ## Rows -/

def Variable.trimmed (v : Variable) : Variable := { v with ahead := ⟨[], List.forall_mem_nil _⟩ }

/-- A row without the blanks ahead of its first variable. -/
def trimmedRow (row : List Variable) : List Variable := row.modifyHead Variable.trimmed

variable {row : List Variable}

theorem isBlank_ending (last : Bool) : isBlank (ending last) = false := by
  cases last <;> rfl

theorem exists_named_cons (v : Variable) :
    ∃ c r, v.named = c :: r ∧ isBlank c = false := by
  obtain ⟨c, r, hcons⟩ := List.exists_cons_of_ne_nil v.isWord_named.1
  exact ⟨c, r, hcons, v.isWord_named.2 c (hcons ▸ List.mem_cons_self)⟩

theorem trim_row (hne : row ≠ []) (last : Bool) :
    trim (rowText row ++ [ending last]) = rowText (trimmedRow row) ++ [ending last] := by
  obtain ⟨v, more, rfl⟩ := List.exists_cons_of_ne_nil hne
  obtain ⟨c, r, hcons, hc⟩ := exists_named_cons v
  have hsplit : rowText (v :: more) ++ [ending last] =
      v.ahead.1 ++ (rowText (trimmedRow (v :: more)) ++ [ending last]) := by
    simp [rowText_cons, trimmedRow, Variable.trimmed, Variable.text, Variable.named]
  have hhead : rowText (trimmedRow (v :: more)) = c :: (r ++ (v.extent.text ++ (v.behind.1 ++
      more.flatMap (',' :: ·.text)))) := by
    have hnamed : List.replicate v.stars '*' ++ v.name.1 = c :: r := hcons
    simp [rowText_cons, trimmedRow, Variable.trimmed, Variable.text, Variable.named, hnamed]
  rw [hsplit, trim_append_of_blanks v.ahead.2, hhead, List.cons_append,
    trim_cons_append _ hc (isBlank_ending last)]

theorem map_entry_trimmedRow (dataType description : Text) (row : List Variable) :
    (trimmedRow row).map (Variable.entry dataType description) =
      row.map (Variable.entry dataType description) := by
  cases row <;> rfl

/-- A row of variables is read statement by statement, unless it begins with two stars. -/
theorem readLine_starred {stars : Nat} {c : Char} {r : Text}
    (hc : Macro.isIdentifierCharacter c = true)
    (hstars : startsWith (List.replicate stars '*' ++ c :: r) ['*', '*'] = false)
    (hend : endsWith (List.replicate stars '*' ++ c :: r) ['{'] = false) (context : Context)
    (below : List Text) :
    readLine context (List.replicate stars '*' ++ c :: r) below =
      readStatements context below (statements (List.replicate stars '*' ++ c :: r)) := by
  match stars with
  | 0 => exact readLine_of_word hc hend context below
  | 1 =>
    have hno {d : Char} : Macro.isIdentifierCharacter d = false → c ≠ d :=
      Macro.ne_of_isIdentifierCharacter hc
    exact readLine_eq_readStatements (Comment.begins_cons_eq_false (by decide) _)
      (isSkipped_star_eq_false ⟨hno rfl, hno rfl⟩ hend) context below
  | n + 2 => simp [startsWith, List.replicate_succ, List.isPrefixOf] at hstars

theorem readLine_row (hne : row ≠ []) (last : Bool)
    (hstars : startsWith (trim (rowText row ++ [ending last])) ['*', '*'] = false)
    {context : Context} (hcontext : context.continues = true) (below : List Text) :
    readLine context (trim (rowText row ++ [ending last])) below =
      { context := { context with continues := !last, carried := [] }
        entries := row.map (Variable.entry context.dataType (context.description [])) } := by
  have hread : readLine context (trim (rowText row ++ [ending last])) below =
      readStatements context below (statements (rowText (trimmedRow row) ++ [ending last])) := by
    rw [trim_row hne] at hstars ⊢
    have hend := endsWith_row [] (trimmedRow row) last
    rw [List.nil_append] at hend
    obtain ⟨v, more, rfl⟩ := List.exists_cons_of_ne_nil hne
    obtain ⟨c, r, hcons, -, hall⟩ := Macro.exists_of_isIdentifier v.name.2
    have hc : Macro.isIdentifierCharacter c = true :=
      List.all_eq_true.mp hall c (hcons ▸ List.mem_cons_self)
    have hsplit : rowText (trimmedRow (v :: more)) ++ [ending last] =
        List.replicate v.stars '*' ++ c :: (r ++ (v.extent.text ++ (v.behind.1 ++
          (more.flatMap (',' :: ·.text) ++ [ending last])))) := by
      simp [rowText_cons, trimmedRow, Variable.trimmed, Variable.text, Variable.named, hcons]
    rw [hsplit] at hstars hend ⊢
    exact readLine_starred hc hstars hend context below
  have hrow : trimmedRow row ≠ [] := by simpa [trimmedRow] using hne
  rw [hread, readStatements_untyped hrow last hcontext, map_entry_trimmedRow]

theorem readFrom_rowLines {rows : List (List Variable)} (hne : rows ≠ [])
    (hnonempty : ∀ row ∈ rows, row ≠ [])
    (hstars : ∀ line ∈ (rowLines rows).map trim, startsWith line ['*', '*'] = false)
    (dataType : Text) (further : List Text) :
    readFrom { dataType := dataType, continues := true } 0
        ((rowLines rows).map trim ++ further) =
      rows.flatten.map (Variable.entry dataType []) ++
        readFrom { dataType := dataType } 0 further := by
  induction rows with
  | nil => exact absurd rfl hne
  | cons row more ih =>
    obtain ⟨hrow, hmore⟩ := List.forall_mem_cons.mp hnonempty
    rw [rowLines, List.map_cons] at hstars
    obtain ⟨hfirst, hrest⟩ := List.forall_mem_cons.mp hstars
    rw [rowLines, List.map_cons, List.cons_append, readFrom, readLine_row hrow _ hfirst rfl]
    -- the last row ends the declaration, and any other leaves it open for the row below
    cases more with
    | nil => simp [rowLines, Context.description, join]
    | cons next more =>
      have hread := ih (List.cons_ne_nil _ _) hmore hrest
      simp only [List.isEmpty_cons, Bool.not_false, List.flatten_cons, List.map_append] at hread ⊢
      rw [hread]
      simp [Context.description, join]

/-! ## The type -/

/-- A type that stands alone is kept for the variables below it. -/
theorem readLine_type (type : DataType) (below : List Text) :
    readLine {} type.text below =
      { context := { dataType := collapse type.text, continues := true } } := by
  obtain ⟨c, s, hcons, hc⟩ := exists_text_cons type
  have hend := endsWith_brace_eq_false (not_mem_type type (c := '{') rfl rfl)
  have hfree : Comment.cut type.text = (type.text, []) :=
    Comment.cut_eq_self (Comment.code_eq_self (not_mem_type type rfl rfl))
  have htidy : tidy type.text = collapse type.text := by
    have happend := settles_nil.tidyFrom_append (fun _ => type.isMark_of_mem) false
    rwa [List.append_nil, tidyFrom, List.append_nil] at happend
  have hcomma : ',' ∉ collapse type.text := fun hmem => by
    cases type.isMark_of_mem_collapse hmem
  have hempty : (collapse type.text).isEmpty = false := by
    simpa using collapse_ne_nil type.words_ne_nil
  rw [hcons] at hend
  rw [hcons, readLine_of_word hc hend, ← hcons,
    statements_of_open hfree (not_mem_type type rfl rfl), readStatements_singleton rfl, htidy]
  simp [readStatement, hempty, hcomma]

/-- Behind its type a line ends as it does anyway. -/
theorem trim_lead (type : DataType) (gap : Blank) (row : List Variable) (last : Bool) :
    trim (type.lead gap ++ (rowText row ++ [ending last])) =
      type.lead gap ++ (rowText row ++ [ending last]) := by
  obtain ⟨c, s, hcons, hc⟩ := exists_text_cons type
  have hsplit : type.lead gap ++ (rowText row ++ [ending last]) =
      c :: ((s ++ [gap.1] ++ rowText row) ++ [ending last]) := by simp [DataType.lead, hcons]
  rw [hsplit, trim_cons_append _ (Macro.isBlank_eq_false hc) (isBlank_ending last)]

/-- Breaking a declaration behind its type or a comma changes nothing, for all that a body adds and
reports, unless a broken line begins with two stars. -/
theorem addBody_lines {line : Line} (breaking : Breaking line)
    (hstars : ∀ row ∈ breaking.lines, startsWith row ['*', '*'] = false) (further : List Text)
    (owner : Structure) (collector : Macro.Collector) :
    owner.addBody collector (breaking.lines ++ further) =
      owner.addBody collector (line.text :: further) := by
  have hread : Body.read (breaking.lines ++ further) = Body.read (line.text :: further) := by
    obtain ⟨afterType, rows, hnonempty, hflatten⟩ := breaking
    have hne : rows ≠ [] := by
      rintro rfl
      cases hflatten
    rw [read_line, ← hflatten, Body.read]
    cases afterType with
    | true =>
      have hrows := fun row hrow => hstars row (List.mem_cons_of_mem _ hrow)
      have hlines := readFrom_rowLines hne hnonempty hrows (collapse line.type.text) further
      simp only [Breaking.lines, if_true, List.map_cons, List.cons_append, readFrom, line.type.trimmed,
        readLine_type, List.nil_append, hlines]
    | false =>
      obtain ⟨row, more, rfl⟩ := List.exists_cons_of_ne_nil hne
      obtain ⟨hrow, hmore⟩ := List.forall_mem_cons.mp hnonempty
      have hrows := fun row hrow => hstars row (List.mem_cons_of_mem _ hrow)
      simp only [Breaking.lines, Bool.false_eq_true, if_false, rowLines, List.modifyHead_cons,
        List.map_cons, List.cons_append, readFrom, trim_lead, readLine_lead line.type line.gap hrow]
      cases more with
      | nil => simp [rowLines]
      | cons next more =>
        have hlines := readFrom_rowLines (List.cons_ne_nil next more) hmore hrows
          (collapse line.type.text) further
        simp only [List.isEmpty_cons, Bool.not_false]
        rw [hlines, ← List.append_assoc, ← List.map_append, ← List.flatten_cons]
  rw [Structure.addBody, Structure.addBody, hread]

/-- A variable of that name with that many stars, and nothing else. -/
def plainVariable (stars : Nat) (name : Canonical.Identifier) : Variable where
  ahead := ⟨[], by decide⟩
  stars := stars
  name := name
  extent := .single
  behind := ⟨[], by decide⟩

def charType : DataType where
  text := "char".toList
  trimmed := by decide +kernel
  words_ne_nil := by decide +kernel
  identifiers := by decide +kernel

/-- The stars of `char *first, *second;` begin the lines below its type. -/
theorem addBody_lines_starred :
    let first := plainVariable 1 ⟨"first".toList, rfl⟩
    let second := plainVariable 1 ⟨"second".toList, rfl⟩
    let line : Line := ⟨charType, ⟨' ', rfl⟩, first, [second]⟩
    let breaking : Breaking line := ⟨true, [[first], [second]], by simp, rfl⟩
    let owner : Structure := { name := "S".toList, form := .tagged }
    (∀ row ∈ breaking.lines, startsWith row ['*', '*'] = false) ∧
      owner.addBody .plain (breaking.lines ++ ["int n;".toList]) =
        owner.addBody .plain (line.text :: ["int n;".toList]) := by
  intro first second line breaking owner
  have hstars : ∀ row ∈ breaking.lines, startsWith row ['*', '*'] = false := by decide +kernel
  exact ⟨hstars, addBody_lines breaking hstars ["int n;".toList] owner .plain⟩

/-- The variable of `char **argv;` is lost where the line is broken behind its type, and the type goes on
with the next line, to which it does not belong. -/
theorem addBody_lines_lost :
    ¬ ∀ (line : Line) (breaking : Breaking line) (further : List Text) (owner : Structure)
      (collector : Macro.Collector),
      owner.addBody collector (breaking.lines ++ further) =
        owner.addBody collector (line.text :: further) := by
  intro h
  let argv := plainVariable 2 ⟨"argv".toList, rfl⟩
  let line : Line := ⟨charType, ⟨' ', rfl⟩, argv, []⟩
  let breaking : Breaking line := ⟨true, [[argv]], by simp, rfl⟩
  let owner : Structure := { name := "S".toList, form := .tagged }
  have hsame := h line breaking ["int n;".toList] owner .plain
  revert hsame
  decide +kernel

end StructTables.Spelled
