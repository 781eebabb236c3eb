import Mathlib.Data.List.Induction
import StructTables.Proofs.Body.CommentLines
import StructTables.Proofs.Body.EmptyLines
import StructTables.Proofs.Body.Lines
import StructTables.Proofs.Body.Variables

/-! # Conditional blocks

A body keeps a mark, not a count, of the conditional blocks around a line: any opening sets it, and the
next closing clears it. So a member has the note of conditional blocks where some block was opened above
its line and none was closed since, which is less than standing within a block once blocks are nested. -/

namespace StructTables.Body
open Text Declaration

/-! ## Lines without a comment -/

/-- Whether the entry carries the given text for the variable that it declares, if it declares one. -/
def Entry.carries (description : Text) : Entry → Prop
  | .variable _ _ d => d = description
  | .remark _ => False
  | .invalid _ => True

theorem comment_eq_nil {line : Text} (free : Comment.code line = line) :
    ∀ statement ∈ statements line, statement.comment = [] := by
  induction hn : line.length using Nat.strongRecOn generalizing line with
  | _ n ih =>
    cases hterm : terminator? line with
    | none =>
      rw [statements_of_unterminated hterm, firstStatement, hterm, Comment.cut_eq_self free]
      exact List.forall_mem_singleton.mpr rfl
    | some parts =>
      obtain ⟨declaration, after⟩ := parts
      have hafter : Comment.code (trim after) = trim after :=
        Comment.code_eq_self_of_infix (infix_of_terminator hterm) free
      have hbegins : Comment.begins (trim after) = false := by rw [← hafter, Comment.begins_code]
      have hfirst : (firstStatement line).comment = [] := by
        rw [firstStatement, hterm]
        exact if_neg (by simp [hbegins])
      rw [statements_of_terminator hterm]
      refine List.forall_mem_cons.mpr ⟨hfirst, ?_⟩
      by_cases hempty : ((trim after).isEmpty || Comment.begins (trim after)) = true
      · rw [if_pos hempty]
        exact List.forall_mem_nil _
      · rw [if_neg hempty]
        exact ih _ (hn ▸ length_terminator_lt hterm) hafter rfl

/-- A context in which nothing has been said that the next variables would take over. -/
structure Context.Follows (before after : Context) : Prop where
  carried : after.carried = []
  conditional : after.conditional = before.conditional

variable {context : Context}

theorem Context.Follows.description {after : Context} (h : context.Follows after) :
    after.description [] = if context.conditional then conditionalNote else [] := by
  rw [Context.description, h.carried, h.conditional]
  cases context.conditional <;> rfl

theorem carries_entryOf (dataType description source : Text) (declarator : Declarator) :
    (entryOf dataType description source declarator).carries description := by
  unfold entryOf
  split
  · trivial
  · rfl

theorem readStatement_follows (hcarried : context.carried = []) (statement : Statement) :
    context.Follows (readStatement context statement []).context ∧
      ∀ entry ∈ (readStatement context statement []).entries,
        entry.carries (context.description []) := by
  unfold readStatement
  dsimp only
  split
  · exact ⟨⟨hcarried, rfl⟩, List.forall_mem_nil _⟩
  · split
    · exact ⟨⟨rfl, rfl⟩, List.forall_mem_nil _⟩
    · split
      · exact ⟨⟨hcarried, rfl⟩, List.forall_mem_singleton.mpr trivial⟩
      · refine ⟨⟨rfl, rfl⟩, fun entry he => ?_⟩
        obtain ⟨declarator, -, rfl⟩ := List.mem_map.mp he
        exact carries_entryOf ..

theorem readStatements_follows (hcarried : context.carried = []) (below : List Text)
    {statements : List Statement} (h : ∀ statement ∈ statements, statement.comment = []) :
    let reading := readStatements context below statements
    context.Follows reading.context ∧ reading.taken = 0 ∧
      ∀ entry ∈ reading.entries, entry.carries (context.description []) := by
  induction statements generalizing context with
  | nil => exact ⟨⟨hcarried, rfl⟩, rfl, List.forall_mem_nil _⟩
  | cons statement more ih =>
    obtain ⟨hcomment, hmore⟩ := List.forall_mem_cons.mp h
    have hnone : Comment.read [] below = ⟨[], 0⟩ := rfl
    obtain ⟨hfirst, hentries⟩ := readStatement_follows hcarried statement
    simp only [readStatements, hcomment, hnone]
    split
    · obtain ⟨hnext, htaken, hrest⟩ := ih hfirst.carried hmore
      have hsame : context.Follows context := ⟨hcarried, rfl⟩
      have hdescription : (readStatement context statement []).context.description [] =
          context.description [] := hfirst.description.trans hsame.description.symm
      rw [hdescription] at hrest
      exact ⟨⟨hnext.carried, hnext.conditional.trans hfirst.conditional⟩, htaken,
        List.forall_mem_append.mpr ⟨hentries, hrest⟩⟩
    · exact ⟨hfirst, rfl, hentries⟩

/-! ## Rows of a body -/

/-- A line that has no comment and is no directive. -/
structure PlainLine where
  text : Text
  free : Comment.code text = text
  start : ∀ c ∈ text.head?, c ≠ '#'

/-- A line of a body as conditional blocks see it. -/
inductive Row where
  | plain (line : PlainLine)
  | opening (condition : Text)
  | alternative (rest : Text)
  | closing (rest : Text)

namespace Row

def text : Row → Text
  | plain line => line.text
  | opening condition => "#if".toList ++ condition
  | alternative rest => "#else".toList ++ rest
  | closing rest => "#endif".toList ++ rest

/-- Whether the mark is set behind the row. -/
def mark (marked : Bool) : Row → Bool
  | plain _ | alternative _ => marked
  | opening _ => true
  | closing _ => false

end Row

/-- Whether some block was opened and none closed since. -/
def IsOpen (rows : List Row) : Prop :=
  ∃ before condition inside, rows = before ++ .opening condition :: inside ∧
    ∀ rest, .closing rest ∉ inside

theorem isOpen_concat (rows : List Row) (row : Row) :
    IsOpen (rows ++ [row]) ↔
      (∃ condition, row = .opening condition) ∨ (IsOpen rows ∧ ∀ rest, row ≠ .closing rest) := by
  constructor
  · rintro ⟨before, condition, inside, hrows, hinside⟩
    rcases inside.eq_nil_or_concat' with rfl | ⟨init, last, rfl⟩
    · obtain ⟨-, hrow⟩ := List.append_inj' hrows rfl
      exact .inl ⟨condition, List.singleton_inj.mp hrow⟩
    · have hsplit : rows ++ [row] = (before ++ .opening condition :: init) ++ [last] := by
        simp [hrows]
      obtain ⟨habove, hlast⟩ := List.append_inj' hsplit rfl
      obtain rfl := List.singleton_inj.mp hlast
      refine .inr ⟨⟨before, condition, init, habove, fun rest hmem => ?_⟩, ?_⟩
      · exact hinside rest (List.mem_append_left _ hmem)
      · rintro rest rfl
        exact hinside rest (List.mem_append_right _ List.mem_cons_self)
  · rintro (⟨condition, rfl⟩ | ⟨⟨before, condition, inside, rfl, hinside⟩, hrow⟩)
    · exact ⟨rows, condition, [], rfl, fun _ => List.not_mem_nil⟩
    · refine ⟨before, condition, inside ++ [row], by simp, fun rest => ?_⟩
      exact List.not_mem_append (hinside rest) fun hmem => hrow rest (List.mem_singleton.mp hmem).symm

theorem mark_iff_isOpen (rows : List Row) : rows.foldl Row.mark false = true ↔ IsOpen rows := by
  induction rows using List.reverseRecOn with
  | nil => simp [IsOpen]
  | append_singleton rows row ih =>
    rw [List.foldl_append, List.foldl_cons, List.foldl_nil, isOpen_concat, ← ih]
    cases row <;> simp [Row.mark]

/-! ## Reading rows -/

theorem readLine_directive {line : Text} (h : line.head? = some '#') (context : Context)
    (below : List Text) : readLine context line below = { context := context.enter line } := by
  obtain ⟨r, rfl⟩ := List.head?_eq_some_iff.mp h
  have hbegins : Comment.begins ('#' :: r) = false := Comment.begins_cons_eq_false (by decide) r
  have hskip : isSkipped ('#' :: r) = true := by simp [isSkipped, startsWith, List.isPrefixOf]
  rw [readLine, hbegins, hskip]
  rfl

theorem enter_plain {line : Text} (h : ∀ c ∈ line.head?, c ≠ '#') (context : Context) :
    context.enter line = context := by
  have hno : ∀ directive, startsWith line ('#' :: directive) = false := fun directive => by
    cases line with
    | nil => rfl
    | cons c r => exact startsWith_cons_eq_false (h c rfl).symm directive
  have hif : startsWith line "#if".toList = false := hno _
  have hendif : startsWith line "#endif".toList = false := hno _
  rw [Context.enter, hif, if_neg Bool.false_ne_true, hendif, if_neg Bool.false_ne_true]

/-- The variables of a plain line carry the note of conditional blocks, if the mark is set, and nothing
else. -/
theorem readLine_plain (hcarried : context.carried = []) (line : PlainLine) (below : List Text) :
    let reading := readLine context line.text below
    context.Follows reading.context ∧ reading.taken = 0 ∧
      ∀ entry ∈ reading.entries, entry.carries (context.description []) := by
  have hbegins : Comment.begins line.text = false := by rw [← line.free, Comment.begins_code]
  rw [readLine, enter_plain line.start, hbegins, if_neg Bool.false_ne_true]
  by_cases hskip : isSkipped line.text = true
  · rw [if_pos hskip]
    exact ⟨⟨hcarried, rfl⟩, rfl, List.forall_mem_nil _⟩
  · rw [if_neg hskip]
    exact readStatements_follows hcarried below (comment_eq_nil line.free)

theorem readLine_row (hcarried : context.carried = []) (row : Row) (below : List Text) :
    let reading := readLine context row.text below
    reading.context.carried = [] ∧ reading.context.conditional = row.mark context.conditional ∧
      reading.taken = 0 ∧ ∀ entry ∈ reading.entries, entry.carries (context.description []) := by
  cases row with
  | plain line =>
    obtain ⟨hfollows, htaken, hentries⟩ := readLine_plain hcarried line below
    exact ⟨hfollows.carried, hfollows.conditional, htaken, hentries⟩
  | opening condition =>
    rw [readLine_directive rfl]
    exact ⟨hcarried, rfl, rfl, List.forall_mem_nil _⟩
  | alternative rest =>
    rw [readLine_directive rfl]
    exact ⟨hcarried, rfl, rfl, List.forall_mem_nil _⟩
  | closing rest =>
    rw [readLine_directive rfl]
    exact ⟨hcarried, rfl, rfl, List.forall_mem_nil _⟩

theorem readStatements_below {statements : List Statement}
    (h : ∀ statement ∈ statements, statement.comment = []) (context : Context)
    (below other : List Text) :
    readStatements context below statements = readStatements context other statements := by
  induction statements generalizing context with
  | nil => rfl
  | cons statement more ih =>
    obtain ⟨hcomment, hmore⟩ := List.forall_mem_cons.mp h
    have hnone : ∀ rows, Comment.read [] rows = ⟨[], 0⟩ := fun _ => rfl
    simp only [readStatements, hcomment, hnone, ih hmore]

/-- Without comments, no row looks at those below it. -/
theorem readLine_below (context : Context) (row : Row) (below other : List Text) :
    readLine context row.text below = readLine context row.text other := by
  cases row with
  | plain line =>
    have hbegins : Comment.begins line.text = false := by rw [← line.free, Comment.begins_code]
    have hread : ∀ rows, readLine context line.text rows = if isSkipped line.text then
        { context := context } else readStatements context rows (statements line.text) := by
      intro rows
      rw [readLine, enter_plain line.start, hbegins, if_neg Bool.false_ne_true]
    exact (hread below).trans ((congrArg _
      (readStatements_below (comment_eq_nil line.free) context below other)).trans (hread other).symm)
  | opening condition => rw [readLine_directive rfl, readLine_directive rfl]
  | alternative rest => rw [readLine_directive rfl, readLine_directive rfl]
  | closing rest => rw [readLine_directive rfl, readLine_directive rfl]

def contextBehind (context : Context) (rows : List Row) : Context :=
  rows.foldl (fun context row => (readLine context row.text []).context) context

theorem contextBehind_marks (hcarried : context.carried = []) (rows : List Row) :
    (contextBehind context rows).carried = [] ∧
      (contextBehind context rows).conditional = rows.foldl Row.mark context.conditional := by
  induction rows generalizing context with
  | nil => exact ⟨hcarried, rfl⟩
  | cons row more ih =>
    obtain ⟨hnext, hmark, -, -⟩ := readLine_row hcarried row []
    rw [List.foldl_cons, ← hmark]
    exact ih hnext

theorem readFrom_append (hcarried : context.carried = []) (above below : List Row) :
    readFrom context 0 ((above ++ below).map Row.text) =
      readFrom context 0 (above.map Row.text) ++
        readFrom (contextBehind context above) 0 (below.map Row.text) := by
  induction above generalizing context with
  | nil => rfl
  | cons row more ih =>
    obtain ⟨hnext, -, htaken, -⟩ := readLine_row hcarried row []
    rw [List.cons_append, List.map_cons, List.map_cons, readFrom_cons, readFrom_cons,
      readLine_below context row _ [], readLine_below context row (more.map Row.text) [], htaken,
      List.drop_zero, List.drop_zero, ih hnext, List.append_assoc]
    rfl

theorem isRemark_eq_false {description : Text} {entry : Entry} (h : entry.carries description) :
    entry.isRemark = false := by
  match entry, h with
  | .variable _ _ _, _ => rfl
  | .invalid _, _ => rfl

theorem isRemark_readFrom (hcarried : context.carried = []) (rows : List Row) :
    ∀ entry ∈ readFrom context 0 (rows.map Row.text), entry.isRemark = false := by
  induction rows generalizing context with
  | nil => exact List.forall_mem_nil _
  | cons row more ih =>
    obtain ⟨hnext, -, htaken, hentries⟩ := readLine_row hcarried row (more.map Row.text)
    rw [List.map_cons, readFrom_cons, htaken, List.drop_zero]
    exact List.forall_mem_append.mpr ⟨fun entry he => isRemark_eq_false (hentries entry he), ih hnext⟩

/-! ## Members -/

theorem exists_added_carrying {description : Text} {entries : List Entry}
    (h : ∀ entry ∈ entries, entry.carries description) (owner : Structure) (assembly : Assembly) :
    ∃ more, (entries.foldl (Assembly.add owner) assembly).added = assembly.added ++ more ∧
      ∀ m ∈ more, m.description = description := by
  have hremark : ∀ entry ∈ entries, entry.isRemark = false := fun entry he =>
    isRemark_eq_false (h entry he)
  obtain ⟨more, hadded, hmore⟩ := exists_added hremark owner assembly
  refine ⟨more, hadded, fun m hm => ?_⟩
  obtain ⟨v, hv, hbecomes⟩ := exists_of_mem_forall₂ hmore hm
  obtain ⟨entry, he, hdeclared⟩ := List.mem_filterMap.mp (mem_of_mem_firstNamed hv).1
  match entry, h entry he, hdeclared with
  | .variable _ _ said, hcarries, hdeclared =>
    obtain rfl := Option.some.inj hdeclared
    exact hbecomes.description.trans hcarries

/-- The members of a structure with a body of rows. -/
def membersOf (owner : Structure) (collector : Macro.Collector) (rows : List Row) : List Member :=
  (owner.addBody collector (rows.map Row.text)).1.members

/-- The members with the note of conditional blocks are those for which the condition holds of the rows
above the one that adds them. -/
def NotedWhere (noted : List Row → Prop) (owner : Structure) (collector : Macro.Collector)
    (rows : List Row) : Prop :=
  ∀ above row below, rows = above ++ row :: below →
    ∃ here behind, membersOf owner collector (above ++ [row]) =
        membersOf owner collector above ++ here ∧
      membersOf owner collector rows = membersOf owner collector (above ++ [row]) ++ behind ∧
      ∀ m ∈ here, startsWith m.description conditionalNote = true ↔ noted above

variable (owner : Structure) (collector : Macro.Collector)

theorem membersOf_eq_append {above below : List Row} {more : List Member}
    (h : ((readFrom (contextBehind {} above) 0 (below.map Row.text)).foldl (Assembly.add owner)
      (assemble owner collector (read (above.map Row.text)))).added =
        (assemble owner collector (read (above.map Row.text))).added ++ more) :
    membersOf owner collector (above ++ below) = membersOf owner collector above ++ more := by
  have hread : read ((above ++ below).map Row.text) = read (above.map Row.text) ++
      readFrom (contextBehind {} above) 0 (below.map Row.text) := readFrom_append rfl above below
  rw [membersOf, membersOf, Structure.addBody, Structure.addBody, hread, assemble, List.foldl_append,
    ← assemble, List.append_assoc]
  exact congrArg (owner.members ++ ·) h

theorem exists_membersOf_append (above below : List Row) :
    ∃ more, membersOf owner collector (above ++ below) = membersOf owner collector above ++ more := by
  have hcarried := (@contextBehind_marks {} rfl above).1
  obtain ⟨more, hadded, -⟩ := exists_added (isRemark_readFrom hcarried below) owner
    (assemble owner collector (read (above.map Row.text)))
  exact ⟨more, membersOf_eq_append owner collector hadded⟩

theorem exists_membersOf_concat (above : List Row) (row : Row) :
    ∃ here, membersOf owner collector (above ++ [row]) = membersOf owner collector above ++ here ∧
      ∀ m ∈ here, startsWith m.description conditionalNote = true ↔ IsOpen above := by
  obtain ⟨hcarried, hmark⟩ := @contextBehind_marks {} rfl above
  obtain ⟨-, -, htaken, hentries⟩ := readLine_row hcarried row []
  have hread : readFrom (contextBehind {} above) 0 ([row].map Row.text) =
      (readLine (contextBehind {} above) row.text []).entries := by
    rw [List.map_singleton, readFrom_cons, List.drop_nil, readFrom, List.append_nil]
  rw [← hread] at hentries
  obtain ⟨here, hadded, hhere⟩ := exists_added_carrying hentries owner
    (assemble owner collector (read (above.map Row.text)))
  refine ⟨here, membersOf_eq_append owner collector hadded, fun m hm => ?_⟩
  have hsame : (contextBehind {} above).Follows (contextBehind {} above) := ⟨hcarried, rfl⟩
  rw [hhere m hm, hsame.description, hmark, ← mark_iff_isOpen]
  cases above.foldl Row.mark false <;> decide

theorem notedWhere_isOpen (rows : List Row) : NotedWhere IsOpen owner collector rows := by
  intro above row below hrows
  obtain ⟨here, hhere, hnoted⟩ := exists_membersOf_concat owner collector above row
  obtain ⟨behind, hbehind⟩ := exists_membersOf_append owner collector (above ++ [row]) below
  have hsplit : rows = (above ++ [row]) ++ below := by rw [hrows, List.append_assoc]; rfl
  exact ⟨here, behind, hhere, hsplit ▸ hbehind, hnoted⟩

/-! ## Nesting -/

/-- How many blocks are open behind the rows, with `depth` open ahead of them; `none` where one is
closed that is not open. -/
def depth? (depth : Nat) : List Row → Option Nat
  | [] => some depth
  | .opening _ :: more => depth? (depth + 1) more
  | .closing _ :: more => if depth = 0 then none else depth? (depth - 1) more
  | .plain _ :: more | .alternative _ :: more => depth? depth more

/-- Whether some block was opened that its own closing has not closed. -/
def IsWithin (rows : List Row) : Prop :=
  ∃ before condition inside, rows = before ++ .opening condition :: inside ∧
    (depth? 0 inside).isSome = true

/-- Behind an inner block, a line of the outer one counts as outside. -/
theorem not_notedWhere_isWithin :
    ¬ ∀ rows, depth? 0 rows = some 0 → ∀ owner collector, NotedWhere IsWithin owner collector rows := by
  intro h
  let owner : Structure := ⟨"S".toList, .tagged, []⟩
  let above : List Row := [.opening " A".toList, .opening " B".toList, .closing []]
  let field : Row := .plain ⟨"int a;".toList, by decide, by rintro c ⟨⟩; decide⟩
  have hwithin : IsWithin above := ⟨[], " A".toList, [.opening " B".toList, .closing []], rfl, rfl⟩
  have habove : membersOf owner {} above = [] := by decide +kernel
  have hfield : membersOf owner {} (above ++ [field]) =
      [⟨"int".toList, "a".toList, [], [], []⟩] := by decide +kernel
  obtain ⟨here, behind, hhere, -, hnoted⟩ :=
    h (above ++ field :: [.closing []]) rfl owner {} above field [.closing []] rfl
  rw [habove, hfield, List.nil_append] at hhere
  have hnote := (hnoted _ (hhere ▸ List.mem_cons_self)).mpr hwithin
  exact absurd hnote (by decide)

end StructTables.Body
