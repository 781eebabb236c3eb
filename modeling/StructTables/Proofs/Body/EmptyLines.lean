import StructTables.Proofs.Body.Assembly
import StructTables.Proofs.Text.EmptyLines

/-! # Bodies without empty lines

An empty line ends a run of line comments, so that those below it become remarks of their own. Either
way they only describe: a body declares the same variables, and its declarations are found invalid in
the same places, with empty lines and without. -/

namespace StructTables
open Text

/-! ## Comments -/

namespace Comment

/-- Whether the line goes on with a line comment above it. -/
def continuesLine (line : Text) : Bool := beginsLine (trim line)

/-- Whether the line declares nothing by itself, and no comment that it begins hides a declaration. -/
def isPassed (line : Text) : Bool := line.isEmpty || continuesLine line

/-- The lines from the first one on that is neither empty nor a line comment, without empty lines. -/
def behindLineComments (lines : List Text) : List Text :=
  (withoutEmpty lines).dropWhile continuesLine

theorem behindLineComments_of_passed {line : Text} (h : isPassed line = true) (below : List Text) :
    behindLineComments (line :: below) = behindLineComments below := by
  by_cases hempty : line = []
  · rw [hempty]
    rfl
  · have hline : continuesLine line = true := by simpa [isPassed, hempty] using h
    rw [behindLineComments, withoutEmpty_cons hempty, List.dropWhile_cons_of_pos hline,
      behindLineComments]

theorem behindLineComments_of_not_passed {line : Text} (h : isPassed line = false)
    (below : List Text) : behindLineComments (line :: below) = line :: withoutEmpty below := by
  obtain ⟨hempty, hline⟩ := Bool.or_eq_false_iff.mp h
  rw [behindLineComments, withoutEmpty_cons (by simpa using hempty),
    List.dropWhile_cons_of_neg (by simp [hline])]

theorem behindLineComments_withoutEmpty (lines : List Text) :
    behindLineComments (withoutEmpty lines) = behindLineComments lines := by
  rw [behindLineComments, withoutEmpty_withoutEmpty, ← behindLineComments]

theorem drop_throughEnd_withoutEmpty (lines : List Text) :
    (withoutEmpty lines).drop (throughEnd (withoutEmpty lines)).length =
      withoutEmpty (lines.drop (throughEnd lines).length) := by
  induction lines with
  | nil => rfl
  | cons line more ih =>
    by_cases hempty : line = []
    · subst hempty
      exact ih
    · rw [withoutEmpty_cons hempty, throughEnd, throughEnd]
      split
      · rfl
      · exact ih

theorem behindLineComments_read_line {opening : Text} (h : continuesLine opening = true)
    (below : List Text) :
    behindLineComments (below.drop (read opening below).taken) = behindLineComments below := by
  have hdrop : below.drop (read opening below).taken = below.dropWhile continuesLine := by
    have hsplit := @List.takeWhile_append_dropWhile _ continuesLine below
    have htaken : (read opening below).taken = (below.takeWhile continuesLine).length := by
      have hline : beginsLine (trim opening) = true := h
      simp only [read, continuation, if_pos hline]
      rfl
    rw [htaken]
    exact (congrArg _ hsplit.symm).trans List.drop_left
  rw [hdrop, behindLineComments, behindLineComments]
  exact dropWhile_filter_dropWhile _ _ _

/-- Behind a comment the lines go on in the same way, but for line comments that an empty line parts from
it. -/
theorem behindLineComments_read (opening : Text) (below : List Text) :
    behindLineComments ((withoutEmpty below).drop (read opening (withoutEmpty below)).taken) =
      behindLineComments (below.drop (read opening below).taken) := by
  by_cases hline : continuesLine opening = true
  · rw [behindLineComments_read_line hline, behindLineComments_read_line hline,
      behindLineComments_withoutEmpty]
  · have hnot : ¬beginsLine (trim opening) = true := hline
    simp only [read, continuation, if_neg hnot]
    split
    · rw [drop_throughEnd_withoutEmpty, behindLineComments_withoutEmpty]
    · exact behindLineComments_withoutEmpty below

end Comment

/-! ## Reading -/

namespace Body
open Declaration Comment

/-- An entry without what it says about a variable. -/
def Entry.bare? : Entry → Option Entry
  | .variable dataType declarator _ => some (.variable dataType declarator [])
  | .remark _ => none
  | .invalid source => some (.invalid source)

/-- Contexts in which the same is declared. What has been said and the conditional block are for
descriptions only. -/
structure Context.Alike (a b : Context) : Prop where
  dataType : a.dataType = b.dataType
  continues : a.continues = b.continues

variable {a b : Context}

theorem Context.enter_keeps (context : Context) (line : Text) :
    (context.enter line).dataType = context.dataType ∧
      (context.enter line).continues = context.continues := by
  unfold Context.enter
  split
  · exact ⟨rfl, rfl⟩
  · split <;> exact ⟨rfl, rfl⟩

theorem Context.Alike.enterFirst (h : a.Alike b) (line : Text) : (a.enter line).Alike b :=
  ⟨(a.enter_keeps line).1.trans h.dataType, (a.enter_keeps line).2.trans h.continues⟩

theorem Context.Alike.enter (h : a.Alike b) (line : Text) : (a.enter line).Alike (b.enter line) :=
  ⟨(h.enterFirst line).dataType.trans (b.enter_keeps line).1.symm,
    (h.enterFirst line).continues.trans (b.enter_keeps line).2.symm⟩

theorem bare?_entryOf (dataType description other source : Text) (declarator : Declarator) :
    (entryOf dataType description source declarator).bare? =
      (entryOf dataType other source declarator).bare? := by
  unfold entryOf
  split <;> rfl

/-- Readings of one statement that differ in descriptions alone. -/
structure StatementReading.Alike (first second : StatementReading) : Prop where
  context : first.context.Alike second.context
  entries : first.entries.filterMap Entry.bare? = second.entries.filterMap Entry.bare?
  goesOn : first.goesOn = second.goesOn

theorem readStatement_alike (h : a.Alike b) (statement : Statement) (comment other : Text) :
    (readStatement a statement comment).Alike (readStatement b statement other) := by
  simp only [readStatement, h.dataType, h.continues]
  split
  · exact ⟨⟨rfl, rfl⟩, rfl, rfl⟩
  · split
    · exact ⟨⟨rfl, rfl⟩, rfl, rfl⟩
    · split
      · exact ⟨⟨rfl, rfl⟩, rfl, rfl⟩
      · refine ⟨⟨rfl, rfl⟩, ?_, rfl⟩
        simp only [List.filterMap_map]
        exact List.filterMap_congr fun declarator _ => bare?_entryOf ..

/-- Readings of a line that stands above lines with or without empty lines among them. -/
structure LineReading.Alike (below : List Text) (first second : LineReading) : Prop where
  context : first.context.Alike second.context
  entries : first.entries.filterMap Entry.bare? = second.entries.filterMap Entry.bare?
  below : behindLineComments ((withoutEmpty below).drop second.taken) =
    behindLineComments (below.drop first.taken)

theorem readStatements_alike (h : a.Alike b) (below : List Text) (statements : List Statement) :
    (readStatements a below statements).Alike below
      (readStatements b (withoutEmpty below) statements) := by
  induction statements generalizing a b with
  | nil => exact ⟨h, rfl, behindLineComments_withoutEmpty below⟩
  | cons statement more ih =>
    have hreading := readStatement_alike h statement (Comment.read statement.comment below).text
      (Comment.read statement.comment (withoutEmpty below)).text
    simp only [readStatements, hreading.goesOn]
    split
    · obtain ⟨hcontext, hentries, hbelow⟩ := ih hreading.context
      refine ⟨hcontext, ?_, hbelow⟩
      rw [List.filterMap_append, List.filterMap_append, hreading.entries, hentries]
    · exact ⟨hreading.context, hreading.entries, behindLineComments_read _ below⟩

theorem readLine_alike (h : a.Alike b) (line : Text) (below : List Text) :
    (readLine a line below).Alike below (readLine b line (withoutEmpty below)) := by
  simp only [readLine]
  split
  · exact ⟨h.enter line, rfl, behindLineComments_read line below⟩
  · split
    · exact ⟨h.enter line, rfl, behindLineComments_withoutEmpty below⟩
    · exact readStatements_alike (h.enter line) below _

theorem readLine_of_passed (h : a.Alike b) {line : Text} (htrim : trim line = line)
    (hpassed : isPassed line = true) (below : List Text) :
    (readLine a line below).context.Alike b ∧
      (readLine a line below).entries.filterMap Entry.bare? = [] ∧
      behindLineComments (below.drop (readLine a line below).taken) = behindLineComments below := by
  by_cases hempty : line = []
  · rw [hempty]
    exact ⟨h.enterFirst [], rfl, rfl⟩
  · have hline : continuesLine line = true := by simpa [isPassed, hempty] using hpassed
    have hbegins : begins line = true := by
      rw [begins, ← htrim, show beginsLine (trim line) = true from hline, Bool.or_true]
    simp only [readLine, if_pos hbegins]
    exact ⟨h.enterFirst line, rfl, behindLineComments_read_line hline below⟩

theorem readFrom_drop (context : Context) (skip : Nat) (lines : List Text) :
    readFrom context skip lines = readFrom context 0 (lines.drop skip) := by
  induction lines generalizing skip with
  | nil => simp [readFrom]
  | cons line below ih =>
    cases skip with
    | zero => rfl
    | succ k => exact ih k

theorem readFrom_cons (context : Context) (line : Text) (below : List Text) :
    readFrom context 0 (line :: below) =
      (readLine context line below).entries ++ readFrom (readLine context line below).context 0
        (below.drop (readLine context line below).taken) := by
  rw [readFrom, readFrom_drop]

/-- The lines of a body declare the same when empty lines are left out, and line comments ahead of
them. -/
theorem readFrom_behindLineComments (h : a.Alike b) {lines : List Text}
    (htrim : ∀ line ∈ lines, trim line = line) :
    (readFrom a 0 lines).filterMap Entry.bare? =
      (readFrom b 0 (behindLineComments lines)).filterMap Entry.bare? := by
  induction hn : lines.length using Nat.strongRecOn generalizing lines a b with
  | _ n ih =>
    match lines with
    | [] => rfl
    | line :: below =>
      obtain ⟨hline, hbelow⟩ := List.forall_mem_cons.mp htrim
      -- what a comment leaves of the lines below, or of those of them that are not empty
      have hrest : ∀ {a b : Context}, a.Alike b → ∀ rest : List Text, rest.length ≤ below.length →
          rest ⊆ below → (readFrom a 0 rest).filterMap Entry.bare? =
            (readFrom b 0 (behindLineComments rest)).filterMap Entry.bare? := by
        intro a b h rest hlength hsubset
        refine ih _ ?_ h (fun row hrow => hbelow row (hsubset hrow)) rfl
        rw [← hn, List.length_cons]
        omega
      have hdrop : ∀ (k : Nat) (rows : List Text), (rows.drop k).length ≤ rows.length :=
        fun k rows => (List.drop_sublist k rows).length_le
      rw [readFrom_cons, List.filterMap_append]
      cases hpassed : isPassed line with
      | true =>
        obtain ⟨hcontext, hentries, hbehind⟩ := readLine_of_passed h hline hpassed below
        rw [hentries, hrest hcontext _ (hdrop _ _) (List.drop_subset _ _), hbehind,
          behindLineComments_of_passed hpassed, List.nil_append]
      | false =>
        obtain ⟨hcontext, hentries, hbehind⟩ := readLine_alike h line below
        rw [hentries, hrest hcontext _ (hdrop _ _) (List.drop_subset _ _), ← hbehind,
          behindLineComments_of_not_passed hpassed, readFrom_cons, List.filterMap_append]
        refine congrArg _ (hrest ⟨rfl, rfl⟩ _ ?_ ?_).symm
        · exact Nat.le_trans (hdrop _ _) (length_withoutEmpty_le below)
        · exact fun row hrow => mem_of_mem_withoutEmpty (List.drop_subset _ _ hrow)

/-- A body declares the same without its empty lines. -/
theorem bare_read {body : List Text} (htrim : ∀ row ∈ body, trim row = row) :
    (read body).filterMap Entry.bare? = (read (withoutEmpty body)).filterMap Entry.bare? := by
  have hrefl : ({} : Context).Alike {} := ⟨rfl, rfl⟩
  have hsolid : ∀ row ∈ withoutEmpty body, trim row = row :=
    fun row hrow => htrim row (mem_of_mem_withoutEmpty hrow)
  rw [read, read, readFrom_behindLineComments hrefl htrim, readFrom_behindLineComments hrefl hsolid,
    behindLineComments_withoutEmpty]

end Body

/-! ## Assembling -/

def Structure.undescribed (s : Structure) : Structure :=
  { s with members := s.members.map Member.undescribed }

namespace Body
open Declaration

def Assembly.undescribed (assembly : Assembly) : Assembly :=
  { assembly with added := assembly.added.map Member.undescribed }

theorem contains_undescribed (owner : Structure) (assembly : Assembly) (name : Text) :
    assembly.undescribed.contains owner name = assembly.contains owner name := by
  simp only [Assembly.contains, Assembly.undescribed, List.any_map]
  rfl

/-- What an entry says makes no difference but to descriptions. -/
theorem undescribed_add (owner : Structure) (assembly : Assembly) (entry : Entry) :
    (assembly.add owner entry).undescribed =
      (entry.bare?.toList).foldl (Assembly.add owner) assembly.undescribed := by
  match entry with
  | .invalid source => rfl
  | .remark text =>
    exact congrArg (Assembly.mk assembly.collector · assembly.log)
      (map_describeLast (fun _ => rfl) text assembly.added)
  | .variable dataType declarator description =>
    have hcontains := contains_undescribed owner assembly declarator.name
    simp only [Entry.bare?, Option.toList_some, List.foldl_cons, List.foldl_nil]
    cases hdup : assembly.contains owner declarator.name with
    | true =>
      rw [add_duplicate hdup, add_duplicate (hcontains.trans hdup)]
      rfl
    | false =>
      rw [add_variable hdup, add_variable (hcontains.trans hdup)]
      simp [Assembly.undescribed, memberOf, Member.undescribed]

theorem undescribed_assemble (owner : Structure) (collector : Macro.Collector) (entries : List Entry) :
    (assemble owner collector entries).undescribed =
      assemble owner collector (entries.filterMap Entry.bare?) := by
  suffices h : ∀ assembly : Assembly, (entries.foldl (Assembly.add owner) assembly).undescribed =
      (entries.filterMap Entry.bare?).foldl (Assembly.add owner) assembly.undescribed from h _
  induction entries with
  | nil => exact fun _ => rfl
  | cons entry more ih =>
    intro assembly
    rw [List.foldl_cons, ih, undescribed_add, List.filterMap_cons]
    cases entry.bare? <;> rfl

/-- Empty lines in a body make no difference but to descriptions. -/
theorem undescribed_assemble_read (owner : Structure) (collector : Macro.Collector) {body : List Text}
    (htrim : ∀ row ∈ body, trim row = row) :
    (assemble owner collector (read body)).undescribed =
      (assemble owner collector (read (withoutEmpty body))).undescribed := by
  rw [undescribed_assemble, undescribed_assemble, bare_read htrim]

end Body
end StructTables
