import StructTables.Proofs.Body.EmptyLines
import StructTables.Proofs.Comment.Extent

/-! # The rows of a body

A body is read row by row: each visit to a row takes that row and those below it that a comment runs
over, and the next visit is to the row behind them. However a body is malformed, the visits come to an
end, none of them takes a row that is not there, and together they take every row once. -/

namespace StructTables.Body
open Text Declaration

variable {body : List Text} {row : Nat} {context : Context} {line : Text}

/-! ## The last row of a line -/

/-- The last row that statements on the given row take: the one on which the comment behind the first
of them ends, or a later one that the statements behind it take. -/
def lastRowOf (body : List Text) (row : Nat) (context : Context) : List Statement → Nat
  | [] => row
  | statement :: more =>
    let comment := Comment.read statement.comment (body.drop (row + 1))
    let reading := readStatement context statement comment.text
    if reading.goesOn && !more.isEmpty then
      max (lastRowOf body row reading.context more) (row + comment.taken)
    else row + comment.taken

/-- The last row that a visit to the given row takes. -/
def lastRow (body : List Text) (row : Nat) (context : Context) (line : Text) : Nat :=
  if Comment.begins line then row + (Comment.read line (body.drop (row + 1))).taken
  else if isSkipped line then row
  else lastRowOf body row (context.enter line) (statements line)

theorem lastRowOf_mem (hrow : row < body.length) (context : Context) (more : List Statement) :
    row ≤ lastRowOf body row context more ∧ lastRowOf body row context more < body.length := by
  induction more generalizing context with
  | nil => exact ⟨Nat.le_refl row, hrow⟩
  | cons statement more ih =>
    have hlt := Comment.last_lt hrow statement.comment
    simp only [lastRowOf]
    split
    · exact ⟨Nat.le_trans (ih _).1 (Nat.le_max_left _ _), Nat.max_lt.mpr ⟨(ih _).2, hlt⟩⟩
    · exact ⟨Nat.le_add_right _ _, hlt⟩

theorem lastRow_mem (hrow : row < body.length) (context : Context) (line : Text) :
    row ≤ lastRow body row context line ∧ lastRow body row context line < body.length := by
  rw [lastRow]
  split
  · exact ⟨Nat.le_add_right _ _, Comment.last_lt hrow line⟩
  · split
    · exact ⟨Nat.le_refl row, hrow⟩
    · exact lastRowOf_mem hrow _ _

/-- A comment can stand only behind the last statement of a line, so no other statement takes a row. -/
theorem lastRowOf_eq {more : List Statement}
    (hlast : ∀ statement ∈ more.dropLast, statement.comment = []) (context : Context) :
    lastRowOf body row context more =
      row + (readStatements context (body.drop (row + 1)) more).taken := by
  induction more generalizing context with
  | nil => rfl
  | cons statement more ih =>
    simp only [lastRowOf, readStatements]
    split
    case isTrue hgo =>
      have hne : more ≠ [] := by simpa using (Bool.and_eq_true_iff.mp hgo).2
      rw [List.dropLast_cons_of_ne_nil hne] at hlast
      obtain ⟨hnone, hmore⟩ := List.forall_mem_cons.mp hlast
      have hcomment : (Comment.read [] (body.drop (row + 1))).taken = 0 := rfl
      rw [hnone, ih hmore, hcomment]
      exact Nat.max_eq_left (Nat.le_add_right _ _)
    case isFalse => rfl

theorem lastRow_eq (body : List Text) (row : Nat) (context : Context) (line : Text) :
    lastRow body row context line = row + (readLine context line (body.drop (row + 1))).taken := by
  rw [lastRow, readLine]
  split
  · rfl
  · split
    · rfl
    · exact lastRowOf_eq (fun _ => comment_eq_nil_of_mem_dropLast) _

/-! ## Visits -/

/-- A visit to a row: what the rows ahead left behind for it, the last row that it takes, and the
entries that it gives. -/
structure Visit where
  row : Nat
  context : Context
  last : Nat
  entries : List Entry

def Visit.rows (visit : Visit) : List Nat := List.range' visit.row (visit.last + 1 - visit.row)

/-- The visits of a reading from a row on, to the end of the body. -/
inductive Walk (body : List Text) : Nat → Context → List Visit → Prop
  | done {row : Nat} {context : Context} (h : body[row]? = none) : Walk body row context []
  | visit {row : Nat} {context : Context} {line : Text} {more : List Visit}
      (h : body[row]? = some line)
      (hmore : Walk body (lastRow body row context line + 1)
        (readLine context line (body.drop (row + 1))).context more) :
      Walk body row context
        ({ row := row
           context := context
           last := lastRow body row context line
           entries := (readLine context line (body.drop (row + 1))).entries } :: more)

theorem exists_walk (body : List Text) (row : Nat) (context : Context) :
    ∃ visits, Walk body row context visits := by
  induction hn : body.length - row using Nat.strongRecOn generalizing row context with
  | _ n ih =>
    cases hline : body[row]? with
    | none => exact ⟨[], .done hline⟩
    | some line =>
      obtain ⟨hrow, -⟩ := List.getElem?_eq_some_iff.mp hline
      have hlast := lastRow_mem hrow context line
      have hless : body.length - (lastRow body row context line + 1) < n := by omega
      obtain ⟨more, hmore⟩ := ih _ hless _ _ rfl
      exact ⟨_, .visit hline hmore⟩

theorem Walk.unique {visits other : List Visit} (h : Walk body row context visits)
    (h' : Walk body row context other) : visits = other := by
  induction h generalizing other with
  | done h =>
    cases h' with
    | done => rfl
    | visit h' => rw [h] at h'; cases h'
  | visit h _ ih =>
    cases h' with
    | done h' => rw [h] at h'; cases h'
    | visit h' hmore =>
      rw [h] at h'
      cases h'
      rw [ih hmore]

/-- The visit is to a row that is there, and so is the last row that the line of that row takes. -/
structure Visit.Within (body : List Text) (visit : Visit) : Prop where
  line : ∃ line, body[visit.row]? = some line ∧
    visit.last = visit.row + (readLine visit.context line (body.drop (visit.row + 1))).taken
  row_le : visit.row ≤ visit.last
  last_lt : visit.last < body.length

theorem Walk.within {visits : List Visit} (h : Walk body row context visits) :
    ∀ visit ∈ visits, visit.Within body := by
  induction h with
  | done => exact List.forall_mem_nil _
  | visit h _ ih =>
    obtain ⟨hrow, -⟩ := List.getElem?_eq_some_iff.mp h
    obtain ⟨hle, hlt⟩ := lastRow_mem hrow _ _
    exact List.forall_mem_cons.mpr ⟨⟨⟨_, h, lastRow_eq _ _ _ _⟩, hle, hlt⟩, ih⟩

theorem Walk.isChain {visits : List Visit} (h : Walk body row context visits) :
    visits.IsChain fun visit next => next.row = visit.last + 1 := by
  induction h with
  | done => exact .nil
  | visit _ hmore ih =>
    cases hmore with
    | done => exact .singleton _
    | visit => exact List.isChain_cons_cons.mpr ⟨rfl, ih⟩

theorem Walk.rows_eq {visits : List Visit} (h : Walk body row context visits) :
    visits.flatMap Visit.rows = List.range' row (body.length - row) := by
  induction h with
  | done h =>
    rw [Nat.sub_eq_zero_of_le (List.getElem?_eq_none_iff.mp h)]
    rfl
  | @visit row context line more h _ ih =>
    obtain ⟨hrow, -⟩ := List.getElem?_eq_some_iff.mp h
    obtain ⟨hle, hlt⟩ := lastRow_mem hrow context line
    obtain ⟨taken, hnext⟩ : ∃ taken, lastRow body row context line + 1 = row + taken :=
      ⟨lastRow body row context line + 1 - row, by omega⟩
    rw [List.flatMap_cons, ih]
    show List.range' row (lastRow body row context line + 1 - row) ++ _ = _
    rw [hnext, Nat.add_sub_cancel_left, List.range'_append_1]
    congr 1
    omega

theorem Walk.entries_eq {visits : List Visit} (h : Walk body row context visits) :
    visits.flatMap Visit.entries = readFrom context 0 (body.drop row) := by
  induction h with
  | done h =>
    rw [List.drop_of_length_le (List.getElem?_eq_none_iff.mp h)]
    rfl
  | visit h _ ih =>
    obtain ⟨hrow, hline⟩ := List.getElem?_eq_some_iff.mp h
    rw [List.flatMap_cons, ih, List.drop_eq_getElem_cons hrow, hline, readFrom_cons, List.drop_drop,
      lastRow_eq]
    congr 3
    omega

/-- A body is read in visits, of which there is one sequence only. Each of them takes rows of the body
from the one visited on, the next one is to the row behind the last taken, and together they take every
row once. The entries that they give are all that a structure and its macros get from the body. -/
theorem visits_of_body (owner : Structure) (collector : Macro.Collector) (body : List Text) :
    ∃ visits, (∀ other, Walk body 0 {} other ↔ other = visits) ∧
      (∀ visit ∈ visits, visit.Within body) ∧
      (visits.IsChain fun visit next => next.row = visit.last + 1) ∧
      visits.flatMap Visit.rows = List.range body.length ∧
      owner.addBody collector body =
        let assembly := assemble owner collector (visits.flatMap Visit.entries)
        ({ owner with members := owner.members ++ assembly.added }, assembly.collector,
          assembly.log) := by
  obtain ⟨visits, hwalk⟩ := exists_walk body 0 {}
  refine ⟨visits, fun other => ⟨fun h => h.unique hwalk, fun h => h ▸ hwalk⟩, hwalk.within,
    hwalk.isChain, ?_, ?_⟩
  · rw [hwalk.rows_eq, List.range_eq_range', Nat.sub_zero]
  · rw [hwalk.entries_eq, Structure.addBody, Body.read, List.drop_zero]

end StructTables.Body
