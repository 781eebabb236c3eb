import Mathlib.Order.Bounds.Basic
import StructTables.Proofs.Comment.BlockEnd
import StructTables.Proofs.Text.Words

/-! # The lines of a comment

A comment takes the lines that belong to it and no others. Line comments go on as far as line comments
follow on each other, a block goes on to the first line that ends as a block ends, and the text is made
of what just these lines say. -/

namespace StructTables.Comment
open Text

variable {lines following : List Text} {start last : Nat} {opening : Text}

/-! ## Rows -/

/-- From the row behind `start` up to the given row, there are line comments only. -/
def RunsTo (lines : List Text) (start row : Nat) : Prop :=
  start ≤ row ∧
    ∀ k, start < k → k ≤ row → ∃ line, lines[k]? = some line ∧ beginsLine (trim line) = true

/-- The given row ends as a block ends. -/
def EndsAt (lines : List Text) (row : Nat) : Prop :=
  ∃ line, lines[row]? = some line ∧ endsBlock (trim line) = true

/-- The last row of a comment whose opening stands on the row `start`. A block that is never ended
takes all rows. -/
structure IsLastRow (lines : List Text) (start : Nat) (opening : Text) (last : Nat) : Prop where
  ofLine : beginsLine (trim opening) = true → IsGreatest {row | RunsTo lines start row} last
  ofClosed : beginsBlock (trim opening) = true → endsBlock (trim opening) = true → last = start
  ofOpen : beginsBlock (trim opening) = true → endsBlock (trim opening) = false →
    (∃ row, start < row ∧ EndsAt lines row) → IsLeast {row | start < row ∧ EndsAt lines row} last
  ofUnended : beginsBlock (trim opening) = true → endsBlock (trim opening) = false →
    (¬ ∃ row, start < row ∧ EndsAt lines row) → last + 1 = lines.length

/-! ## Searching below a row -/

/-- Below a row, no line passes a test ahead of the first that does, and that one passes it. -/
theorem rows_findIdx (p : Text → Bool) (lines : List Text) (start : Nat) :
    let k := (lines.drop (start + 1)).findIdx p
    (∀ row, start < row → row ≤ start + k → ∃ line, lines[row]? = some line ∧ p line = false) ∧
      ∀ line, lines[start + 1 + k]? = some line → p line = true := by
  intro k
  refine ⟨fun row hlow hrow => ?_, fun line hline => ?_⟩
  · obtain ⟨i, rfl⟩ : ∃ i, row = start + 1 + i := ⟨row - (start + 1), by omega⟩
    have hi : i < k := by omega
    have hlength : i < (lines.drop (start + 1)).length := Nat.lt_of_lt_of_le hi List.findIdx_le_length
    refine ⟨(lines.drop (start + 1))[i], ?_, by simpa using List.not_of_lt_findIdx hi⟩
    rw [← List.getElem?_drop, List.getElem?_eq_getElem hlength]
  · rw [← List.getElem?_drop] at hline
    obtain ⟨hlength, rfl⟩ := List.getElem?_eq_some_iff.mp hline
    exact List.findIdx_getElem

theorem length_takeWhile_eq_findIdx (p : Text → Bool) (rows : List Text) :
    (rows.takeWhile p).length = rows.findIdx fun row => !p row := by
  rw [List.takeWhile_eq_take_findIdx_not, List.length_take]
  exact Nat.min_eq_left List.findIdx_le_length

theorem isGreatest_runsTo (hline : beginsLine (trim opening) = true) :
    IsGreatest {row | RunsTo lines start row}
      (start + (read opening (lines.drop (start + 1))).taken) := by
  have htaken : (read opening (lines.drop (start + 1))).taken =
      (lines.drop (start + 1)).findIdx fun line => !beginsLine (trim line) := by
    simp only [read, continuation, hline, if_true]
    exact length_takeWhile_eq_findIdx _ _
  rw [htaken]
  obtain ⟨hrun, hstop⟩ := rows_findIdx (fun line => !beginsLine (trim line)) lines start
  refine ⟨⟨Nat.le_add_right _ _, fun row hlow hrow => by simpa using hrun row hlow hrow⟩, ?_⟩
  rintro row ⟨-, hall⟩
  refine Nat.le_of_not_lt fun hlt => ?_
  -- the row behind the run would have to begin as the run does
  obtain ⟨line, hline, hbegins⟩ := hall _ (by omega) hlt
  rw [Nat.add_right_comm] at hstop
  have hends := hstop line hline
  rw [hbegins] at hends
  cases hends

/-- A block that is not ended on its own line goes on to the first line below that ends it, if any. -/
theorem taken_read_open (hblock : beginsBlock (trim opening) = true)
    (hopen : endsBlock (trim opening) = false) (below : List Text) :
    (read opening below).taken =
      min (below.findIdx (fun line => endsBlock (trim line)) + 1) below.length := by
  rw [taken_read_block hblock, List.findIdx_cons, hopen, cond_false]

theorem lt_of_endsAt {k : Nat}
    (h : ∀ row, start < row → row ≤ start + k → ∃ line, lines[row]? = some line ∧
      endsBlock (trim line) = false) {row : Nat} (hrow : start < row ∧ EndsAt lines row) :
    start + k < row := by
  obtain ⟨hlow, line, hline, hends⟩ := hrow
  refine Nat.lt_of_not_le fun hle => ?_
  obtain ⟨other, hother, hno⟩ := h row hlow hle
  obtain rfl : line = other := Option.some.inj (hline.symm.trans hother)
  rw [hends] at hno
  cases hno

theorem isLeast_endsAt (hblock : beginsBlock (trim opening) = true)
    (hopen : endsBlock (trim opening) = false) (h : ∃ row, start < row ∧ EndsAt lines row) :
    IsLeast {row | start < row ∧ EndsAt lines row}
      (start + (read opening (lines.drop (start + 1))).taken) := by
  obtain ⟨hbefore, hat⟩ := rows_findIdx (fun line => endsBlock (trim line)) lines start
  obtain ⟨row, hrow⟩ := h
  have hlt := lt_of_endsAt hbefore hrow
  obtain ⟨-, line, hline, -⟩ := hrow
  obtain ⟨hlength, -⟩ := List.getElem?_eq_some_iff.mp hline
  rw [taken_read_open hblock hopen, List.length_drop, Nat.min_eq_left (by omega), ← Nat.add_assoc,
    Nat.add_right_comm]
  refine ⟨⟨by omega, _, List.getElem?_eq_getElem (by omega), ?_⟩, fun other hother => ?_⟩
  · exact hat _ (List.getElem?_eq_getElem (by omega))
  · have hother := lt_of_endsAt hbefore hother
    omega

theorem last_of_unended (hstart : start < lines.length) (hblock : beginsBlock (trim opening) = true)
    (hopen : endsBlock (trim opening) = false) (h : ¬ ∃ row, start < row ∧ EndsAt lines row) :
    start + (read opening (lines.drop (start + 1))).taken + 1 = lines.length := by
  obtain ⟨-, hat⟩ := rows_findIdx (fun line => endsBlock (trim line)) lines start
  rw [taken_read_open hblock hopen, List.length_drop]
  generalize (lines.drop (start + 1)).findIdx (fun line => endsBlock (trim line)) = k at hat
  have hge : lines.length ≤ start + 1 + k := by
    refine Nat.le_of_not_lt fun hlt => h ⟨start + 1 + k, by omega, lines[start + 1 + k], ?_, ?_⟩
    · exact List.getElem?_eq_getElem hlt
    · exact hat _ (List.getElem?_eq_getElem hlt)
  omega

/-! ## The comment and its text -/

theorem isLastRow_read (hstart : start < lines.length) (opening : Text) :
    IsLastRow lines start opening (start + (read opening (lines.drop (start + 1))).taken) where
  ofLine hline := isGreatest_runsTo hline
  ofClosed hblock hclosed := by simp [taken_read_block hblock, hclosed, List.findIdx_cons]
  ofOpen hblock hopen h := isLeast_endsAt hblock hopen h
  ofUnended hblock hopen h := last_of_unended hstart hblock hopen h

theorem throughEnd_prefix_self (lines : List Text) : throughEnd lines <+: lines := by
  induction lines with
  | nil => exact List.nil_prefix
  | cons line more ih =>
    rw [throughEnd]
    split
    · exact List.cons_prefix_cons.mpr ⟨rfl, List.nil_prefix⟩
    · exact List.cons_prefix_cons.mpr ⟨rfl, ih⟩

theorem continuation_prefix_self (opening : Text) (below : List Text) :
    continuation opening below <+: below := by
  rw [continuation]
  split
  · exact List.takeWhile_prefix _
  · split
    · exact throughEnd_prefix_self below
    · exact List.nil_prefix

theorem taken_read_le (opening : Text) (below : List Text) :
    (read opening below).taken ≤ below.length := (continuation_prefix_self opening below).length_le

theorem last_lt (hstart : start < lines.length) (opening : Text) :
    start + (read opening (lines.drop (start + 1))).taken < lines.length := by
  have hle := taken_read_le opening (lines.drop (start + 1))
  rw [List.length_drop] at hle
  omega

theorem trim_piece (opening line : Text) : trim (piece opening line) = piece opening line := by
  have hline : ∀ t : Text, trim (linePiece t) = linePiece t := fun t => by
    unfold linePiece
    split <;> exact trim_trim _
  rw [piece]
  split
  · exact hline _
  · split
    · exact trim_trim _
    · exact trim_trim line

theorem trim_text_read (opening : Text) (below : List Text) :
    trim (read opening below).text = (read opening below).text := by
  refine trim_join fun t ht => ?_
  obtain ⟨hmem, hne⟩ := List.mem_filter.mp ht
  obtain ⟨line, -, rfl⟩ := List.mem_map.mp hmem
  exact ⟨by simpa using hne, trim_piece opening line⟩

/-- A comment takes the lines below its own up to its last row, which is where a comment of its kind
ends, and no others. Its text is trimmed, and it is what its opening and those lines say. -/
theorem read_extent (hstart : start < lines.length) (opening : Text) :
    let reading := read opening (lines.drop (start + 1))
    let last := start + reading.taken
    last < lines.length ∧ IsLastRow lines start opening last ∧
      reading.text = join [' '] (((opening :: (lines.take (last + 1)).drop (start + 1)).map
        (piece opening)).filter (! ·.isEmpty)) ∧
      trim reading.text = reading.text := by
  intro reading last
  have hrows : (lines.take (last + 1)).drop (start + 1) =
      continuation opening (lines.drop (start + 1)) := by
    have hlast : last + 1 - (start + 1) = reading.taken := by omega
    rw [List.drop_take, hlast]
    exact (List.prefix_iff_eq_take.mp (continuation_prefix_self opening _)).symm
  refine ⟨last_lt hstart opening, isLastRow_read hstart opening, ?_, trim_text_read opening _⟩
  rw [hrows]
  rfl

/-- A block over lines that look like other comments, and over an empty one. -/
theorem read_extent_of_block :
    let lines := ["int a; /* one".toList, "// two".toList, [], "/* three */".toList, "int b;".toList]
    let opening := "/* one".toList
    let reading := read opening (lines.drop 1)
    0 < lines.length ∧ reading.taken = 3 ∧ IsLastRow lines 0 opening 3 ∧
      reading.text = join [' '] (((opening :: (lines.take 4).drop 1).map
        (piece opening)).filter (! ·.isEmpty)) ∧
      trim reading.text = reading.text := by
  intro lines opening reading
  have hstart : 0 < lines.length := by decide
  have htaken : reading.taken = 3 := by decide
  have hlast : 0 + reading.taken = 3 := by rw [htaken]
  obtain ⟨-, hrow, htext, htrim⟩ := read_extent hstart opening
  rw [hlast] at hrow htext
  exact ⟨hstart, htaken, hrow, htext, htrim⟩

end StructTables.Comment
