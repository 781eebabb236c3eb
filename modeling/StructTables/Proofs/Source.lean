import StructTables.Proofs.Text.OneLine
import StructTables.Source

/-! # Logical lines

Lines without blanks around them and without a backslash at the end are the logical lines of the
source that they are written to, whether its lines are joined or not. What holds of the physical lines and
is kept when two are joined holds of the logical ones. -/

namespace StructTables.Source
open Text

/-- A line that a source can have as one of its logical lines, just as it is written. -/
structure Logical (line : Text) : Prop where
  newline : '\n' ∉ line
  trimmed : trim line = line
  ends : continues line = false

/-- What joining keeps holds of the logical lines if it holds of the lines that they are joined from. -/
theorem forall_mem_joined {P : Text → Prop}
    (hjoin : ∀ pending line, P pending → P line → P (pending.dropLast ++ line)) {ls : List Text}
    (h : ∀ line ∈ ls, P line) : ∀ line ∈ joined ls, P line := by
  have hfrom : ∀ (more : List Text) (pending : Text), (∀ line ∈ pending :: more, P line) →
      ∀ line ∈ joinedFrom pending more, P line := by
    intro more
    induction more with
    | nil => exact fun _ h => h
    | cons next more ih =>
      intro pending h
      obtain ⟨hpending, hmore⟩ := List.forall_mem_cons.mp h
      obtain ⟨hnext, hrest⟩ := List.forall_mem_cons.mp hmore
      rw [joinedFrom]
      split
      · exact ih _ (List.forall_mem_cons.mpr ⟨hjoin pending next hpending hnext, hrest⟩)
      · exact List.forall_mem_cons.mpr ⟨hpending, ih next hmore⟩
  cases ls with
  | nil => exact fun line hline => nomatch hline
  | cons line more => exact hfrom more line h

/-- Lines stay as they are if none of them but the last goes on. -/
theorem joined_eq_self {ls : List Text} (h : ∀ line ∈ ls.dropLast, continues line = false) :
    joined ls = ls := by
  cases ls with
  | nil => rfl
  | cons line more =>
    rw [joined]
    induction more generalizing line with
    | nil => rfl
    | cons next more ih =>
      obtain ⟨hline, hmore⟩ := List.forall_mem_cons.mp h
      rw [joinedFrom, if_neg (by simp [hline]), ih next hmore]

theorem joined_of_logical {ls : List Text} (h : ∀ line ∈ ls, Logical line) : joined ls = ls :=
  joined_eq_self fun line hline => (h line (List.dropLast_subset _ hline)).ends

theorem logicalLines_of_logical (joining : Bool) {ls : List Text} (h : ∀ line ∈ ls, Logical line) :
    logicalLines joining (ls.flatMap (· ++ ['\n'])) = ls := by
  have hmap : ls.map trim = ls :=
    (List.map_congr_left fun line hline => (h line hline).trimmed).trans (List.map_id ls)
  rw [logicalLines, lines_flatMap_newline fun line hline => (h line hline).newline, hmap]
  cases joining with
  | true => exact joined_of_logical h
  | false => rfl

/-- A line with neither blanks around it nor a backslash at its end. -/
theorem logical_of_ends (c : Char) (between : Text) (e : Char) (hnewline : '\n' ∉ c :: (between ++ [e]))
    (hc : isBlank c = false) (he : isBlank e = false) (hends : e ≠ '\\') :
    Logical (c :: (between ++ [e])) := by
  refine ⟨hnewline, trim_cons_append between hc he, ?_⟩
  rw [continues, ← List.cons_append, endsWith_append_singleton]
  simp [Ne.symm hends]

/-- No line feed of a source is in any of its logical lines. -/
theorem oneLine_logicalLines (joining : Bool) (content : Text) :
    ∀ line ∈ logicalLines joining content, OneLine line := by
  have hphysical : ∀ line ∈ (lines content).map trim, OneLine line := by
    intro line hline
    obtain ⟨physical, hmem, rfl⟩ := List.mem_map.mp hline
    exact (oneLine_of_mem_lines hmem).trim
  cases joining with
  | true =>
    refine forall_mem_joined (fun pending line hpending hline => ?_) hphysical
    exact oneLine_append.mpr ⟨hpending.mono (List.dropLast_subset _), hline⟩
  | false => exact hphysical

end StructTables.Source
