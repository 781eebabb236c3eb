import StructTables.Declaration
import StructTables.Proofs.Text.Cutting

/-! # Statements of a line

The statements of a line follow its terminators. A comment can only stand beside the last of them,
since whatever a comment begins with ends the code of the line. -/

namespace StructTables.Declaration
open Text

theorem statements_of_unterminated {line : Text} (h : terminator? line = none) :
    statements line = [firstStatement line] := by
  rw [statements]
  split
  case h_1 hterm => rw [h] at hterm; cases hterm
  case h_2 => rfl

theorem statements_of_terminator {line declaration after : Text}
    (h : terminator? line = some (declaration, after)) :
    statements line = firstStatement line ::
      if (trim after).isEmpty || Comment.begins (trim after) then [] else statements (trim after) := by
  rw [statements]
  split
  case h_1 hterm =>
    rw [h] at hterm
    cases hterm
    rfl
  case h_2 hterm => rw [h] at hterm; cases hterm

/-- A line with nothing behind its first terminator, or a comment there, is one statement. -/
theorem statements_of_commented {t b : Text} (hcode : ';' ∈ Comment.code (t ++ ';' :: b)) (h : ';' ∉ t)
    (hb : trim b = [] ∨ Comment.begins (trim b) = true) :
    statements (t ++ ';' :: b) = [⟨t ++ ';' :: b, tidy t, true, trim b⟩] := by
  have hterm : terminator? (t ++ ';' :: b) = some (t, b) := by
    rw [terminator?, if_pos (List.contains_iff_mem.mpr hcode), cutFirst?_append h]
  rw [statements_of_terminator hterm, firstStatement, hterm]
  rcases hb with hb | hb
  · simp [hb, Comment.begins, Comment.beginsBlock, Comment.beginsLine, startsWith]
  · simp [hb]

/-- Without a comment, a line that ends at its only terminator is one statement. -/
theorem statements_of_terminated {t : Text} (hfree : Comment.code (t ++ [';']) = t ++ [';'])
    (h : ';' ∉ t) : statements (t ++ [';']) = [⟨t ++ [';'], tidy t, true, []⟩] :=
  statements_of_commented (by simp [hfree]) h (.inl rfl)

/-- Without a comment and a terminator, a line is one statement that is not terminated. -/
theorem statements_of_open {t : Text} (hfree : Comment.cut t = (t, [])) (h : ';' ∉ t) :
    statements t = [⟨t, tidy t, false, []⟩] := by
  have hterm : terminator? t = none := by
    rw [terminator?, Comment.code, hfree, if_neg (by simpa using h)]
  rw [statements_of_unterminated hterm, firstStatement, hterm, hfree]

theorem statements_ne_nil (line : Text) : statements line ≠ [] := by
  rw [statements]
  exact List.cons_ne_nil _ _

theorem comment_eq_nil_of_mem_dropLast {line : Text} {statement : Statement}
    (h : statement ∈ (statements line).dropLast) : statement.comment = [] := by
  induction hn : line.length using Nat.strongRecOn generalizing line with
  | _ n ih =>
    cases hterm : terminator? line with
    | none => simp [statements_of_unterminated hterm] at h
    | some parts =>
      obtain ⟨declaration, after⟩ := parts
      rw [statements_of_terminator hterm] at h
      split at h
      case isTrue => simp at h
      case isFalse hmore =>
        rw [List.dropLast_cons_of_ne_nil (statements_ne_nil _)] at h
        rcases List.mem_cons.mp h with rfl | h
        · simp only [Bool.or_eq_true, not_or] at hmore
          simp [firstStatement, hterm, hmore.2]
        · exact ih _ (hn ▸ length_terminator_lt hterm) h rfl

end StructTables.Declaration
