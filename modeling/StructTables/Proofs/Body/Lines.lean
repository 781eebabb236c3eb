import StructTables.Body.Reading
import StructTables.Proofs.Comment.Delimiters
import StructTables.Proofs.Macro.Identifier

/-! # Lines that declare

A line is read statement by statement unless it begins a comment or is skipped. How it begins and ends
decides that, and the directives that open and close a conditional block are among what is skipped. -/

namespace StructTables.Body
open Text

variable {c : Char} {line r : Text}

theorem startsWith_cons_eq_false {d : Char} (h : d ≠ c) (s : Text) :
    startsWith (c :: r) (d :: s) = false := by
  simp [startsWith, List.isPrefixOf, h]

theorem Context.enter_of_not_skipped (h : isSkipped line = false) (context : Context) :
    context.enter line = context := by
  have hmark : startsWith line ['#'] = false := by
    simp only [isSkipped, Bool.or_eq_false_iff] at h
    exact h.1.1.2
  have hno : ∀ directive, startsWith line ('#' :: directive) = false := fun directive => by
    refine Bool.eq_false_iff.mpr fun hstarts => ?_
    have hprefix : ['#'] <+: line :=
      List.IsPrefix.trans ⟨directive, rfl⟩ (List.isPrefixOf_iff_prefix.mp hstarts)
    rw [startsWith, List.isPrefixOf_iff_prefix.mpr hprefix] at hmark
    cases hmark
  have hif : startsWith line "#if".toList = false := hno _
  have hendif : startsWith line "#endif".toList = false := hno _
  rw [enter, hif, if_neg Bool.false_ne_true, hendif, if_neg Bool.false_ne_true]

theorem readLine_eq_readStatements (hbegins : Comment.begins line = false)
    (hskip : isSkipped line = false) (context : Context) (below : List Text) :
    readLine context line below = readStatements context below (Declaration.statements line) := by
  rw [readLine, Context.enter_of_not_skipped hskip, hbegins, hskip]
  rfl

theorem endsWith_brace_eq_false (h : '{' ∉ line) : endsWith line ['{'] = false := by
  refine Bool.eq_false_iff.mpr fun hends => h ?_
  exact (List.isSuffixOf_iff_suffix.mp hends).subset (List.mem_singleton.mpr rfl)

theorem isSkipped_eq_false (hc : c ≠ '{' ∧ c ≠ '*' ∧ c ≠ '#' ∧ c ≠ '\\')
    (hend : endsWith (c :: r) ['{'] = false) : isSkipped (c :: r) = false := by
  simp only [isSkipped, hend, startsWith_cons_eq_false hc.1.symm,
    startsWith_cons_eq_false hc.2.1.symm, startsWith_cons_eq_false hc.2.2.1.symm,
    startsWith_cons_eq_false hc.2.2.2.symm, List.isEmpty_cons, Bool.or_self]

/-- One star at the front of a line is not yet the middle or the end of a block comment. -/
theorem isSkipped_star_eq_false (hc : c ≠ '*' ∧ c ≠ '/')
    (hend : endsWith ('*' :: c :: r) ['{'] = false) : isSkipped ('*' :: c :: r) = false := by
  have hstars : ∀ d, d ≠ c → startsWith ('*' :: c :: r) ['*', d] = false := fun d hd => by
    simp [startsWith, List.isPrefixOf, hd]
  simp only [isSkipped, hend, hstars '*' hc.1.symm, hstars '/' hc.2.symm, List.isEmpty_cons,
    startsWith_cons_eq_false (c := '*') (d := '{') (by decide),
    startsWith_cons_eq_false (c := '*') (d := '#') (by decide),
    startsWith_cons_eq_false (c := '*') (d := '\\') (by decide), Bool.or_self]

/-- A line that begins with a word is read, unless it opens a block. -/
theorem readLine_of_word (hc : Macro.isIdentifierCharacter c = true)
    (hend : endsWith (c :: r) ['{'] = false) (context : Context) (below : List Text) :
    readLine context (c :: r) below =
      readStatements context below (Declaration.statements (c :: r)) := by
  have hno {d : Char} : Macro.isIdentifierCharacter d = false → c ≠ d :=
    Macro.ne_of_isIdentifierCharacter hc
  exact readLine_eq_readStatements (Comment.begins_cons_eq_false (hno rfl) r)
    (isSkipped_eq_false ⟨hno rfl, hno rfl, hno rfl, hno rfl⟩ hend) context below

/-! ## Statements -/

open Declaration

/-- A statement declares variables where its type is known: from above, if the type goes on, or from
its own text. -/
theorem readStatement_declares {context : Context} {statement : Statement} {dataType names : Text}
    (hne : statement.declaration ≠ [])
    (hhere : statement.terminated = false → context.continues = false →
      ',' ∈ statement.declaration)
    (hparts : (if context.continues then some (context.dataType, statement.declaration)
      else typeAndNames? statement.declaration) = some (dataType, names)) (comment : Text) :
    readStatement context statement comment =
      { context := { context with
          dataType := dataType, continues := !statement.terminated, carried := [] }
        entries := (declarators names).map
          (entryOf dataType (context.description comment) statement.source)
        goesOn := true } := by
  have hempty : statement.declaration.isEmpty = false := by simpa using hne
  have halone : (!statement.terminated && !context.continues &&
      !statement.declaration.contains ',') = false := by
    cases hterminated : statement.terminated with
    | true => rfl
    | false =>
      cases hcontinues : context.continues with
      | true => rfl
      | false => simpa using hhere hterminated hcontinues
  rw [readStatement, hempty, halone, hparts]
  rfl

theorem readStatements_singleton {statement : Statement} (h : statement.comment = [])
    (context : Context) (below : List Text) :
    readStatements context below [statement] =
      { context := (readStatement context statement []).context
        entries := (readStatement context statement []).entries } := by
  rw [readStatements, h, List.isEmpty_nil, Bool.not_true, Bool.and_false]
  rfl

end StructTables.Body
