import StructTables.Outline.Inline
import StructTables.Proofs.Comment.Delimiters
import StructTables.Proofs.Text.Cutting

/-! # What opens nothing

Whatever a line begins with, it opens no structure if a semicolon stands in its code: none of the
keywords, names and braces of an opening line contains one. -/

namespace StructTables.Outline
open Text

/-! ## Terminated texts -/

/-- A semicolon stands in the text ahead of every slash. -/
def isTerminated (t : Text) : Prop := ∃ before after, t = before ++ ';' :: after ∧ '/' ∉ before

theorem isTerminated.tail {c : Char} {r : Text} (h : isTerminated (c :: r)) (hc : c ≠ ';') :
    isTerminated r := by
  obtain ⟨before, after, heq, hslash⟩ := h
  cases before with
  | nil => exact absurd (List.cons.inj heq).1 hc
  | cons d before =>
    exact ⟨before, after, (List.cons.inj heq).2, List.not_mem_of_not_mem_cons hslash⟩

theorem isTerminated.append {keyword r : Text} (h : isTerminated (keyword ++ r))
    (hkeyword : ';' ∉ keyword) : isTerminated r := by
  induction keyword with
  | nil => exact h
  | cons c more ih =>
    obtain ⟨hc, hmore⟩ := List.ne_and_not_mem_of_not_mem_cons hkeyword
    exact ih (h.tail (Ne.symm hc)) hmore

theorem isTerminated.dropWhile {p : Char → Bool} (hp : p ';' = false) {t : Text}
    (h : isTerminated t) : isTerminated (t.dropWhile p) := by
  induction t with
  | nil => exact h
  | cons c r ih =>
    cases hc : p c with
    | true =>
      rw [List.dropWhile_cons_of_pos hc]
      exact ih (h.tail fun heq => by rw [heq, hp] at hc; cases hc)
    | false => rwa [List.dropWhile_cons_of_neg (by simp [hc])]

theorem isTerminated.trimStart {t : Text} (h : isTerminated t) : isTerminated (trimStart t) :=
  h.dropWhile rfl

theorem isTerminated.dropOne {c : Char} (hc : c ≠ ';') {t : Text} (h : isTerminated t) :
    isTerminated (Comment.dropOne c t) := by
  unfold Comment.dropOne
  split
  · exact h
  · split
    case isTrue heq => exact h.tail (heq ▸ hc)
    case isFalse => exact h

theorem isTerminated.isEmpty {t : Text} (h : isTerminated t) : t.isEmpty = false := by
  obtain ⟨before, after, rfl, -⟩ := h
  simp

theorem isTerminated.begins {t : Text} (h : isTerminated t) : Comment.begins t = false := by
  obtain ⟨before, after, rfl, hslash⟩ := h
  cases before with
  | nil => exact Comment.begins_cons_eq_false (by decide) after
  | cons c before =>
    exact Comment.begins_cons_eq_false (Ne.symm (List.ne_of_not_mem_cons hslash)) _

theorem isTerminated.afterTag {t : Text} (h : isTerminated t) : isTerminated (afterTag t) := by
  unfold Outline.afterTag
  split
  · exact h
  · split
    case isTrue c r hc =>
      have hr := (h.tail fun heq => by rw [heq] at hc; cases hc).trimStart
      unfold cutName
      split
      case h_1 hnil => rwa [hnil] at hr
      case h_2 =>
        split
        · exact hr.dropWhile rfl
        · exact hr
    case isFalse => exact h

theorem isTerminated.afterTypedef {t rest : Text} (h : isTerminated t)
    (hrest : afterTypedef? t = some rest) : isTerminated rest := by
  unfold afterTypedef? at hrest
  split at hrest
  case isTrue => cases hrest
  case isFalse hstarts =>
    obtain ⟨r, rfl⟩ : typedefKeyword <+: t :=
      List.isPrefixOf_iff_prefix.mp (by simpa [startsWith] using hstarts)
    have hr := h.append (by decide)
    rw [List.drop_left] at hrest
    split at hrest
    case h_1 => cases hrest
    case h_2 c r =>
      split at hrest
      case isTrue hc =>
        cases hrest
        exact (hr.tail fun heq => by rw [heq] at hc; cases hc).trimStart
      case isFalse => cases hrest

theorem opensTypedef_of_isTerminated {line : Text} (h : isTerminated line) :
    opensTypedef line = false := by
  unfold opensTypedef
  split
  case h_1 => rfl
  case h_2 rest hrest =>
    cases hstruct : startsWith rest structKeyword with
    | false => rfl
    | true =>
      obtain ⟨r, rfl⟩ : structKeyword <+: rest := List.isPrefixOf_iff_prefix.mp hstruct
      have htagless := ((h.afterTypedef hrest).append (by decide)).afterTag.trimStart
      have hbehind := (htagless.dropOne (show '{' ≠ ';' by decide)).trimStart
      rw [List.drop_left]
      simp only [hbehind.isEmpty, hbehind.begins, Bool.or_self, Bool.and_false]

/-- A line with a semicolon in its code opens nothing. -/
theorem opening?_of_isTerminated {line : Text} (h : isTerminated line) : opening? line = none := by
  have hcode : (Comment.code line).any (fun c => c == ';' || c == '=' || c == '(') = true := by
    obtain ⟨before, after, rfl, hslash⟩ := h
    rw [Comment.code_append hslash, Comment.code, Comment.cut,
      Comment.begins_cons_eq_false (by decide), if_neg Bool.false_ne_true]
    simp
  simp [opening?, opensTypedef_of_isTerminated h, hcode]

/-! ## Braces -/

theorem brokenLine_of_no_brace {line : Text} (h : '{' ∉ line) : brokenLine line = [line] := by
  simp [brokenLine, cutFirst?_eq_none h]

/-- A line that ends in its only brace has nothing behind it to break off. -/
theorem brokenLine_append_brace (before : Text) (h : '{' ∉ before) :
    brokenLine (before ++ ['{']) = [before ++ ['{']] := by
  have hempty : trim [] = [] := rfl
  simp [brokenLine, cutFirst?_append h, hempty]

end StructTables.Outline
