import StructTables.Proofs.Outline.Opening
import StructTables.Proofs.Outline.Rewording
import StructTables.Proofs.Text.OneLine

/-! # Braces in comments

A line is broken at its first brace, be that in its code or in a comment: the words of a comment can be
taken for an inline body. Where they are not, the line stays whole whatever its comment says, and its
comment has no part in the outline. -/

namespace StructTables.Outline
open Text Comment

/-! ## Inline bodies -/

/-- The line is taken to have a body behind its first brace: it names a structure, assigns nothing
ahead of the brace, and has something other than a comment behind it. -/
structure BeginsBody (line before behind : Text) : Prop where
  line_eq : line = before ++ '{' :: behind
  first : '{' ∉ before
  names : namesStructure line = true
  assigns : '=' ∉ before
  goesOn : trim behind ≠ []
  isCode : begins (trim behind) = false

def HasInlineBody (line : Text) : Prop := ∃ before behind, BeginsBody line before behind

theorem exists_cons_of_namesStructure {line : Text} (h : namesStructure line = true) :
    ∃ c r, line = c :: r ∧ c ≠ '{' ∧ c ≠ '}' ∧ isBlank c = false := by
  rw [namesStructure, Bool.or_eq_true] at h
  rcases h with hstruct | htypedef
  · cases hstarts : startsWith line structKeyword with
    | false => simp [afterKeyword?, hstarts] at hstruct
    | true =>
      obtain ⟨r, rfl⟩ : structKeyword <+: line := List.isPrefixOf_iff_prefix.mp hstarts
      exact ⟨'s', "truct".toList ++ r, rfl, by decide, by decide, by decide⟩
  · cases hstarts : startsWith line typedefKeyword with
    | false => simp [afterTypedef?, hstarts] at htypedef
    | true =>
      obtain ⟨r, rfl⟩ : typedefKeyword <+: line := List.isPrefixOf_iff_prefix.mp hstarts
      exact ⟨'t', "ypedef".toList ++ r, rfl, by decide, by decide, by decide⟩

theorem closes_eq_false {t : Text} (h : '}' ∉ t) : closes t = false := by
  refine Bool.eq_false_iff.mpr fun hcloses => ?_
  obtain ⟨r, rfl⟩ : ['}'] <+: t := List.isPrefixOf_iff_prefix.mp hcloses
  simp at h

theorem closes_trim_cons (r : Text) : closes (trim ('}' :: r)) = true := by
  obtain ⟨s, hs⟩ := exists_trim_cons (show isBlank '}' = false by decide) r
  rw [hs]
  rfl

section OneLine

variable {line before behind : Text}

/-- The opening that is broken off does not close anything. -/
theorem BeginsBody.closes_head (h : BeginsBody line before behind) :
    closes (trim (before ++ ['{'])) = false := by
  obtain ⟨c, r, hline, hopen, hclose, hblank⟩ := exists_cons_of_namesStructure h.names
  cases before with
  | nil => exact absurd (List.cons.inj (hline.symm.trans h.line_eq)).1 hopen
  | cons d before =>
    obtain rfl : c = d := (List.cons.inj (hline.symm.trans h.line_eq)).1
    obtain ⟨s, hs⟩ := exists_trim_cons hblank (before ++ ['{'])
    rw [List.cons_append, hs]
    simp [closes, startsWith, List.isPrefixOf, hclose.symm]

/-- An inline body is parted from its opening. One of the parts behind the opening closes a structure
if there is a closing brace for it. -/
theorem BeginsBody.brokenLine_eq (h : BeginsBody line before behind) :
    ∃ part parts, brokenLine line = trim (before ++ ['{']) :: part :: parts ∧
      ((∃ row ∈ part :: parts, closes row = true) ↔ '}' ∈ behind) := by
  have hcut : cutFirst? '{' line = some (before, behind) := by
    rw [h.line_eq, cutFirst?_append h.first]
  have hbroken : (before.contains '=' || (trim behind).isEmpty || begins (trim behind)) = false := by
    simp [h.assigns, h.goesOn, h.isCode]
  simp only [brokenLine, h.names, hcut, hbroken, Bool.not_true, Bool.false_eq_true, if_false]
  cases hlast : cutLast? '}' (trim behind) with
  | none =>
    have hnone : '}' ∉ behind := fun hmem => by
      obtain ⟨inside, rest, hcut⟩ := exists_cutLast? (mem_trim (by decide) hmem)
      rw [hcut] at hlast
      cases hlast
    refine ⟨trim behind, [], rfl, ?_⟩
    simp [hnone, closes_eq_false fun hmem => hnone (mem_of_mem_trim hmem)]
  | some cut =>
    obtain ⟨inside, rest⟩ := cut
    have hsome : '}' ∈ behind := mem_of_mem_trim (by simp [eq_of_cutLast? hlast])
    dsimp only
    split
    · exact ⟨_, _, rfl, by simp [hsome, closes_trim_cons]⟩
    · exact ⟨_, _, rfl, by simp [hsome, closes_trim_cons]⟩

theorem brokenLine_eq_self_iff (line : Text) : brokenLine line = [line] ↔ ¬ HasInlineBody line := by
  constructor
  · rintro hself ⟨before, behind, h⟩
    obtain ⟨part, parts, hbroken, -⟩ := h.brokenLine_eq
    rw [hself] at hbroken
    cases hbroken
  · intro hno
    by_cases hmem : '{' ∈ line
    · obtain ⟨before, behind, hline, hfirst⟩ := List.eq_append_cons_of_mem hmem
      have hcut : cutFirst? '{' line = some (before, behind) := by
        rw [hline, cutFirst?_append hfirst]
      simp only [brokenLine, hcut]
      split
      case isTrue => rfl
      case isFalse hnames =>
        split
        case isTrue => rfl
        case isFalse hwhole =>
          simp only [Bool.or_eq_true, not_or] at hwhole
          obtain ⟨⟨hassigns, hgoesOn⟩, hcode⟩ := hwhole
          have hbody : BeginsBody line before behind := {
            line_eq := hline
            first := hfirst
            names := by simpa using hnames
            assigns := by simpa using hassigns
            goesOn := by simpa using hgoesOn
            isCode := by simpa using hcode }
          exact absurd ⟨before, behind, hbody⟩ hno
    · exact brokenLine_of_no_brace hmem

/-- Without a closing brace in its code, a line gives a part that closes exactly if there is one in what
is taken for its body. -/
theorem exists_closes_iff (hclose : '}' ∉ code line) :
    (∃ row ∈ brokenLine line, closes row = true) ↔
      ∃ before behind, BeginsBody line before behind ∧ '}' ∈ behind := by
  constructor
  · rintro ⟨row, hrow, hcloses⟩
    by_cases hbody : HasInlineBody line
    · obtain ⟨before, behind, h⟩ := hbody
      obtain ⟨part, parts, hbroken, hparts⟩ := h.brokenLine_eq
      rw [hbroken] at hrow
      rcases List.mem_cons.mp hrow with rfl | hrow
      · rw [h.closes_head] at hcloses
        cases hcloses
      · exact ⟨before, behind, h, hparts.mp ⟨row, hrow, hcloses⟩⟩
    · rw [(brokenLine_eq_self_iff line).mpr hbody, List.mem_singleton] at hrow
      rw [hrow, ← closes_code, closes_eq_false hclose] at hcloses
      cases hcloses
  · rintro ⟨before, behind, h, hbehind⟩
    obtain ⟨part, parts, hbroken, hparts⟩ := h.brokenLine_eq
    obtain ⟨row, hrow, hcloses⟩ := hparts.mpr hbehind
    exact ⟨row, hbroken ▸ List.mem_cons_of_mem _ hrow, hcloses⟩

/-- What is taken for a body stands in the comment, if no brace stands in the code. -/
theorem BeginsBody.exists_comment (h : BeginsBody line before behind)
    (hopen : '{' ∉ code line) : ∃ wording, before = code line ++ wording := by
  have hbrace : before ++ ['{'] <+: line := ⟨behind, by simp [h.line_eq]⟩
  have hle : (code line).length ≤ before.length := by
    by_contra hlt
    have hsub : before ++ ['{'] <+: code line :=
      List.prefix_of_prefix_length_le hbrace (code_prefix_self line) (by simp; omega)
    exact hopen (hsub.subset (by simp))
  have hbefore : before <+: line := (List.prefix_append before ['{']).trans hbrace
  obtain ⟨wording, hwording⟩ := List.prefix_of_prefix_length_le (code_prefix_self line) hbefore hle
  exact ⟨wording, hwording.symm⟩

end OneLine

/-! ## Lines that stay whole -/

theorem brokenLines_append_cons {line : Text} (h : brokenLine line = [line])
    (above below : List Text) :
    brokenLines (above ++ line :: below) = brokenLines above ++ line :: brokenLines below := by
  rw [brokenLines, List.flatMap_append, List.flatMap_cons, h]
  rfl

/-- A line with no brace in its code stays whole unless words of its comment are taken for an inline
body, and then a part of it closes a structure if there is a closing brace among these words. A line
that stays whole closes nothing, and the outline is the same whatever its comment says. -/
theorem braces_in_comment (line : Text) (hopen : '{' ∉ code line)
    (hclose : '}' ∉ code line) (above below : List Text) :
    (brokenLine line = [line] ↔ ¬ HasInlineBody line) ∧
    (∀ before behind, BeginsBody line before behind →
      ∃ wording, before = code line ++ wording) ∧
    ((∃ row ∈ brokenLine line, closes row = true) ↔
      ∃ before behind, BeginsBody line before behind ∧ '}' ∈ behind) ∧
    (¬ HasInlineBody line →
      brokenLines (above ++ line :: below) = brokenLines above ++ line :: brokenLines below ∧
      (∀ opening body closing,
        .closed opening body closing ∈ regions (above ++ line :: below) →
          (brokenLines (above ++ line :: below))[opening.line + body.length]? = some closing ∧
            opening.line + body.length ≠ (brokenLines above).length) ∧
      ∀ other, IsRewording line other → ¬ HasInlineBody other →
        List.Forall₂ Region.Reworded (regions (above ++ line :: below))
          (regions (above ++ other :: below))) := by
  refine ⟨brokenLine_eq_self_iff line, fun before behind h => h.exists_comment hopen,
    exists_closes_iff hclose, fun hno => ?_⟩
  have hself := (brokenLine_eq_self_iff line).mpr hno
  have hrows := brokenLines_append_cons hself above below
  refine ⟨hrows, fun opening body closing hregion => ?_, fun other hother hno' => ?_⟩
  · obtain ⟨hclosing, hcloses⟩ := exists_closing hregion
    refine ⟨hclosing, fun hat => ?_⟩
    rw [hrows, hat, List.getElem?_append_right (Nat.le_refl _), Nat.sub_self] at hclosing
    obtain rfl : line = closing := Option.some.inj hclosing
    rw [← closes_code, closes_eq_false hclose] at hcloses
    cases hcloses
  · refine regions_reworded ?_
    rw [hrows, brokenLines_append_cons ((brokenLine_eq_self_iff other).mpr hno')]
    have hrefl : ∀ rows, List.Forall₂ IsRewording rows rows := fun rows =>
      List.forall₂_same.mpr fun row _ => .refl row
    exact List.rel_append (hrefl _) (.cons hother (hrefl _))

/-- The comment of a member is free to say anything. -/
theorem braces_in_comment_of_member :
    let line := "int a; /* \x7bx\x7d */".toList
    let other := "int a; /* nothing */".toList
    let above := ["struct Outer \x7b".toList]
    let below := ["int b;".toList, "\x7d;".toList]
    '{' ∉ code line ∧ '}' ∉ code line ∧ ¬ HasInlineBody line ∧
      IsRewording line other ∧ ¬ HasInlineBody other ∧
      List.Forall₂ Region.Reworded (regions (above ++ line :: below))
        (regions (above ++ other :: below)) := by
  intro line other above below
  have hopen : '{' ∉ code line := by decide
  have hclose : '}' ∉ code line := by decide
  have hline : ¬ HasInlineBody line := (brokenLine_eq_self_iff line).mp (by decide)
  have hother : ¬ HasInlineBody other := (brokenLine_eq_self_iff other).mp (by decide)
  have hreworded : IsRewording line other := ⟨by decide, by decide, by decide⟩
  obtain ⟨-, -, -, hwhole⟩ := braces_in_comment line hopen hclose above below
  exact ⟨hopen, hclose, hline, hreworded, hother, (hwhole hline).2.2 other hreworded hother⟩

/-- On a member whose type is a structure, the comment is taken for an inline body: its closing brace
closes the structure around the member, and the members below are lost. -/
theorem closed_within_comment :
    let line := "struct Inner a; // \x7bx\x7d".toList
    let lines := ["struct Outer \x7b".toList, line, "int b;".toList, "\x7d;".toList]
    '{' ∉ code line ∧ '}' ∉ code line ∧
      brokenLine line = ["struct Inner a; // \x7b".toList, "x".toList, "\x7d".toList] ∧
      regions lines =
        [.closed ⟨.tagged, "Outer".toList, 1⟩ ["struct Inner a; // \x7b".toList, "x".toList]
          "\x7d".toList, .outside "int b;".toList, .outside "\x7d;".toList] := by
  decide +kernel

end StructTables.Outline
