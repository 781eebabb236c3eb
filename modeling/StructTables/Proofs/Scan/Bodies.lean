import StructTables.Proofs.Outline.Ahead
import StructTables.Proofs.Scan.Closing

/-! # Structures with a body

A structure that opens in place of another one has a body. One that opens outside of structures need
not have any: it lacks one exactly if no line opens a structure with a body between the closing line
above it and its own. -/

namespace StructTables.Outline
open Text Comment

/-- Whether a body begins at the opening line. -/
def Span.hasBody (span : Span) : Bool :=
  opensBody span.line (span.body ++ span.closing :: span.after)

/-- The lines between the closing line above the structure and its own. -/
def Span.segment (span : Span) : List Text :=
  (segments span.before).2 ++ span.line :: span.body

/-- The opening line of a structure is where its region says, and the run comes to it from the place
behind the lines ahead. -/
theorem Span.Holds.next_after {lines : List Text} {opening : Opening} {span : Span}
    (h : span.Holds opening) (hlines : span.lines = brokenLines lines)
    (hregion : .closed opening span.body span.closing ∈ regions lines) :
    (Place.outside.after 1 (span.line :: (span.body ++ span.closing :: span.after)) span.before).next
        opening.line span.line (span.body ++ span.closing :: span.after) =
      .behind opening.form opening.name opening.line span.line := by
  rcases exists_ahead hregion rfl with
    ⟨_, _, hplace⟩ | ⟨before, line, after, hsplit, hnumber, hleads⟩
  · cases hplace
  · have hlength : span.before.length = before.length := by
      have := h.number
      omega
    obtain ⟨hbefore, hrest⟩ := List.append_inj (hlines.trans hsplit) hlength
    obtain ⟨hline, hafter⟩ := List.cons.inj hrest
    rwa [hbefore, hline, hafter]

/-! ## Openings with a body -/

variable {below : List Text}

theorem reopenings_append_of_unopened {ahead : List Text} (h : ∀ row ∈ ahead, opening? row = none)
    (lines : List Text) : reopenings below (ahead ++ lines) = reopenings below lines := by
  induction ahead with
  | nil => rfl
  | cons row more ih =>
    obtain ⟨hrow, hmore⟩ := List.forall_mem_cons.mp h
    simp [reopenings, reopening?, hrow, ih hmore]

theorem reopenings_append_ne_nil (ahead : List Text) {lines : List Text}
    (h : reopenings below lines ≠ []) : reopenings below (ahead ++ lines) ≠ [] := by
  induction ahead with
  | nil => exact h
  | cons row more ih =>
    rw [List.cons_append, reopenings]
    split
    · exact ih
    · exact List.cons_ne_nil _ _

/-- Nothing opens within a body. -/
theorem staysInside.reopenings_eq_nil {rows : List Text}
    (hfree : ∀ row ∈ rows, openAfter false row = false) (h : staysInside below false rows) :
    reopenings below rows = [] := by
  induction rows with
  | nil => rfl
  | cons row more ih =>
    obtain ⟨hrow, hmore⟩ := List.forall_mem_cons.mp hfree
    have hstays := h.2
    rw [hrow] at hstays
    simp [reopenings, (h.1 rfl).2, ih hmore hstays]

end StructTables.Outline

namespace StructTables.Scan
open Text Outline

/-- Where a structure that a scan finds stands among the lines. -/
structure StandsAt (lines : List Text) (s : Structure) (opening : Opening) (span : Span) : Prop where
  region : .closed opening span.body span.closing ∈ regions lines
  lines_eq : span.lines = brokenLines lines
  holds : span.Holds opening
  form : s.form = opening.form
  name : s.name = closedName opening span.closing

/-- A structure lacks a body only where nothing has opened since the closing line above it. -/
theorem StandsAt.hasBody_or_unopened {lines : List Text} {s : Structure} {opening : Opening}
    {span : Span} (h : StandsAt lines s opening span)
    (hfree : ∀ line ∈ span.lines, Comment.openAfter false line = false) :
    span.hasBody = true ∨ ∀ row ∈ (segments span.before).2, opening? row = none := by
  rcases Place.eq_outside_or_opensBody (h.holds.next_after h.lines_eq h.region) with
    houtside | hbody
  · have hbefore : ∀ line ∈ span.before, Comment.openAfter false line = false := fun line hline =>
      hfree line (List.mem_append_left _ hline)
    exact .inr (opening?_eq_none_of_outside hbefore rfl houtside).1
  · exact .inl hbody

/-- A structure that opens behind another opening line has a body; and any structure has one exactly if
some line does open a structure with a body, of those between the closing line above and its own. -/
theorem opened_with_body {lines : List Text} (hfree : ∀ line ∈ brokenLines lines, isFree line)
    (scan : Scan) :
    ∀ s ∈ (scan.addLines lines).structures,
      s ∈ scan.structures ∨ ∃ opening span, StandsAt lines s opening span ∧
        ((∃ row ∈ (segments span.before).2, (opening? row).isSome = true) → span.hasBody = true) ∧
        (span.hasBody = true ↔ reopenings (span.closing :: span.after) span.segment ≠ []) := by
  intro s hs
  rcases closed_of_mem_structures hs with hold | ⟨opening, body, closing, collector, hmem, -, rfl⟩
  · exact .inl hold
  · obtain ⟨span, hlines, rfl, rfl, hholds⟩ := exists_span hmem
    have hlook : ∀ line ∈ span.lines, Comment.openAfter false line = false := fun line hline =>
      (hfree line (hlines ▸ hline)).openAfter
    have hstands : StandsAt lines (readClosed collector opening span.body span.closing).1 opening
        span := ⟨hmem, hlines, hholds, rfl, rfl⟩
    have hbody : ∀ row ∈ span.body, Comment.openAfter false row = false := fun row hrow =>
      hlook row (by simp [Span.lines, hrow])
    have hstays := hholds.stays
    rw [hlook span.line (by simp [Span.lines])] at hstays
    have hnone := hstays.reopenings_eq_nil hbody
    have hline : span.hasBody = true ↔
        reopenings (span.closing :: span.after) (span.line :: span.body) ≠ [] := by
      cases h : span.hasBody <;> rw [Span.hasBody] at h <;>
        simp [reopenings, reopening?, Option.filter, hholds.opens, h, hnone]
    refine .inr ⟨opening, span, hstands, ?_, ?_⟩
    · rintro ⟨row, hrow, hopens⟩
      refine (hstands.hasBody_or_unopened hlook).resolve_right fun hno => ?_
      rw [hno row hrow] at hopens
      cases hopens
    · rcases hstands.hasBody_or_unopened hlook with h | hno
      · exact iff_of_true h (reopenings_append_ne_nil _ (hline.mp h))
      · rw [hline, Span.segment, reopenings_append_of_unopened hno]

/-- The structure of a line that no body follows gives way to the one of a line that has one. -/
theorem opened_in_place_of_bodiless :
    let lines := ["struct Outer".toList, "*find(void)".toList, "struct Inner \x7b".toList,
      "int b;".toList, "\x7d;".toList]
    let scan := start [] .generic
    (∀ line ∈ brokenLines lines, isFree line) ∧ (scan.addLines lines).structures ≠ [] ∧
      ∀ s ∈ (scan.addLines lines).structures,
        s ∈ scan.structures ∨ ∃ opening span, StandsAt lines s opening span ∧
          ((∃ row ∈ (segments span.before).2, (opening? row).isSome = true) →
            span.hasBody = true) ∧
          (span.hasBody = true ↔ reopenings (span.closing :: span.after) span.segment ≠ []) := by
  intro lines scan
  have hfree : ∀ line ∈ brokenLines lines, isFree line := by decide +kernel
  exact ⟨hfree, by decide +kernel, opened_with_body hfree scan⟩

/-- A function that returns a structure is taken for one: its type stands on a line of its own, and the
closing brace of its body closes the structure. -/
theorem closed_without_body :
    ¬ ∀ (lines : List Text) (scan : Scan), (∀ line ∈ brokenLines lines, isFree line) →
      ∀ s ∈ (scan.addLines lines).structures,
        s ∈ scan.structures ∨ ∃ opening span, StandsAt lines s opening span ∧
          span.hasBody = true := by
  intro h
  let lines := ["struct Foo".toList, "*make_foo(void)".toList, "\x7b".toList, "return 0;".toList,
    "\x7d".toList]
  let body := ["*make_foo(void)".toList, "\x7b".toList, "return 0;".toList]
  let made : Member := { dataType := "*make_foo(void)".toList, name := "return 0".toList }
  rcases h lines (start [] .generic) (by decide +kernel)
      { name := "Foo".toList, form := .tagged, members := [made] } (by decide +kernel) with
    hold | ⟨opening, span, hstands, hbody⟩
  · cases hold
  -- there is no other structure, so its opening line is the first one
  · have hregion : Region.closed opening span.body span.closing =
        .closed ⟨.tagged, "Foo".toList, 1⟩ body "\x7d".toList := by
      have hregions : regions lines = [.closed ⟨.tagged, "Foo".toList, 1⟩ body "\x7d".toList] := by
        decide +kernel
      simpa [hregions] using hstands.region
    obtain ⟨rfl, hrows, hclosing⟩ := Region.closed.inj hregion
    have hbefore : span.before = [] := by simpa using hstands.holds.number.symm
    have hlines := hstands.lines_eq
    rw [show brokenLines lines = lines by decide +kernel, Span.lines, hbefore, hrows] at hlines
    obtain ⟨hline, hafter⟩ := List.cons.inj hlines
    rw [Span.hasBody, hline, hrows, hafter] at hbody
    exact absurd hbody (by decide +kernel)

end StructTables.Scan
