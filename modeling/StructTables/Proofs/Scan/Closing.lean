import StructTables.Proofs.Outline.Trace
import StructTables.Proofs.Scan.Segments
import StructTables.Proofs.Text.Braces

/-! # What closes a structure

A scan keeps no count of braces. The first line that begins with a closing brace ends the structure
that opened last, and a nested structure takes the place of the one around it. Here that is compared
with the braces of the lines: the closing brace is the structure's own exactly if all other blocks are
closed ahead of it. -/

namespace StructTables.Outline
open Text Comment

/-- Without comments every line of a body is looked at. -/
theorem staysInside.of_free {below rows : List Text} (hfree : ∀ row ∈ rows, openAfter false row = false)
    (h : staysInside below false rows) {above more : List Text} {row : Text}
    (hrows : rows = above ++ row :: more) :
    closes row = false ∧ reopening? row (more ++ below) = none := by
  induction above generalizing rows with
  | nil =>
    subst hrows
    exact h.1 rfl
  | cons first above ih =>
    subst hrows
    obtain ⟨hfirst, hrest⟩ := List.forall_mem_cons.mp hfree
    have hstays := h.2
    rw [hfirst] at hstays
    exact ih hrest hstays rfl

end StructTables.Outline

namespace StructTables.Scan
open Text Outline

/-! ## Structures that a scan finds -/

/-- A structure that a scan finds is that of a closed region with a name. -/
theorem closed_of_mem_structures {regions : List Region} {scan : Scan} {s : Structure}
    (h : s ∈ (regions.foldl addRegion scan).structures) :
    s ∈ scan.structures ∨
      ∃ opening body closing collector, .closed opening body closing ∈ regions ∧
        (closedName opening closing).isEmpty = false ∧
        s = (readClosed collector opening body closing).1 := by
  induction regions generalizing scan with
  | nil => exact .inl h
  | cons region more ih =>
    rcases ih h with hold | ⟨opening, body, closing, collector, hmem, hname, hs⟩
    · rcases structures_addRegion scan region with
        heq | ⟨opening, body, closing, rfl, hname, heq⟩
      · exact .inl (heq ▸ hold)
      · rw [heq] at hold
        rcases List.mem_append.mp hold with hold | hnew
        · exact .inl hold
        · exact .inr ⟨opening, body, closing, _, List.mem_cons_self, hname,
            List.mem_singleton.mp hnew⟩
    · exact .inr ⟨opening, body, closing, collector, List.mem_cons_of_mem _ hmem, hname, hs⟩

/-! ## The closing line -/

/-- Where a structure that a scan finds begins and ends. -/
structure ClosedAt (lines : List Text) (s : Structure) (opening : Opening) (span : Span) : Prop where
  region : .closed opening span.body span.closing ∈ regions lines
  lines_eq : span.lines = brokenLines lines
  holds : span.Holds opening
  form : s.form = opening.form
  name : s.name = closedName opening span.closing
  /-- No line closes ahead of the closing line. -/
  first : ∀ row ∈ span.body, closes row = false
  /-- No other structure with a body opens within. -/
  sole : ∀ above row more, span.body = above ++ row :: more →
    reopening? row (more ++ span.closing :: span.after) = none

/-- Without comments a structure is closed by the first line below its opening line that begins with a
closing brace, and no structure is opened in between. The brace is that of the structure exactly if
every other block is closed ahead of it, as it is if every line closes the blocks that it opens. -/
theorem closed_by_first_brace {lines : List Text} (hfree : ∀ line ∈ brokenLines lines, isFree line)
    (scan : Scan) :
    ∀ s ∈ (scan.addLines lines).structures,
      s ∈ scan.structures ∨ ∃ opening span, ClosedAt lines s opening span ∧
        let rows := span.line :: span.body
        (closesFirst rows.flatten ↔ closesOthers rows.flatten) ∧
          (rowsCloseOthers rows → closesFirst rows.flatten) := by
  intro s hs
  rcases closed_of_mem_structures hs with hold | ⟨opening, body, closing, collector, hmem, -, rfl⟩
  · exact .inl hold
  · obtain ⟨span, hlines, rfl, rfl, hholds⟩ := exists_span hmem
    have hlook : ∀ line ∈ span.line :: span.body, Comment.openAfter false line = false := by
      intro line hline
      refine (hfree line ?_).openAfter
      rw [← hlines, Span.lines]
      simp only [List.mem_append, List.mem_cons] at hline ⊢
      exact .inr (hline.imp_right .inl)
    obtain ⟨hline, hbody⟩ := List.forall_mem_cons.mp hlook
    have hstays := hholds.stays
    rw [hline] at hstays
    refine .inr ⟨opening, span, ⟨hmem, hlines, hholds, rfl, rfl, ?_, ?_⟩, closesFirst_iff,
      closesFirst_of_rows⟩
    · intro row hrow
      obtain ⟨above, more, heq⟩ := List.append_of_mem hrow
      exact (hstays.of_free hbody heq).1
    · intro above row more heq
      exact (hstays.of_free hbody heq).2

/-- A nested block on one line leaves the closing brace to the structure. -/
theorem closed_behind_inline_block :
    let lines := ["struct S \x7b".toList, "enum \x7b A \x7d e;".toList, "\x7d;".toList]
    let scan := start [] .generic
    (∀ line ∈ brokenLines lines, isFree line) ∧ (scan.addLines lines).structures ≠ [] ∧
      ∀ s ∈ (scan.addLines lines).structures,
        s ∈ scan.structures ∨ ∃ opening span, ClosedAt lines s opening span ∧
          let rows := span.line :: span.body
          (closesFirst rows.flatten ↔ closesOthers rows.flatten) ∧
            (rowsCloseOthers rows → closesFirst rows.flatten) := by
  intro lines scan
  have hfree : ∀ line ∈ brokenLines lines, isFree line := by decide +kernel
  exact ⟨hfree, by decide +kernel, closed_by_first_brace hfree scan⟩

/-- A nested block over several lines takes the place of the closing line, and names the typedef. -/
theorem closed_by_nested_brace :
    ¬ ∀ (lines : List Text) (scan : Scan), (∀ line ∈ brokenLines lines, isFree line) →
      depth (brokenLines lines).flatten = 0 →
      ∀ s ∈ (scan.addLines lines).structures,
        s ∈ scan.structures ∨ ∃ opening span, ClosedAt lines s opening span ∧
          closesFirst (span.line :: span.body).flatten := by
  intro h
  let lines := ["typedef struct \x7b".toList, "enum \x7b".toList, "\x7d e".toList, ";".toList,
    "int b;".toList, "\x7d T;".toList]
  rcases h lines (start [] .generic) (by decide +kernel) (by decide +kernel)
      { name := "e".toList, form := .typedef } (by decide +kernel) with
    hold | ⟨opening, span, hclosed, hfirst⟩
  · cases hold
  · have hregion : Region.closed opening span.body span.closing =
        .closed ⟨.typedef, [], 1⟩ ["enum \x7b".toList] "\x7d e".toList := by
      have hregions : regions lines =
          [.closed ⟨.typedef, [], 1⟩ ["enum \x7b".toList] "\x7d e".toList, .outside ";".toList,
            .outside "int b;".toList, .outside "\x7d T;".toList] := by decide +kernel
      simpa [hregions] using hclosed.region
    obtain ⟨rfl, hbody, -⟩ := Region.closed.inj hregion
    have hbefore : span.before = [] := by simpa using hclosed.holds.number.symm
    have hline : span.line = "typedef struct \x7b".toList := by
      have hlines := hclosed.lines_eq
      rw [show brokenLines lines = lines by decide +kernel, Span.lines, hbefore] at hlines
      exact (List.cons.inj hlines).1
    rw [hline, hbody] at hfirst
    exact absurd hfirst.2.2 (by decide +kernel)

end StructTables.Scan
