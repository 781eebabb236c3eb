import StructTables.Proofs.Body.Assembly
import StructTables.Proofs.Comment.Delimiters
import StructTables.Proofs.Outline.Segment
import StructTables.Proofs.Outline.Step
import StructTables.Proofs.Scan.Agreement

/-! # Scanning segment by segment

Without comments a scan does nothing but read the segments of its lines one after the other: the
lines outside of structures, then the structure of the last opening line with the lines between that
and the closing line. What the scan keeps in mind from line to line is not needed to say so. -/

namespace StructTables.Scan
open Text Outline

/-! ## The reading of a segment -/

/-- The name of a structure: for a typedef it stands on the closing line. -/
def nameOf (opened : Opened) (closing : Text) : Text :=
  match opened.form with
  | .tagged => opened.name
  | .typedef => typedefName closing

/-- Takes account of the structure of an opening line whose closing line is known. -/
def addOpened (scan : Scan) (opened : Opened) (closing : Text) : Scan :=
  let name := nameOf opened closing
  if name.isEmpty then scan.warn (.missingStructureName closing)
  else
    let read := Structure.addBody { name := name, form := opened.form } scan.collector opened.body
    { scan with
      collector := read.2.1
      structures := scan.structures ++ [read.1]
      log := scan.log ++ read.2.2 }

def addSegment (scan : Scan) (segment : Segment) : Scan :=
  let scan := segment.outside.foldl addOutside scan
  match segment.opened? with
  | none => scan
  | some opened => scan.addOpened opened segment.closing

/-- Reads lines segment by segment. Behind the last closing line nothing is closed. -/
def readSegments (scan : Scan) (lines : List Text) : Scan :=
  (outside (segments lines).2).foldl addOutside ((segments lines).1.foldl addSegment scan)

theorem addClosed_agrees (scan : Scan) (opening : Opening) (body : List Text) (closing : Text) :
    (scan.addClosed opening body closing).Agrees
      (scan.addOpened ⟨opening.form, opening.name, body⟩ closing) := by
  have hname : nameOf ⟨opening.form, opening.name, body⟩ closing = closedName opening closing := rfl
  simp only [addOpened, hname]
  cases h : (closedName opening closing).isEmpty with
  | true =>
    rw [addClosed_of_nameless h]
    exact .refl _
  | false =>
    rw [addClosed_of_named h]
    refine ⟨rfl, rfl, rfl, ?_⟩
    simp [warnings, StructTables.warnings, Event.warning?, readClosed]

theorem Agrees.addOpened {a b : Scan} (h : a.Agrees b) (opened : Opened) (closing : Text) :
    (a.addOpened opened closing).Agrees (b.addOpened opened closing) := by
  let opening : Opening := ⟨opened.form, opened.name, 0⟩
  refine (addClosed_agrees a opening opened.body closing).symm.trans ?_
  exact (h.addRegion (.closed opening opened.body closing)).trans (addClosed_agrees b opening _ _)

theorem addSegment_nil {closing : Text} (h : closes closing = true) (scan : Scan)
    (below : List Text) :
    scan.addSegment ⟨[], closing, below⟩ = scan.addOutside closing := by
  simp [addSegment, Segment.outside, outside, Segment.opened?, openings,
    opening?_eq_none_of_closes h]

theorem addSegment_cons {line : Text} (h : opening? line = none) (scan : Scan)
    (more : List Text) (closing : Text) (below : List Text) :
    scan.addSegment ⟨line :: more, closing, below⟩ =
      (scan.addOutside line).addSegment ⟨more, closing, below⟩ := by
  simp [addSegment, Segment.outside, outside, Segment.opened?, openings, h]

theorem addSegment_opening {line : Text} {form : Form} {name : Text}
    (h : opening? line = some (form, name)) (scan : Scan) (more : List Text) (closing : Text)
    (below : List Text) :
    scan.addSegment ⟨line :: more, closing, below⟩ =
      scan.addOpened ((reopenings (closing :: below) more).getLastD ⟨form, name, more⟩)
        closing := by
  simp [addSegment, Segment.outside, outside, Segment.opened?, openings, h,
    List.getLast?_cons]

/-! ## The scan as that reading -/

/-- A line without comments. -/
def isFree (line : Text) : Prop := ¬ ['/', '*'] <:+: line ∧ ¬ ['/', '/'] <:+: line

instance (line : Text) : Decidable (isFree line) := inferInstanceAs (Decidable (_ ∧ _))

theorem isFree.openAfter {line : Text} (h : isFree line) : Comment.openAfter false line = false :=
  Comment.openAfter_of_no_block h.1

/-- The lines of a body up to the closing line: the structure of the last reopening is closed, or
the one that was open ahead of them. -/
theorem foldl_regionsFrom_inside {lines : List Text} {closing : Text} {below : List Text}
    (hfree : ∀ line ∈ lines, isFree line) (hopen : ∀ line ∈ lines, closes line = false)
    (hclosing : closes closing = true) (number : Nat) (opening : Opening) (body : List Text)
    (scan : Scan) :
    ((regionsFrom number (.inside opening body false) (lines ++ closing :: below)).foldl
        addRegion scan).Agrees
      ((regionsFrom (number + lines.length + 1) .outside below).foldl addRegion
        (scan.addOpened ((reopenings (closing :: below) lines).getLastD
          ⟨opening.form, opening.name, body ++ lines⟩) closing)) := by
  induction lines generalizing number opening body scan with
  | nil =>
    rw [List.nil_append, regionsFrom_closing opening body hclosing, List.foldl_cons,
      List.append_nil]
    exact .foldl .addRegion _ (addClosed_agrees scan opening body closing)
  | cons line more ih =>
    obtain ⟨hline, hmore⟩ := List.forall_mem_cons.mp hfree
    obtain ⟨hc, hcs⟩ := List.forall_mem_cons.mp hopen
    have hnumber : number + (line :: more).length + 1 = number + 1 + more.length + 1 := by
      simp only [List.length_cons]
      omega
    rw [hnumber]
    cases hr : reopening? line (more ++ closing :: below) with
    | none =>
      have h := ih hmore hcs (number + 1) opening (body ++ [line]) scan
      rw [List.cons_append, regionsFrom_body opening body hc hr, hline.openAfter]
      simpa only [reopenings, hr, List.append_assoc, List.singleton_append] using h
    | some found =>
      obtain ⟨form, name⟩ := found
      have h := ih hmore hcs (number + 1) ⟨form, name, number⟩ []
        (scan.report (.reopened opening.name opening.line))
      rw [List.cons_append, regionsFrom_reopening opening body hc hr, hline.openAfter,
        List.foldl_cons]
      refine h.trans ?_
      simp only [reopenings, hr, List.getLastD_cons, List.nil_append]
      exact .foldl .addRegion _ (.addOpened (agrees_report rfl scan) _ closing)

/-- A body without a closing line comes to nothing. -/
theorem foldl_regionsFrom_unclosed {lines : List Text} (hfree : ∀ line ∈ lines, isFree line)
    (hopen : ∀ line ∈ lines, closes line = false) (number : Nat) (opening : Opening)
    (body : List Text) (scan : Scan) :
    ((regionsFrom number (.inside opening body false) lines).foldl addRegion scan).Agrees scan := by
  induction lines generalizing number opening body scan with
  | nil => exact agrees_report rfl scan
  | cons line more ih =>
    obtain ⟨hline, hmore⟩ := List.forall_mem_cons.mp hfree
    obtain ⟨hc, hcs⟩ := List.forall_mem_cons.mp hopen
    cases hr : reopening? line more with
    | none =>
      rw [regionsFrom_body opening body hc hr, hline.openAfter]
      exact ih hmore hcs _ _ _ scan
    | some found =>
      rw [regionsFrom_reopening opening body hc hr, hline.openAfter, List.foldl_cons]
      exact (ih hmore hcs _ _ _ _).trans (agrees_report rfl scan)

theorem foldl_regionsFrom_segment {lines : List Text} {closing : Text} (below : List Text)
    (hfree : ∀ line ∈ lines, isFree line) (hopen : ∀ line ∈ lines, closes line = false)
    (hclosing : closes closing = true) (hfreeClosing : isFree closing) (number : Nat)
    (scan : Scan) :
    ((regionsFrom number .outside (lines ++ closing :: below)).foldl addRegion scan).Agrees
      ((regionsFrom (number + lines.length + 1) .outside below).foldl addRegion
        (scan.addSegment ⟨lines, closing, below⟩)) := by
  induction lines generalizing number scan with
  | nil =>
    have hb := Comment.beginsBlock_of_no_block hfreeClosing.1
    rw [List.nil_append, regionsFrom_outside (opening?_eq_none_of_closes hclosing) hb,
      List.foldl_cons, addSegment_nil hclosing]
    exact .refl _
  | cons line more ih =>
    obtain ⟨hline, hmore⟩ := List.forall_mem_cons.mp hfree
    obtain ⟨-, hcs⟩ := List.forall_mem_cons.mp hopen
    have hnumber : number + (line :: more).length + 1 = number + 1 + more.length + 1 := by
      simp only [List.length_cons]
      omega
    rw [hnumber, List.cons_append]
    cases ho : opening? line with
    | none =>
      rw [regionsFrom_outside ho (Comment.beginsBlock_of_no_block hline.1), List.foldl_cons,
        addSegment_cons ho]
      exact ih hmore hcs (number + 1) (scan.addOutside line)
    | some found =>
      obtain ⟨form, name⟩ := found
      rw [regionsFrom_opening ho, hline.openAfter, addSegment_opening ho]
      exact foldl_regionsFrom_inside hmore hcs hclosing _ ⟨form, name, number⟩ [] scan

theorem foldl_regionsFrom_rest {lines : List Text} (hfree : ∀ line ∈ lines, isFree line)
    (hopen : ∀ line ∈ lines, closes line = false) (number : Nat) (scan : Scan) :
    ((regionsFrom number .outside lines).foldl addRegion scan).Agrees
      ((outside lines).foldl addOutside scan) := by
  induction lines generalizing number scan with
  | nil => exact .refl scan
  | cons line more ih =>
    obtain ⟨hline, hmore⟩ := List.forall_mem_cons.mp hfree
    obtain ⟨-, hcs⟩ := List.forall_mem_cons.mp hopen
    cases ho : opening? line with
    | none =>
      rw [regionsFrom_outside ho (Comment.beginsBlock_of_no_block hline.1), outside,
        List.takeWhile_cons_of_pos (by simp [ho])]
      exact ih hmore hcs (number + 1) (scan.addOutside line)
    | some found =>
      obtain ⟨form, name⟩ := found
      rw [regionsFrom_opening ho, hline.openAfter, outside,
        List.takeWhile_cons_of_neg (by simp [ho])]
      exact foldl_regionsFrom_unclosed hmore hcs _ _ _ scan

/-- The induction is on the number of lines: a segment leaves fewer for those behind it. -/
theorem foldl_regionsFrom_agrees {lines : List Text} (hfree : ∀ line ∈ lines, isFree line)
    (number : Nat) (scan : Scan) :
    ((regionsFrom number .outside lines).foldl addRegion scan).Agrees
      (scan.readSegments lines) := by
  induction hn : lines.length using Nat.strongRecOn generalizing lines number scan with
  | _ n ih =>
    rcases segments_cases lines with ⟨hs, hopen⟩ | ⟨first, closing, rest, rfl, hopen, hclosing, hs⟩
    · simp only [readSegments, hs]
      exact foldl_regionsFrom_rest hfree hopen number scan
    · simp only [List.mem_append, List.mem_cons] at hfree
      have hsegment := foldl_regionsFrom_segment rest (fun l hl => hfree l (.inl hl)) hopen
        hclosing (hfree closing (.inr (.inl rfl))) number scan
      have hrest := ih rest.length (by simp at hn; omega) (fun l hl => hfree l (.inr (.inr hl)))
        (number + first.length + 1) (scan.addSegment ⟨first, closing, rest⟩) rfl
      simp only [readSegments, hs, List.foldl_cons] at hrest ⊢
      exact hsegment.trans hrest

/-! ## Outcomes -/

def isNameless : Warning → Bool
  | .missingStructureName _ => true
  | _ => false

/-- How many structures have been found, and how many were given up for want of a name. -/
def outcomes (scan : Scan) : Nat := scan.structures.length + scan.warnings.countP isNameless

theorem Agrees.outcomes_eq {a b : Scan} (h : a.Agrees b) : a.outcomes = b.outcomes := by
  rw [outcomes, outcomes, h.structures, h.warnings]

theorem outcomes_foldl_addOutside (lines : List Text) (scan : Scan) :
    (lines.foldl addOutside scan).outcomes = scan.outcomes := by
  induction lines generalizing scan with
  | nil => rfl
  | cons line more ih =>
    obtain ⟨hs, -, hw | hw⟩ := addOutside_frame scan line
    · rw [List.foldl_cons, ih, outcomes, outcomes, hs, hw]
    · rw [List.foldl_cons, ih, outcomes, outcomes, hs, hw]
      simp [isNameless]

/-- No body is given up for want of a name. -/
theorem countP_nameless_addBody (s : Structure) (collector : Macro.Collector) (body : List Text) :
    (StructTables.warnings (s.addBody collector body).2.2).countP isNameless = 0 := by
  refine List.countP_eq_zero.mpr ?_
  intro warning hw
  obtain ⟨event, he, hew⟩ := List.mem_filterMap.mp hw
  have hbody := Body.isBodyEvent_assemble s collector (Body.read body) event he
  cases event with
  | warning w =>
    cases hew
    cases warning with
    | missingStructureName closing => cases hbody
    | _ => simp [isNameless]
  | _ => cases hew

theorem outcomes_addOpened (scan : Scan) (opened : Opened) (closing : Text) :
    (scan.addOpened opened closing).outcomes = scan.outcomes + 1 := by
  simp only [addOpened]
  split
  · rw [outcomes, warn, warnings_report]
    simp [outcomes, report, Event.warning?, isNameless, Nat.add_assoc]
  · have hbody := countP_nameless_addBody { name := nameOf opened closing, form := opened.form }
      scan.collector opened.body
    simp only [outcomes, warnings, StructTables.warnings, List.filterMap_append,
      List.countP_append, List.length_append, List.length_singleton] at hbody ⊢
    omega

theorem openings_eq_nil_iff {below lines : List Text} :
    openings below lines = [] ↔ ∀ line ∈ lines, opening? line = none := by
  induction lines with
  | nil => simp [openings]
  | cons line more ih => cases h : opening? line <;> simp [openings, h, ih]

theorem outcomes_addSegment (scan : Scan) (segment : Segment) :
    (scan.addSegment segment).outcomes = scan.outcomes +
      if segment.lines.any (fun line => (opening? line).isSome) then 1 else 0 := by
  have hany : segment.lines.any (fun line => (opening? line).isSome) = segment.opened?.isSome := by
    rw [Segment.opened?, Bool.eq_iff_iff, List.getLast?_isSome, ne_eq, openings_eq_nil_iff]
    simp [Option.isSome_iff_ne_none]
  rw [hany, addSegment]
  cases segment.opened? with
  | none => simp [outcomes_foldl_addOutside]
  | some opened => simp [outcomes_addOpened, outcomes_foldl_addOutside]

theorem outcomes_foldl_addSegment (segments : List Segment) (scan : Scan) :
    (segments.foldl addSegment scan).outcomes = scan.outcomes +
      segments.countP fun s => s.lines.any fun line => (opening? line).isSome := by
  induction segments generalizing scan with
  | nil => rfl
  | cons segment more ih =>
    rw [List.foldl_cons, ih, outcomes_addSegment, List.countP_cons]
    omega

/-- **A scan without comments is the reading of its segments.** What the lines outside of structures
do is confined to definitions and to warnings of unhandled typedefs; apart from that every segment
with an opening line has exactly one outcome, a structure or a warning of a missing name. -/
theorem addLines_agrees_readSegments {lines : List Text}
    (hfree : ∀ line ∈ brokenLines lines, isFree line) (scan : Scan) :
    (scan.addLines lines).Agrees (scan.readSegments (brokenLines lines)) ∧
      (scan.addLines lines).outcomes = scan.outcomes +
        (segments (brokenLines lines)).1.countP
          (fun s => s.lines.any fun line => (opening? line).isSome) ∧
      ∀ (before : Scan) (line : Text),
        (before.addOutside line).structures = before.structures ∧
        (before.addOutside line).table = before.table ∧
        ((before.addOutside line).warnings = before.warnings ∨
          (before.addOutside line).warnings = before.warnings ++ [.unhandledTypedef line]) := by
  have hagrees : (scan.addLines lines).Agrees (scan.readSegments (brokenLines lines)) :=
    foldl_regionsFrom_agrees hfree 1 scan
  refine ⟨hagrees, ?_, addOutside_frame⟩
  rw [hagrees.outcomes_eq, readSegments, outcomes_foldl_addOutside, outcomes_foldl_addSegment]

/-- A structure that another one takes the place of, and a stray closing line: one outcome. -/
theorem addLines_of_nested_structures :
    let lines := ["struct Outer \x7b".toList, "int a;".toList, "struct Inner".toList, "\x7b".toList,
      "int b;".toList, "\x7d;".toList, "int c;".toList, "\x7d;".toList]
    (∀ line ∈ brokenLines lines, isFree line) ∧
      ((start [] .generic).addLines lines).outcomes = 1 := by
  intro lines
  have hfree : ∀ line ∈ brokenLines lines, isFree line := by decide +kernel
  exact ⟨hfree, (addLines_agrees_readSegments hfree _).2.1.trans (by decide +kernel)⟩

end StructTables.Scan
