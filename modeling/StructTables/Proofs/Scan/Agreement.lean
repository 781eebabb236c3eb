import StructTables.Scan

/-! # What a scan depends on

A scan only adds to what it has found and reported. What it adds depends on its options and its
collector alone, so scans that differ in nothing but events that warn of nothing stay so. -/

namespace StructTables.Scan
open Text

/-! ## Steps -/

theorem addClosed_of_nameless {opening : Outline.Opening} {closing : Text}
    (h : (closedName opening closing).isEmpty = true) (scan : Scan) (body : List Text) :
    scan.addClosed opening body closing = scan.warn (.missingStructureName closing) := by
  simp [addClosed, h]

/-- The structure that a closed region gives, with the collector behind it and what is reported. -/
def readClosed (collector : Macro.Collector) (opening : Outline.Opening) (body : List Text)
    (closing : Text) : Structure × Macro.Collector × List Event :=
  Structure.addBody { name := closedName opening closing, form := opening.form } collector body

theorem addClosed_of_named {opening : Outline.Opening} {closing : Text}
    (h : (closedName opening closing).isEmpty = false) (scan : Scan) (body : List Text) :
    scan.addClosed opening body closing =
      let (s, collector, log) := readClosed scan.collector opening body closing
      { scan with
        collector := collector
        structures := scan.structures ++ [s]
        log := scan.log ++ log ++ [.extracted s.name s.members.length] } := by
  simp [addClosed, readClosed, h]

/-- A line outside of structures may be noted, warned of, or define a name. -/
theorem addOutside_cases (scan : Scan) (line : Text) :
    scan.addOutside line = scan ∨ scan.addOutside line = scan.report (.bodiless line) ∨
      scan.addOutside line = scan.warn (.unhandledTypedef line) ∨
      ∃ name value, definition? line = some (name, value) ∧ scan.options.captureDefines = true ∧
        scan.addOutside line =
          { scan with collector := scan.collector.define name value }.report
            (.captured name value) := by
  unfold addOutside
  split
  · split
    · exact .inr (.inl rfl)
    · split
      · exact .inr (.inr (.inl rfl))
      · exact .inl rfl
  · split
    case isTrue hcapture =>
      unfold capture
      split
      case h_1 => exact .inl rfl
      case h_2 name value hd =>
        split
        · exact .inl rfl
        · exact .inr (.inr (.inr ⟨name, value, hd, hcapture, rfl⟩))
    case isFalse => exact .inl rfl

theorem warnings_report (scan : Scan) (event : Event) :
    (scan.report event).warnings = scan.warnings ++ event.warning?.toList := by
  cases h : event.warning? <;> simp [warnings, report, StructTables.warnings, h]

/-- The scan with nothing found or reported yet. -/
def emptied (scan : Scan) : Scan := { options := scan.options, collector := scan.collector }

/-- Two scans put together: all of the first, then what the second found and reported. -/
def followedBy (scan next : Scan) : Scan :=
  { next with
    structures := scan.structures ++ next.structures
    log := scan.log ++ next.log }

@[simp] theorem emptied_options (scan : Scan) : scan.emptied.options = scan.options := rfl

@[simp] theorem emptied_collector (scan : Scan) : scan.emptied.collector = scan.collector := rfl

theorem followedBy_emptied (scan : Scan) : scan.followedBy scan.emptied = scan := by
  simp [followedBy, emptied]

theorem report_eq (scan : Scan) (event : Event) :
    scan.report event = scan.followedBy (scan.emptied.report event) := by
  simp [followedBy, emptied, report]

theorem capture_eq (scan : Scan) (line : Text) :
    scan.capture line = scan.followedBy (scan.emptied.capture line) := by
  unfold capture
  rw [emptied_collector]
  split
  · exact (followedBy_emptied scan).symm
  · split
    · exact (followedBy_emptied scan).symm
    · simp [followedBy, emptied, report]

theorem addOutside_eq (scan : Scan) (line : Text) :
    scan.addOutside line = scan.followedBy (scan.emptied.addOutside line) := by
  unfold addOutside
  rw [emptied_options]
  split
  · split
    · exact report_eq scan _
    · split
      · exact report_eq scan _
      · exact (followedBy_emptied scan).symm
  · split
    · exact capture_eq scan line
    · exact (followedBy_emptied scan).symm

theorem addClosed_eq (scan : Scan) (opening : Outline.Opening) (body : List Text)
    (closing : Text) :
    scan.addClosed opening body closing =
      scan.followedBy (scan.emptied.addClosed opening body closing) := by
  cases h : (closedName opening closing).isEmpty with
  | true =>
    rw [addClosed_of_nameless h, addClosed_of_nameless h]
    exact report_eq scan _
  | false => simp [addClosed_of_named h, followedBy, emptied]

/-- What a region adds depends on the options and the collector alone. -/
theorem addRegion_eq (scan : Scan) (region : Outline.Region) :
    scan.addRegion region = scan.followedBy (scan.emptied.addRegion region) := by
  cases region with
  | outside line => exact addOutside_eq scan line
  | closed opening body closing => exact addClosed_eq scan opening body closing
  | abandoned opening => exact report_eq scan _
  | unclosed opening => exact report_eq scan _

theorem followedBy_assoc (a b c : Scan) :
    (a.followedBy b).followedBy c = a.followedBy (b.followedBy c) := by
  simp [followedBy]

/-- What is put ahead of a scan makes no difference to what a run adds. -/
theorem foldl_eq {α : Type} {step : Scan → α → Scan}
    (hstep : ∀ scan x, step scan x = scan.followedBy (step scan.emptied x)) (xs : List α)
    (scan : Scan) : xs.foldl step scan = scan.followedBy (xs.foldl step scan.emptied) := by
  induction xs generalizing scan with
  | nil => exact (followedBy_emptied scan).symm
  | cons x more ih =>
    have hemptied : (step scan x).emptied = (step scan.emptied x).emptied := by
      rw [hstep scan x]
      rfl
    rw [List.foldl_cons, List.foldl_cons, ih (step scan x), ih (step scan.emptied x), hemptied,
      ← followedBy_assoc, ← hstep scan x]

theorem addSource_eq (scan : Scan) (content : Text) :
    scan.addSource content = scan.followedBy (scan.emptied.addSource content) :=
  foldl_eq addRegion_eq _ scan

/-! ## Runs -/

section Runs

variable {P : Scan → Prop} (hregion : ∀ {scan}, P scan → ∀ region, P (scan.addRegion region))
include hregion

theorem addLines_keeps {scan : Scan} (h : P scan) (lines : List Text) : P (scan.addLines lines) :=
  List.foldlRecOn _ _ h fun _ hscan region _ => hregion hscan region

/-- What every region keeps is true behind all sources. -/
theorem ofSources_keeps {group : Text} {options : Options} (hstart : P (start group options))
    (sources : List Text) : P (ofSources group options sources) :=
  List.foldlRecOn _ _ hstart fun _ hscan _ _ => addLines_keeps hregion hscan _

end Runs

/-! ## Agreement -/

/-- Scans that differ at most in events that warn of nothing. -/
structure Agrees (a b : Scan) : Prop where
  options : a.options = b.options
  collector : a.collector = b.collector
  structures : a.structures = b.structures
  warnings : a.warnings = b.warnings

theorem Agrees.refl (scan : Scan) : scan.Agrees scan := ⟨rfl, rfl, rfl, rfl⟩

theorem Agrees.symm {a b : Scan} (h : a.Agrees b) : b.Agrees a :=
  ⟨h.options.symm, h.collector.symm, h.structures.symm, h.warnings.symm⟩

theorem Agrees.trans {a b c : Scan} (h : a.Agrees b) (h' : b.Agrees c) : a.Agrees c :=
  ⟨h.options.trans h'.options, h.collector.trans h'.collector,
    h.structures.trans h'.structures, h.warnings.trans h'.warnings⟩

theorem Agrees.emptied_eq {a b : Scan} (h : a.Agrees b) : a.emptied = b.emptied := by
  rw [emptied, emptied, h.options, h.collector]

theorem warnings_followedBy (scan next : Scan) :
    (scan.followedBy next).warnings = scan.warnings ++ next.warnings :=
  List.filterMap_append

theorem Agrees.followedBy {a b : Scan} (h : a.Agrees b) (next : Scan) :
    (a.followedBy next).Agrees (b.followedBy next) := by
  refine ⟨rfl, rfl, congrArg (· ++ next.structures) h.structures, ?_⟩
  rw [warnings_followedBy, warnings_followedBy, h.warnings]

theorem Agrees.addOutside {a b : Scan} (h : a.Agrees b) (line : Text) :
    (a.addOutside line).Agrees (b.addOutside line) := by
  rw [addOutside_eq a, addOutside_eq b, h.emptied_eq]
  exact h.followedBy _

theorem Agrees.addRegion {a b : Scan} (h : a.Agrees b) (region : Outline.Region) :
    (a.addRegion region).Agrees (b.addRegion region) := by
  rw [addRegion_eq a, addRegion_eq b, h.emptied_eq]
  exact h.followedBy _

theorem Agrees.foldl {α : Type} {step : Scan → α → Scan}
    (hstep : ∀ {a b : Scan}, a.Agrees b → ∀ x, (step a x).Agrees (step b x)) (xs : List α)
    {a b : Scan} (h : a.Agrees b) : (xs.foldl step a).Agrees (xs.foldl step b) := by
  induction xs generalizing a b with
  | nil => exact h
  | cons x more ih => exact ih (hstep h x)

/-- An event that warns of nothing makes no difference. -/
theorem agrees_report {event : Event} (he : event.warning? = none) (scan : Scan) :
    (scan.report event).Agrees scan := by
  refine ⟨rfl, rfl, rfl, ?_⟩
  rw [warnings_report, he, Option.toList_none, List.append_nil]

/-! ## What a region leaves as it is -/

/-- A line outside of structures may define a name or be warned of, and does nothing else. -/
theorem addOutside_frame (scan : Scan) (line : Text) :
    (scan.addOutside line).structures = scan.structures ∧
      (scan.addOutside line).table = scan.table ∧
      ((scan.addOutside line).warnings = scan.warnings ∨
        (scan.addOutside line).warnings = scan.warnings ++ [.unhandledTypedef line]) := by
  rcases addOutside_cases scan line with h | h | h | ⟨name, value, -, -, h⟩
  · rw [h]
    exact ⟨rfl, rfl, .inl rfl⟩
  · rw [h]
    exact ⟨rfl, rfl, .inl (agrees_report rfl scan).warnings⟩
  · rw [h]
    exact ⟨rfl, rfl, .inr (warnings_report scan _)⟩
  · rw [h]
    refine ⟨rfl, ?_, .inl ?_⟩
    · simp only [table, report, Macro.Collector.define]
      split <;> rfl
    · rw [warnings_report]
      simp [warnings, Event.warning?]

theorem structures_addRegion (scan : Scan) (region : Outline.Region) :
    (scan.addRegion region).structures = scan.structures ∨
      ∃ opening body closing, region = .closed opening body closing ∧
        (closedName opening closing).isEmpty = false ∧
        (scan.addRegion region).structures =
          scan.structures ++ [(readClosed scan.collector opening body closing).1] := by
  cases region with
  | outside line => exact .inl (addOutside_frame scan line).1
  | abandoned opening => exact .inl rfl
  | unclosed opening => exact .inl rfl
  | closed opening body closing =>
    cases hname : (closedName opening closing).isEmpty with
    | true =>
      rw [addRegion, addClosed_of_nameless hname]
      exact .inl rfl
    | false =>
      refine .inr ⟨opening, body, closing, rfl, hname, ?_⟩
      rw [addRegion, addClosed_of_named hname]

end StructTables.Scan
