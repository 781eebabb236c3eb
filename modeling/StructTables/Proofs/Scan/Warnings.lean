import StructTables.Proofs.Body.Assembly
import StructTables.Proofs.Scan.Agreement
import StructTables.Proofs.Scan.Factoring

/-! # What a source is warned of

The warnings that a source gives rise to can be read off its regions. They depend on the options, and
neither on the macros nor on the sources ahead of it. -/

namespace StructTables
open Text

/-! ## Bodies -/

namespace Body

/-- The warning that an entry gives rise to in the body of the given structure. -/
def Entry.warning? (owner : Text) : Entry → Option Warning
  | .invalid source => some (.invalidMember owner source)
  | .variable .. | .remark _ => none

theorem warnings_add (owner : Structure) (assembly : Assembly) (entry : Entry) :
    warnings (assembly.add owner entry).log =
      warnings assembly.log ++ (entry.warning? owner.name).toList := by
  match entry with
  | .invalid source => simp [Assembly.add, Assembly.report, warnings, Event.warning?, Entry.warning?]
  | .remark text => simp [Assembly.add, Entry.warning?]
  | .variable dataType declarator description =>
    cases hdup : assembly.contains owner declarator.name with
    | true =>
      rw [add_duplicate hdup]
      simp [Assembly.report, warnings, Event.warning?, Entry.warning?]
    | false =>
      rw [add_variable hdup]
      simp [Entry.warning?]

theorem warnings_assemble (owner : Structure) (collector : Macro.Collector) (entries : List Entry) :
    warnings (assemble owner collector entries).log =
      entries.filterMap (Entry.warning? owner.name) := by
  suffices hfold : ∀ assembly : Assembly,
      warnings (entries.foldl (Assembly.add owner) assembly).log =
        warnings assembly.log ++ entries.filterMap (Entry.warning? owner.name) from
    hfold { collector := collector }
  induction entries with
  | nil => simp
  | cons entry more ih =>
    intro assembly
    rw [List.foldl_cons, ih, warnings_add, List.append_assoc]
    cases h : entry.warning? owner.name <;> simp [h]

end Body

/-! ## Regions -/

/-- The warnings that a region gives rise to. -/
def Outline.Region.warnings (options : Options) : Outline.Region → List Warning
  | .outside line =>
    if isTypedef line && !namesStructure line && options.warnUnhandledTypedefs then
      [.unhandledTypedef line]
    else []
  | .abandoned _ | .unclosed _ => []
  | .closed opening body closing =>
    let name := Scan.closedName opening closing
    if name.isEmpty then [.missingStructureName closing]
    else (Body.read body).filterMap (Body.Entry.warning? name)

namespace Scan

theorem warnings_capture (scan : Scan) (line : Text) : (scan.capture line).warnings = scan.warnings := by
  unfold capture
  split
  · rfl
  · split
    · rfl
    · exact (agrees_report rfl _).warnings

theorem warnings_addOutside (scan : Scan) (line : Text) :
    (scan.addOutside line).warnings =
      scan.warnings ++ (Outline.Region.outside line).warnings scan.options := by
  rw [addOutside, Outline.Region.warnings]
  cases Outline.isTypedef line with
  | true =>
    cases Outline.namesStructure line with
    | true => simp [warnings_report, Event.warning?]
    | false => cases scan.options.warnUnhandledTypedefs <;> simp [warn, warnings_report, Event.warning?]
  | false => cases scan.options.captureDefines <;> simp [warnings_capture]

theorem warnings_addRegion (scan : Scan) (region : Outline.Region) :
    (scan.addRegion region).warnings = scan.warnings ++ region.warnings scan.options := by
  cases region with
  | outside line => exact warnings_addOutside scan line
  | abandoned opening => exact warnings_report scan _
  | unclosed opening => exact warnings_report scan _
  | closed opening body closing =>
    rw [addRegion, Outline.Region.warnings]
    cases hname : (closedName opening closing).isEmpty with
    | true =>
      rw [addClosed_of_nameless hname]
      exact warnings_report scan _
    | false =>
      have hbody := Body.warnings_assemble { name := closedName opening closing, form := opening.form }
        scan.collector (Body.read body)
      rw [addClosed_of_named hname]
      simp only [StructTables.warnings] at hbody
      simp [readClosed, Structure.addBody, warnings, StructTables.warnings, hbody, Event.warning?]

/-! ## Sources -/

/-- The warnings that a source gives rise to. -/
def warningsOf (options : Options) (content : Text) : List Warning :=
  (Outline.regions (Source.logicalLines options.joinContinuations content)).flatMap
    (Outline.Region.warnings options)

theorem options_addSource (scan : Scan) (content : Text) :
    (scan.addSource content).options = scan.options :=
  addLines_keeps (P := fun last => last.options = scan.options)
    (fun h region => (Scan.addRegion_keeps _ region).1.trans h) rfl _

theorem warnings_addSource (scan : Scan) (content : Text) :
    (scan.addSource content).warnings = scan.warnings ++ warningsOf scan.options content := by
  rw [addSource, addLines, warningsOf]
  generalize hoptions : scan.options = options
  generalize Outline.regions _ = regions
  induction regions generalizing scan with
  | nil => simp
  | cons region more ih =>
    rw [List.foldl_cons, ih, warnings_addRegion, hoptions, List.flatMap_cons, List.append_assoc]
    exact (scan.addRegion_keeps region).1.trans hoptions

/-- The warnings of a source by itself. -/
theorem warnings_ofSources_singleton (group : Text) (options : Options) (content : Text) :
    (ofSources group options [content]).warnings = warningsOf options content :=
  warnings_addSource (start group options) content

theorem warnings_ofSources (group : Text) (options : Options) (sources : List Text) :
    (ofSources group options sources).warnings = sources.flatMap (warningsOf options) := by
  suffices hfold : ∀ scan : Scan, scan.options = options →
      (sources.foldl addSource scan).warnings =
        scan.warnings ++ sources.flatMap (warningsOf options) from hfold (start group options) rfl
  induction sources with
  | nil => simp
  | cons content more ih =>
    intro scan hoptions
    rw [List.foldl_cons, ih _ ((options_addSource scan content).trans hoptions), warnings_addSource,
      hoptions, List.flatMap_cons, List.append_assoc]

end Scan
end StructTables
